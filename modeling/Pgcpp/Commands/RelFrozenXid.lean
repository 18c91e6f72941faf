import Pgcpp.Commands.VacuumVisibility

/-!
# relfrozenxid

VACUUM stores its freeze limit as `relfrozenxid`, but freezes committed
inserters only, and `HeapTupleIsSurelyDead` asks for a committed deleter.  So
the tuple of an aborted inserter stays as it is below the new bound.  With no
transaction running the freeze limit is `kFrozenTransactionId`, which half of
all XIDs precede, and the bound is set back to it.
-/

namespace Pgcpp.Commands

open Transaction Access
open List hiding after

/-- The order of XIDs: the special ones are older than all others. -/
def xidOlder (left right : TransactionId) : Bool :=
  if transactionIdIsNormal left && transactionIdIsNormal right then transactionIdPrecedes left right
  else decide (left < right)

/-- The tuple has a normal and unfrozen `t_xmin` that is older than `xid`. -/
def XminOlder (xid : TransactionId) (block : List UInt8) : Prop :=
  (headerOf block).getXminStatus ≠ .frozen ∧ transactionIdIsNormal (headerOf block).tXmin ∧
    xidOlder (headerOf block).tXmin xid

/-- `relfrozenxid` is a lower bound after a step and has not moved backwards. -/
def FrozenBound (before after : HeapRelation) : Prop :=
  (∀ block ∈ after.pages.flatMap contents, ¬XminOlder after.relfrozenxid block) ∧
    (after.relfrozenxid = before.relfrozenxid ∨ xidOlder before.relfrozenxid after.relfrozenxid)

theorem oldestRunning_normal (normal : ∀ xid ∈ xids, transactionIdIsNormal xid)
    (start : transactionIdIsNormal oldest) : transactionIdIsNormal (oldestRunning xids oldest) := by
  induction xids generalizing oldest with
  | nil => exact start
  | cons xid xids ih =>
    obtain ⟨first, rest⟩ := forall_mem_cons.1 normal
    rw [oldestRunning]
    split
    · exact ih rest first
    · exact ih rest start

theorem vacuumGetFreezeLimit_normal (normal : transactionIdIsNormal oldestXmin) :
    transactionIdIsNormal (vacuumGetFreezeLimit oldestXmin freeze) := by
  rw [vacuumGetFreezeLimit]
  split_ifs with _ small
  · exact normal
  · exact normal
  · have large : (BitVec.ofNat 32 kVacuumFreezeMinAge).toNat + 3 ≤ oldestXmin.toNat :=
      not_lt.1 small
    rw [transactionIdIsNormal_iff, BitVec.toNat_sub_of_le (BitVec.le_def.2 (by omega))]
    omega

/-- The freeze limit is a normal XID if a transaction is running. -/
theorem freezeLimit_cases (pgxact : Nat → TransactionId) (pgprocnos : List Nat) (freeze : Bool)
    (running : ∀ proc ∈ pgprocnos, pgxact proc = 0 ∨ transactionIdIsNormal (pgxact proc)) :
    let freezeLimit := vacuumGetFreezeLimit
      (getOldestXmin pgxact pgprocnos kInvalidTransactionId) freeze
    collectRunningXids pgxact pgprocnos = [] ∧ freezeLimit = kFrozenTransactionId ∨
      collectRunningXids pgxact pgprocnos ≠ [] ∧ transactionIdIsNormal freezeLimit := by
  have normal : ∀ xid ∈ collectRunningXids pgxact pgprocnos, transactionIdIsNormal xid := by
    intro xid mem
    obtain ⟨published, valid⟩ := mem_filter.1 mem
    obtain ⟨proc, isProc, rfl⟩ := mem_map.1 published
    rcases running proc isProc with none | normal
    · rw [none] at valid
      cases valid
    · exact normal
  have counted : getOldestXmin pgxact pgprocnos kInvalidTransactionId =
      let oldest := oldestRunning (collectRunningXids pgxact pgprocnos) kInvalidTransactionId
      if oldest == kInvalidTransactionId then kFrozenTransactionId else oldest := by
    simp [getOldestXmin]
  rw [counted]
  cases xids : collectRunningXids pgxact pgprocnos with
  | nil => exact .inl ⟨rfl, by cases freeze <;> rfl⟩
  | cons xid rest =>
    rw [xids] at normal
    obtain ⟨first, others⟩ := forall_mem_cons.1 normal
    have oldest := oldestRunning_normal others first
    refine .inr ⟨cons_ne_nil _ _, vacuumGetFreezeLimit_normal ?_⟩
    change transactionIdIsNormal (if oldestRunning rest xid == 0 then _ else _)
    rw [if_neg]
    · exact oldest
    · intro zero
      rw [eq_of_beq zero] at oldest
      cases oldest

theorem xidOlder_of_special (special : transactionIdIsNormal left = false ∨
      transactionIdIsNormal right = false) : xidOlder left right = decide (left < right) := by
  rcases special with special | special <;> simp [xidOlder, special]

theorem stored_cases (before : TransactionId) (limit : freezeLimit = kFrozenTransactionId ∨
      transactionIdIsNormal freezeLimit) :
    let after := if transactionIdPrecedes before freezeLimit || !transactionIdIsNormal before then
      freezeLimit else before
    let reset := freezeLimit = kFrozenTransactionId ∧ 2 ^ 31 + 2 ≤ before.toNat
    (after = before ∨ xidOlder before after ↔ ¬reset) ∧
      (¬reset → after = if xidOlder before freezeLimit then freezeLimit else before) := by
  intro after reset
  have normalIff := @transactionIdIsNormal_iff before
  rcases limit with rfl | normalLimit
  · have precedes : transactionIdPrecedes before kFrozenTransactionId =
        decide (before.toNat < 2 ∨ 2 ^ 31 + 2 ≤ before.toNat) := by
      rw [transactionIdPrecedes, decide_eq_decide, BitVec.toInt_eq_toNat_cond, BitVec.toNat_sub,
        show kFrozenTransactionId.toNat = 2 from rfl]
      split <;> omega
    have order : xidOlder before kFrozenTransactionId = decide (before.toNat < 2) :=
      xidOlder_of_special (.inr rfl)
    have same : before.toNat = 2 ↔ before = kFrozenTransactionId :=
      ⟨fun two => BitVec.eq_of_toNat_eq two, fun frozen => frozen ▸ rfl⟩
    grind
  · have limit := transactionIdIsNormal_iff.1 normalLimit
    have notFrozen : freezeLimit ≠ kFrozenTransactionId := by
      rintro rfl
      cases normalLimit
    have order : transactionIdIsNormal before = false → xidOlder before freezeLimit =
        decide (before.toNat < freezeLimit.toNat) :=
      fun special => xidOlder_of_special (.inl special)
    have modular : transactionIdIsNormal before → xidOlder before freezeLimit =
        transactionIdPrecedes before freezeLimit :=
      fun normal => by simp [xidOlder, normal, normalLimit]
    grind

theorem not_xminOlder_frozenBlock (long : kHeapTupleHeaderSize ≤ block.length) :
    ¬XminOlder xid (frozenBlock block) := by
  rw [XminOlder, headerOf_frozenBlock long]
  simp [transactionIdIsNormal, kFrozenTransactionId, kFirstNormalTransactionId]

end Pgcpp.Commands
