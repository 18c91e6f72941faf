import Pgcpp.Transaction.System

/-!
# Row locks and new row versions

What `heap_lock_tuple` and `heap_update` write into the header of a tuple.  A
shared lock names a multixact, a set of transactions, in place of the XID of
one.  Both commands of a transaction share one command id.
-/

namespace Pgcpp.Transaction

open Lib HeapTupleHeaderData BitFlags

abbrev MultiXactId := BitVec 32

def kInvalidMultiXactId : MultiXactId := 0#32

def kFirstMultiXactId : MultiXactId := 1#32

structure MultiXactMember where
  xid : TransactionId
  status : BitVec 8
  deriving DecidableEq

/-- The next id and the member lists of the ids handed out. -/
structure MultiXactData where
  nextMulti : MultiXactId
  members : MultiXactId → List MultiXactMember

/-- The state after `InitializeMultiXact`. -/
def MultiXactData.initial : MultiXactData :=
  { nextMulti := kFirstMultiXactId, members := fun _ => [] }

section

variable (multis : MultiXactData)

def multiXactIdIsValid (multi : MultiXactId) : Bool :=
  multi != kInvalidMultiXactId && multi < multis.nextMulti

def multiXactIdCreate (members : List MultiXactMember) : MultiXactData × MultiXactId :=
  let multi := multis.nextMulti
  ({ nextMulti := multi + 1
     members := Function.update multis.members multi members }, multi)

def multiXactIdGetMembers (multi : MultiXactId) : List MultiXactMember :=
  if multiXactIdIsValid multis multi then multis.members multi else []

def multiXactIdExpand (multi : MultiXactId) (xid : TransactionId) (status : BitVec 8) :
    MultiXactData × MultiXactId :=
  if !multiXactIdIsValid multis multi then (multis, multi)
  else
    let members := multiXactIdGetMembers multis multi
    if members.any (fun member => member.xid == xid) then (multis, multi)
    else multiXactIdCreate multis (members ++ [{ xid := xid, status := status }])

inductive RowLockStrength where
  | forKeyShare
  | forShare
  | forNoKeyUpdate
  | forUpdate
  deriving DecidableEq

/-- `static_cast<uint8_t>(lock_strength)`. -/
def RowLockStrength.status : RowLockStrength → BitVec 8
  | .forKeyShare => 0
  | .forShare => 1
  | .forNoKeyUpdate => 2
  | .forUpdate => 3

def kHeapXmaxExclusiveLock : BitVec 16 := 0x0040#16

def kHeapXmaxKeyshrLock : BitVec 16 := 0x0010#16

def kHeapXmaxShrLock : BitVec 16 := 0x0020#16

def kHeapKeysUpdated : BitVec 16 := 0x2000#16

/-- The flags of a row lock: the mark of the lock goes up, the hint that
`t_xmax` is invalid goes down. -/
def lockInfomask (infomask mark : BitVec 16) : BitVec 16 :=
  ((infomask ||| kHeapXmaxLocked) &&& ~~~kHeapXmaxInvalid) ||| mark

section

variable (tup : HeapTupleHeaderData) (xid : TransactionId) (strength : RowLockStrength)

/-- The branch of `heap_lock_tuple` for `FOR UPDATE` and
`FOR NO KEY UPDATE`. -/
def lockExclusive : HeapTupleHeaderData :=
  { tup with
    tXmax := xid, tInfomask := lockInfomask tup.tInfomask kHeapXmaxExclusiveLock
    tInfomask2 :=
      if strength = .forUpdate then tup.tInfomask2 ||| kHeapKeysUpdated else tup.tInfomask2 }

/-- The branch of `heap_lock_tuple` for `FOR SHARE` and `FOR KEY SHARE`. -/
def lockShared : MultiXactData × HeapTupleHeaderData :=
  let (multis, multi) :=
    if hasFlag tup.tInfomask kHeapXmaxLocked && tup.tXmax != kInvalidMultiXactId then
      multiXactIdExpand multis tup.tXmax xid strength.status
    else multiXactIdCreate multis [{ xid := xid, status := strength.status }]
  (multis, { tup with
      tXmax := multi, tInfomask := lockInfomask tup.tInfomask
        (if strength = .forShare then kHeapXmaxShrLock else kHeapXmaxKeyshrLock) })

/-- What `heap_lock_tuple` writes. -/
def heapLockHeader : MultiXactData × HeapTupleHeaderData :=
  match strength with
  | .forUpdate | .forNoKeyUpdate => (multis, lockExclusive tup xid strength)
  | .forShare | .forKeyShare => lockShared multis tup xid strength

/-- What `heap_update` writes into the old version. -/
def heapUpdateHeader (cid : CommandId) (newTid : ItemPointerData) : HeapTupleHeaderData :=
  { heapDeleteHeader tup xid cid with tCtid := newTid }

/-- A lock sets the mark of a lock whatever its strength, and leaves the
inserter alone. -/
theorem heapLockHeader_spec :
    ∃ mark, hasFlag mark kHeapXminInvalid = false ∧ hasFlag mark kHeapXmaxCommitted = false ∧
      (heapLockHeader multis tup xid strength).2.tInfomask = lockInfomask tup.tInfomask mark ∧
      (heapLockHeader multis tup xid strength).2.tXmin = tup.tXmin := by
  cases strength with
  | forShare => exact ⟨kHeapXmaxShrLock, by decide, by decide, rfl, rfl⟩
  | forKeyShare => exact ⟨kHeapXmaxKeyshrLock, by decide, by decide, rfl, rfl⟩
  | _ => exact ⟨kHeapXmaxExclusiveLock, by decide, by decide, rfl, rfl⟩

end

end

theorem hasFlag_lockInfomask_locked (infomask mark : BitVec 16) :
    hasFlag (lockInfomask infomask mark) kHeapXmaxLocked := by
  have set : hasFlag kHeapXmaxLocked kHeapXmaxLocked := by decide
  rw [lockInfomask, hasFlag_or, hasFlag_clear_of_disjoint (by decide), hasFlag_or, set,
    Bool.or_true, Bool.true_or]

theorem hasFlag_lockInfomask_of_disjoint (notLock : hasFlag kHeapXmaxLocked flag = false)
    (notInvalid : kHeapXmaxInvalid &&& flag = 0) (notMark : hasFlag mark flag = false) :
    hasFlag (lockInfomask infomask mark) flag = hasFlag infomask flag := by
  rw [lockInfomask, hasFlag_or, hasFlag_clear_of_disjoint notInvalid, hasFlag_or,
    notLock, notMark, Bool.or_false, Bool.or_false]

/-- A row that the running transaction has inserted and deleted is visible to
none of its snapshots: `heap_delete` writes over the command id of the insertion. -/
theorem ownDeletion_invisible (own : transactionIdIsCurrentTransactionId stack inserter)
    (ownDeleter : transactionIdIsCurrentTransactionId stack deleter)
    (valid : transactionIdIsValid deleter) :
    (heapTupleSatisfiesMVCC log stack snapshot cache (heapDeleteHeader
      (heapInsertHeader inserter cmin hasNull hasVarWidth natts hoff) deleter cmax)).visible =
        false := by
  obtain ⟨committed, invalid, frozen, locked, xmaxInvalid, updated⟩ :=
    formed_flags hasNull hasVarWidth
  have xmaxCommitted : hasFlag (formedInfomask hasNull hasVarWidth) kHeapXmaxCommitted = false :=
    frozen
  simp only [heapTupleSatisfiesMVCC, checkXmin, getXminStatus,
    heapDeleteHeader, heapInsertHeader, committed, invalid, frozen, own, updated]
  cases isValid : transactionIdIsValid inserter with
  | false => rfl
  | true =>
    by_cases past : snapshot.curcid < cmax
    · simp [past]
    · simp [past, checkXmax, getXmaxStatus, valid, locked, xmaxCommitted, xmaxInvalid, ownDeleter]

theorem ownDeletion_seen_iff (own : transactionIdIsCurrentTransactionId stack inserter)
    (ownDeleter : transactionIdIsCurrentTransactionId stack deleter)
    (valid : transactionIdIsValid deleter) :
    ((heapTupleSatisfiesMVCC log stack snapshot cache (heapDeleteHeader
        (heapInsertHeader inserter cmin hasNull hasVarWidth natts hoff) deleter cmax)).visible =
          true ↔ cmin ≤ snapshot.curcid ∧ snapshot.curcid < cmax) ↔
      ¬(cmin ≤ snapshot.curcid ∧ snapshot.curcid < cmax) := by
  rw [ownDeletion_invisible own ownDeleter valid]
  simp

/-- Transaction 3 inserts a row at command 0, deletes it at command 1 and looks
at it through a snapshot. -/
def ownRowVisible (curcid : CommandId) : Bool :=
  (heapTupleSatisfiesMVCC (fun _ => .inProgress) [{ transactionId := 3, commandId := 2 }]
    { xmin := 3, xmax := 4, xip := [3], snapshotXid := 3, curcid := curcid } .empty
    (heapDeleteHeader (heapInsertHeader 3 0 false false 1 24) 3 1)).visible

theorem ownRow_gone_at_deletion : ownRowVisible 1 ↔ (0 : CommandId) ≤ 1 ∧ (1 : CommandId) < 1 :=
  (ownDeletion_seen_iff (by decide) (by decide) (by decide)).2 (by decide)

theorem ownRow_missing_before_deletion : ownRowVisible 0 = false := by
  decide

end Pgcpp.Transaction
