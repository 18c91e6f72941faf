import Pgcpp.Transaction.Transam

/-!
# The transaction ledger

What the transaction manager is for, without backends: XIDs are opened in
increasing order, each open XID has one owner, and an XID is finished once.
The commit log then never takes back an outcome it has recorded.
-/

namespace Pgcpp.Transaction

open Function

/-- The counter, the commit log, and the XIDs each owner has yet to finish. -/
structure Ledger where
  nextXid : TransactionId
  log : CommitLog
  openXids : Nat → Multiset TransactionId

namespace Ledger

/-- One abstract step.  An XID is opened only while the counter does not
wrap. -/
inductive Step : Ledger → Ledger → Prop
  | stay (ledger : Ledger) : Step ledger ledger
  | start (ledger : Ledger) (owner : Nat) (room : ledger.nextXid.toNat + 1 < 2 ^ 32) :
      Step ledger
        { nextXid := ledger.nextXid + 1, log := setCommitLog ledger.log ledger.nextXid .inProgress
          openXids := update ledger.openXids owner (ledger.nextXid ::ₘ ledger.openXids owner) }
  | finish (ledger : Ledger) (owner : Nat) (xid : TransactionId)
      (rest : Multiset TransactionId) (status : XidStatus)
      (owned : ledger.openXids owner = xid ::ₘ rest) (final : status ≠ .inProgress) :
      Step ledger
        { nextXid := ledger.nextXid, log := setCommitLog ledger.log xid status
          openXids := update ledger.openXids owner rest }

/-- The ledger is in order: XIDs from the counter on are untouched, open XIDs
are normal, below the counter, in progress and owned once, and an XID below
the counter that the log can record is in progress only while it is open. -/
structure Valid (ledger : Ledger) : Prop where
  counter : transactionIdIsNormal ledger.nextXid
  untouched : ∀ xid, ledger.nextXid.toNat ≤ xid.toNat →
    fetchFromCommitLog ledger.log xid = .inProgress
  normal : ∀ owner, ∀ xid ∈ ledger.openXids owner, transactionIdIsNormal xid
  below : ∀ owner, ∀ xid ∈ ledger.openXids owner, xid.toNat < ledger.nextXid.toNat
  running : ∀ owner, ∀ xid ∈ ledger.openXids owner, fetchFromCommitLog ledger.log xid = .inProgress
  once : ∀ owner, (ledger.openXids owner).Nodup
  single : ∀ owner other, owner ≠ other → ∀ xid ∈ ledger.openXids owner, xid ∉ ledger.openXids other
  accounted : ∀ xid, transactionIdIsNormal xid →
    xid.toNat < ledger.nextXid.toNat → xid.toNat < kMaxXids →
    fetchFromCommitLog ledger.log xid = .inProgress →
    ∃ owner, xid ∈ ledger.openXids owner

variable {xid : TransactionId}

theorem toNat_succ (room : xid.toNat + 1 < 2 ^ 32) : (xid + 1).toNat = xid.toNat + 1 := by
  exact Nat.mod_eq_of_lt room

theorem Step.permanent (step : Step before after) (valid : before.Valid)
    (final : fetchFromCommitLog before.log xid ≠ .inProgress) :
    fetchFromCommitLog after.log xid = fetchFromCommitLog before.log xid := by
  cases step with
  | stay => rfl
  | start owner _ =>
    rw [fetchFromCommitLog_setCommitLog, if_neg]
    rintro ⟨rfl, _⟩
    exact final (valid.untouched _ le_rfl)
  | finish owner open' rest status owned _ =>
    rw [fetchFromCommitLog_setCommitLog, if_neg]
    rintro ⟨rfl, _⟩
    exact final (valid.running owner _ (by simp [owned]))

theorem mem_update_iff {openXids : Nat → Multiset TransactionId} :
    xid ∈ update openXids owner xids other ↔ (other = owner ∧ xid ∈ xids) ∨
        (other ≠ owner ∧ xid ∈ openXids other) := by
  by_cases same : other = owner
  · subst same
    simp
  · simp [same]

theorem Valid.start {ledger : Ledger} (valid : ledger.Valid)
    (room : ledger.nextXid.toNat + 1 < 2 ^ 32) (owner : Nat) : Valid
      { nextXid := ledger.nextXid + 1, log := setCommitLog ledger.log ledger.nextXid .inProgress
        openXids := update ledger.openXids owner (ledger.nextXid ::ₘ ledger.openXids owner) } := by
  have succ := toNat_succ room
  have fresh : ∀ other, ledger.nextXid ∉ ledger.openXids other := by
    intro other mem
    exact lt_irrefl _ (valid.below other _ mem)
  have fetched : ∀ xid, fetchFromCommitLog
      (setCommitLog ledger.log ledger.nextXid .inProgress) xid =
      fetchFromCommitLog ledger.log xid := by
    intro xid
    rw [fetchFromCommitLog_setCommitLog]
    split
    · next same => rw [same.1, valid.untouched _ le_rfl]
    · rfl
  have members : ∀ {other xid}, xid ∈ update ledger.openXids owner
      (ledger.nextXid ::ₘ ledger.openXids owner) other →
      xid = ledger.nextXid ∨ xid ∈ ledger.openXids other := by
    intro other xid mem
    rcases mem_update_iff.1 mem with ⟨rfl, found⟩ | ⟨_, found⟩
    · exact Multiset.mem_cons.1 found
    · exact .inr found
  constructor
  case counter =>
    have counter := valid.counter
    rw [transactionIdIsNormal_iff] at counter ⊢
    simp only [succ]
    omega
  case untouched =>
    intro xid above
    rw [fetched]
    exact valid.untouched xid (by simp only [succ] at above; omega)
  case normal =>
    intro other xid mem
    rcases members mem with rfl | found
    · exact valid.counter
    · exact valid.normal other xid found
  case below =>
    intro other xid mem
    simp only [succ]
    rcases members mem with rfl | found
    · omega
    · have := valid.below other xid found
      omega
  case running =>
    intro other xid mem
    rw [fetched]
    rcases members mem with rfl | found
    · exact valid.untouched _ le_rfl
    · exact valid.running other xid found
  case once =>
    intro other
    by_cases same : other = owner
    · subst same
      simpa using ⟨fresh other, valid.once other⟩
    · simpa [same] using valid.once other
  case single =>
    intro left right ne xid inLeft inRight
    rcases members inLeft with rfl | foundLeft
    · rcases mem_update_iff.1 inLeft with ⟨rfl, _⟩ | ⟨_, found⟩
      · rcases mem_update_iff.1 inRight with ⟨rfl, _⟩ | ⟨_, found⟩
        · exact ne rfl
        · exact fresh right found
      · exact fresh left found
    · rcases members inRight with rfl | foundRight
      · exact fresh left foundLeft
      · exact valid.single left right ne xid foundLeft foundRight
  case accounted =>
    intro xid normal bound inside running
    rw [fetched] at running
    by_cases new : xid = ledger.nextXid
    · exact ⟨owner, by simp [new]⟩
    have older : xid.toNat < ledger.nextXid.toNat := by
      have := BitVec.toNat_ne_iff_ne.2 new
      simp only [succ] at bound
      omega
    obtain ⟨other, found⟩ := valid.accounted xid normal older inside running
    refine ⟨other, mem_update_iff.2 ?_⟩
    by_cases same : other = owner
    · subst same
      exact .inl ⟨rfl, Multiset.mem_cons_of_mem found⟩
    · exact .inr ⟨same, found⟩

theorem Valid.finish {ledger : Ledger} (valid : ledger.Valid)
    (owned : ledger.openXids owner = xid ::ₘ rest) (final : status ≠ .inProgress) : Valid
      { nextXid := ledger.nextXid, log := setCommitLog ledger.log xid status
        openXids := update ledger.openXids owner rest } := by
  have mine : xid ∈ ledger.openXids owner := by simp [owned]
  have distinct : xid ∉ rest ∧ rest.Nodup := by
    have once := valid.once owner
    rwa [owned, Multiset.nodup_cons] at once
  have members : ∀ {other x}, x ∈ update ledger.openXids owner rest
      other → x ∈ ledger.openXids other ∧ x ≠ xid := by
    intro other x mem
    rcases mem_update_iff.1 mem with ⟨rfl, found⟩ | ⟨apart, found⟩
    · refine ⟨by simp [owned, found], ?_⟩
      rintro rfl
      exact distinct.1 found
    · refine ⟨found, ?_⟩
      rintro rfl
      exact valid.single other owner apart x found mine
  have fetched : ∀ {x}, x ≠ xid → fetchFromCommitLog (setCommitLog ledger.log xid status) x =
      fetchFromCommitLog ledger.log x := by
    intro x apart
    rw [fetchFromCommitLog_setCommitLog, if_neg (by simp [apart])]
  constructor
  case counter => exact valid.counter
  case untouched =>
    intro x above
    have apart : x ≠ xid := by
      rintro rfl
      exact absurd (valid.below owner x mine) (not_lt.2 above)
    rw [fetched apart]
    exact valid.untouched x above
  case normal =>
    intro other x mem
    exact valid.normal other x (members mem).1
  case below =>
    intro other x mem
    exact valid.below other x (members mem).1
  case running =>
    intro other x mem
    rw [fetched (members mem).2]
    exact valid.running other x (members mem).1
  case once =>
    intro other
    by_cases same : other = owner
    · subst same
      simpa using distinct.2
    · simpa [same] using valid.once other
  case single =>
    intro left right ne x inLeft inRight
    exact valid.single left right ne x (members inLeft).1 (members inRight).1
  case accounted =>
    intro x normal bound inside running
    have apart : x ≠ xid := by
      rintro rfl
      rw [fetchFromCommitLog_setCommitLog, if_pos ⟨rfl, inside⟩] at running
      exact final running
    rw [fetched apart] at running
    obtain ⟨other, found⟩ := valid.accounted x normal bound inside running
    refine ⟨other, mem_update_iff.2 ?_⟩
    by_cases same : other = owner
    · subst same
      rw [owned, Multiset.mem_cons] at found
      exact .inl ⟨rfl, found.resolve_left apart⟩
    · exact .inr ⟨same, found⟩

theorem Step.nextXid_le (step : Step before after) : before.nextXid.toNat ≤ after.nextXid.toNat ∧
      after.nextXid.toNat ≤ before.nextXid.toNat + 1 := by
  cases step with
  | start owner room =>
    rw [toNat_succ room]
    exact ⟨Nat.le_succ _, le_rfl⟩
  | _ => exact ⟨le_rfl, Nat.le_succ _⟩

theorem Step.valid (step : Step before after) (valid : before.Valid) : after.Valid := by
  cases step with
  | stay => exact valid
  | start owner room => exact valid.start room owner
  | finish owner _ _ _ owned final => exact valid.finish owned final

end Ledger

end Pgcpp.Transaction
