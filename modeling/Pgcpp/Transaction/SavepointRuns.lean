import Pgcpp.Transaction.Savepoints

/-!
# Runs with savepoints

The XID of a tuple's inserter or deleter is the current one or has committed,
and the command ids of the current transaction lie before the subtransactions
that were opened later.  A rollback keeps this if the tuples inserted since the
savepoint are the tuples deleted since.
-/

namespace Pgcpp.Transaction

open XactBackend hiding stack nextXid log cache
open TrackedTuple
open Lib Visibility HeapTupleHeaderData LogCache
open List hiding after

/-! ## The invariant -/

variable (backend : XactBackend)

namespace XactBackend

/-- The XID belongs to a transaction that has committed. -/
def Settled (xid : TransactionId) : Prop :=
  transactionIdIsNormal xid ∧ xid.toNat < backend.nextXid.toNat ∧
    fetchFromCommitLog backend.log xid = .committed

def Own (xid : TransactionId) : Prop :=
  transactionIdIsValid xid ∧ backend.getTopLevelTransactionIdIfAny = xid

/-- The state of the only backend between two calls: all XIDs fit into the
commit log, and the current one has no outcome yet. -/
structure Sequential (backend : XactBackend) : Prop where
  started : 3 ≤ backend.nextXid.toNat
  bounded : backend.nextXid.toNat ≤ kMaxXids
  coherent : backend.cache.Coherent backend.log
  block : backend.stack = [] ∨ WellNested .begin backend.getTopLevelTransactionIdIfAny backend.stack
  running : ∀ xid, backend.Own xid → transactionIdIsNormal xid ∧
      xid.toNat < backend.nextXid.toNat ∧
      fetchFromCommitLog backend.log xid ≠ .committed

variable {backend : XactBackend}

theorem Own.stack_ne_nil (own : backend.Own xid) : backend.stack ≠ [] := by
  intro empty
  obtain ⟨valid, rfl⟩ := own
  simp [getTopLevelTransactionIdIfAny, empty, topLevel, transactionIdIsValid] at valid

theorem Own.eq (own : backend.Own xid) (also : backend.Own other) : xid = other :=
  own.2.symm.trans also.2

theorem Settled.valid (settled : backend.Settled xid) : transactionIdIsValid xid :=
  transactionIdIsValid_of_normal settled.1

end XactBackend

theorem WellNested.isCurrent_iff (nested : WellNested blockState own stack)
    (valid : transactionIdIsValid xid) :
    (∃ entry ∈ stack, entry.transactionId = xid) ↔ own = xid := by
  induction stack with
  | nil => exact nested.elim
  | cons entry rest ih =>
    cases rest with
    | nil => simp [nested.2]
    | cons _ rest =>
      rw [exists_mem_cons_iff, ih nested.2.2]
      refine or_iff_right_of_imp ?_
      rintro rfl
      rcases nested.2.1 with unassigned | shared
      · simp [unassigned, transactionIdIsValid] at valid
      · exact shared.symm

namespace XactBackend.Sequential

variable {backend : XactBackend} {xid : TransactionId} (sequential : backend.Sequential)

include sequential

theorem not_own_of_settled (settled : backend.Settled xid) : ¬ backend.Own xid := by
  intro own
  exact (sequential.running xid own).2.2 settled.2.2

theorem isCurrent_iff (valid : transactionIdIsValid xid) :
    transactionIdIsCurrentTransactionId backend.visibilityStack xid ↔ backend.Own xid := by
  rcases sequential.block with empty | nested
  · have notOwn : ¬ backend.Own xid := fun own => own.stack_ne_nil empty
    simp [visibilityStack, empty, transactionIdIsCurrentTransactionId, notOwn]
  have iff := nested.isCurrent_iff valid
  unfold Own visibilityStack
  rw [and_iff_right valid, ← iff]
  cases stack : backend.stack with
  | nil => simp [transactionIdIsCurrentTransactionId]
  | cons _ _ =>
    simp only [transactionIdIsCurrentTransactionId]
    simp
    exact .inl

theorem isCurrent_of_settled (settled : backend.Settled xid) :
    transactionIdIsCurrentTransactionId backend.visibilityStack xid = false := by
  rw [← Bool.not_eq_true, sequential.isCurrent_iff settled.valid]
  exact sequential.not_own_of_settled settled

theorem settled_shown (settled : backend.Settled xid) :
    xidVisible backend.log backend.takeSnapshot xid ∧
      inFinishedRegion backend.takeSnapshot xid := by
  have notFuture : backend.takeSnapshot.xidGeXmax xid = false := by
    have isNext : backend.takeSnapshot.xmax = backend.nextXid := by
      simp [takeSnapshot, finishSnapshot, getNextTransactionId]
    have bounded := sequential.bounded
    have less := settled.2.1
    unfold SnapshotData.xidGeXmax
    rw [isNext, transactionIdFollowsOrEquals_eq_not,
      transactionIdPrecedes_eq_lt (by omega) (by unfold kMaxXids at bounded; omega)]
    simp [less]
  have notRunning : backend.takeSnapshot.xidInSnapshot xid = false := by
    rw [← Bool.not_eq_true, SnapshotData.xidInSnapshot_iff]
    simp only [takeSnapshot, finishSnapshot, mem_filter, mem_singleton]
    rintro ⟨isTop, valid⟩
    exact sequential.not_own_of_settled settled ⟨valid, isTop.symm⟩
  have committed : logStatus backend.log xid = .committed := by
    simp [logStatus, settled.2.2]
  simp [xidVisible, inFinishedRegion, notFuture, notRunning, committed]

theorem deleterTest_of_settled (settled : backend.Settled tup.tXmax) :
    deleterTest backend.log backend.visibilityStack backend.takeSnapshot tup := by
  have committed : logStatus backend.log tup.tXmax = .committed := by
    simp [logStatus, settled.2.2]
  simp [deleterTest, sequential.isCurrent_of_settled settled,
    (sequential.settled_shown settled).2, committed]

theorem deleterTest_of_own (own : backend.Own tup.tXmax)
    (past : tup.tCid ≤ backend.takeSnapshot.curcid) :
    deleterTest backend.log backend.visibilityStack backend.takeSnapshot tup := by
  have current := (sequential.isCurrent_iff own.1).2 own
  simp [deleterTest, current, BitVec.not_lt.2 past]

end XactBackend.Sequential

/-- What holds of every tuple.  A tuple is live, or it was inserted and deleted
by the same undone work, or it has a deletion that was not undone. -/
structure TupleInvariant (backend : XactBackend) (tuple : TrackedTuple) : Prop where
  plain : ∃ hasNull hasVarWidth, tuple.header.tInfomask = formedInfomask hasNull hasVarWidth
  inserter : backend.Settled tuple.header.tXmin ∨ backend.Own tuple.header.tXmin
  insertedNow : 1 ≤ tuple.insertedIn → backend.Own tuple.header.tXmin
  placed : tuple.insertedIn ≤ backend.stack.length ∧ ∀ depth ∈ tuple.deletedIn,
      tuple.insertedIn ≤ depth ∧ depth ≤ backend.stack.length
  live : tuple.insertUndone = false → tuple.deletedIn = [] →
    tuple.header.tXmax = kInvalidTransactionId ∧
      (backend.Own tuple.header.tXmin → CidFits tuple.insertedIn tuple.header.tCid backend.stack)
  buried : tuple.insertUndone → tuple.deletedIn = [] →
    tuple.header.tXmax = tuple.header.tXmin
  deleter : tuple.deletedIn ≠ [] →
    backend.Settled tuple.header.tXmax ∨ backend.Own tuple.header.tXmax
  deletedNow : (∃ depth ∈ tuple.deletedIn, 1 ≤ depth) → backend.Own tuple.header.tXmax
  deleterCid : tuple.deletedIn ≠ [] → backend.Own tuple.header.tXmax →
    ∀ depth, (∀ place ∈ tuple.deletedIn, place ≤ depth) →
      CidFits depth tuple.header.tCid backend.stack

theorem CidFits.le_curcid {backend : XactBackend} (own : backend.Own xid)
    (fits : CidFits depth cid backend.stack) : cid ≤ backend.takeSnapshot.curcid := by
  have notEmpty := own.stack_ne_nil
  simp only [takeSnapshot, getCurrentCommandId]
  cases stack : backend.stack with
  | nil => exact absurd stack notEmpty
  | cons _ _ =>
    rw [stack] at fits
    exact fits.1

theorem CidFits.now {backend : XactBackend} (own : backend.Own xid) :
    CidFits backend.stack.length backend.getCurrentCommandId backend.stack := by
  have notEmpty := own.stack_ne_nil
  simp only [getCurrentCommandId]
  cases stack : backend.stack with
  | nil => exact absurd stack notEmpty
  | cons _ _ => exact ⟨BitVec.le_refl _, CidBefore.of_length (le_rfl)⟩

namespace TupleInvariant

variable {backend : XactBackend} {tuple : TrackedTuple}
  (invariant : TupleInvariant backend tuple) (sequential : backend.Sequential)

include invariant

theorem verdict_eq :
    verdict log stack snapshot tuple.header = (inserterTest log stack snapshot tuple.header &&
        !(transactionIdIsValid tuple.header.tXmax &&
          deleterTest log stack snapshot tuple.header)) := by
  obtain ⟨hasNull, hasVarWidth, mask⟩ := invariant.plain
  obtain ⟨xminCommitted, xminInvalid, frozen, locked, xmaxInvalid, _⟩ :=
    formed_flags hasNull hasVarWidth
  have xmaxCommitted : hasFlag (formedInfomask hasNull hasVarWidth) kHeapXmaxCommitted = false :=
    frozen
  simp [verdict, inserterShown, deleterHides, getXminStatus, getXmaxStatus, mask, xminCommitted,
    xminInvalid, frozen, locked, xmaxCommitted, xmaxInvalid]

theorem inserter_valid : transactionIdIsValid tuple.header.tXmin := by
  rcases invariant.inserter with settled | own
  · exact settled.valid
  · exact own.1

include sequential

theorem live_visible (notUndone : tuple.insertUndone = false) (noDeletes : tuple.deletedIn = []) :
    verdict backend.log backend.visibilityStack backend.takeSnapshot tuple.header := by
  obtain ⟨noXmax, fits⟩ := invariant.live notUndone noDeletes
  obtain ⟨hasNull, hasVarWidth, mask⟩ := invariant.plain
  have notUpdated : hasFlag tuple.header.tInfomask kHeapUpdated = false := by
    rw [mask]
    exact (formed_flags hasNull hasVarWidth).2.2.2.2.2
  have shown : inserterTest backend.log backend.visibilityStack
      backend.takeSnapshot tuple.header := by
    rw [inserterTest, invariant.inserter_valid]
    rcases invariant.inserter with settled | own
    · simp [sequential.isCurrent_of_settled settled, (sequential.settled_shown settled).1]
    · have past := (fits own).le_curcid own
      simp [(sequential.isCurrent_iff own.1).2 own, BitVec.not_lt.2 past, notUpdated]
  rw [invariant.verdict_eq, shown, noXmax]
  rfl

/-- A tuple with one XID as inserter and deleter is invisible: if the command
that deleted it is in the past, so is the deletion, and otherwise so is not the
insertion. -/
theorem buried_invisible (undone : tuple.insertUndone) (noDeletes : tuple.deletedIn = []) :
    verdict backend.log backend.visibilityStack backend.takeSnapshot tuple.header = false := by
  have same := invariant.buried undone noDeletes
  have valid := invariant.inserter_valid
  rw [invariant.verdict_eq, same, valid]
  rcases invariant.inserter with settled | own
  · rw [← same] at settled
    simp [sequential.deleterTest_of_settled settled]
  by_cases past : tuple.header.tCid ≤ backend.takeSnapshot.curcid
  · have alsoOwn := own
    rw [← same] at alsoOwn
    simp [sequential.deleterTest_of_own alsoOwn past]
  · simp [inserterTest, (sequential.isCurrent_iff own.1).2 own, BitVec.not_le.1 past]

theorem deleted_invisible (deleted : tuple.deletedIn ≠ []) :
    verdict backend.log backend.visibilityStack backend.takeSnapshot tuple.header = false := by
  rw [invariant.verdict_eq]
  rcases invariant.deleter deleted with settled | own
  · simp [settled.valid, sequential.deleterTest_of_settled settled]
  have past := (invariant.deleterCid deleted own backend.stack.length
    fun place mem => (invariant.placed.2 place mem).2).le_curcid own
  simp [own.1, sequential.deleterTest_of_own own past]

end TupleInvariant

/-- What a step keeps for the work in entries shallower than `level`. -/
structure Carried (before after : XactBackend) (level : Nat) : Prop where
  settled : ∀ xid, before.Settled xid → after.Settled xid
  own : ∀ xid, before.Own xid → after.Own xid ∨ after.stack = [] ∧ after.Settled xid
  fits : ∀ xid depth cid, before.Own xid → depth < level →
    CidFits depth cid before.stack → CidFits depth cid after.stack

namespace TupleInvariant

variable {tuple : TrackedTuple}

section

variable (invariant : TupleInvariant before tuple)

include invariant

theorem carry (sequential : after.Sequential) (carried : Carried before after level)
    (shallowInsert : tuple.insertUndone = false → tuple.insertedIn < level)
    (shallowDeletes : ∀ depth ∈ tuple.deletedIn, depth < level) :
    TupleInvariant after (tuple.settle after.stack.length) := by
  have reached : ∀ xid, before.Settled xid ∨ before.Own xid →
      after.Settled xid ∨ after.Own xid := by
    rintro xid (settled | own)
    · exact .inl (carried.settled xid settled)
    · exact (carried.own xid own).elim Or.inr fun ended => Or.inl ended.2
  have stays : ∀ xid depth, 1 ≤ min depth after.stack.length →
      (1 ≤ depth → before.Own xid) → after.Own xid := by
    intro xid depth pos own
    rcases carried.own xid (own (by omega)) with isOwn | ⟨ended, _⟩
    · exact isOwn
    · simp [ended] at pos
  have wasOwn : ∀ xid, before.Settled xid ∨ before.Own xid → after.Own xid → before.Own xid := by
    rintro xid (settled | own) isOwn
    · exact absurd isOwn (sequential.not_own_of_settled (carried.settled xid settled))
    · exact own
  refine
    { plain := invariant.plain, inserter := reached _ invariant.inserter, insertedNow := fun pos =>
        stays _ _ pos invariant.insertedNow
      placed := ⟨Nat.min_le_right .., ?_⟩, live := ?_, buried := ?_, deleter := ?_, deletedNow := ?_
      deleterCid := ?_ }
  · simp only [settle, mem_map]
    rintro _ ⟨depth, mem, rfl⟩
    have ordered := (invariant.placed.2 depth mem).1
    omega
  · intro notUndone noDeletes
    obtain ⟨noXmax, fits⟩ := invariant.live notUndone (map_eq_nil_iff.1 noDeletes)
    refine ⟨noXmax, ?_⟩
    intro isOwn
    apply CidFits.settle
    have own := wasOwn _ invariant.inserter isOwn
    exact carried.fits _ _ _ own (shallowInsert notUndone) (fits own)
  · intro undone noDeletes
    exact invariant.buried undone (map_eq_nil_iff.1 noDeletes)
  · intro deleted
    exact reached _ (invariant.deleter fun noDeletes => deleted (map_eq_nil_iff.2 noDeletes))
  · simp only [settle, mem_map]
    rintro ⟨_, ⟨depth, mem, rfl⟩, pos⟩
    exact stays _ depth pos fun isDeep => invariant.deletedNow ⟨depth, mem, isDeep⟩
  intro deleted isOwn depth above
  have wasDeleted : tuple.deletedIn ≠ [] := fun noDeletes => deleted (map_eq_nil_iff.2 noDeletes)
  have own := wasOwn _ (invariant.deleter wasDeleted) isOwn
  obtain ⟨place, mem⟩ := exists_mem_of_ne_nil _ wasDeleted
  have pos := shallowDeletes place mem
  have fits := carried.fits _ (level - 1) _ own (by omega)
    (invariant.deleterCid wasDeleted own _ (by
      intro place mem
      have := shallowDeletes place mem
      omega))
  by_cases deep : after.stack.length ≤ depth
  · exact fits.settle.deepen (by omega)
  -- no place was cut off
  have same : ∀ place ∈ tuple.deletedIn, place ≤ depth := by
    intro place mem
    have := above _ (mem_map_of_mem mem)
    omega
  by_cases shallow : depth < level
  · exact carried.fits _ _ _ own shallow (invariant.deleterCid wasDeleted own depth same)
  · exact fits.deepen (by omega)

theorem carryAll (sequential : after.Sequential)
    (carried : Carried before after (before.stack.length + 1)) :
    TupleInvariant after (tuple.settle after.stack.length) := by
  apply invariant.carry sequential carried
  · intro _
    have inside := invariant.placed.1
    omega
  · intro depth mem
    have inside := (invariant.placed.2 depth mem).2
    omega

theorem settle_eq : tuple.settle before.stack.length = tuple := by
  have places : tuple.deletedIn.map (min · before.stack.length) = tuple.deletedIn := by
    refine (map_congr_left (g := id) ?_).trans (map_id _)
    intro depth mem
    exact min_eq_left (invariant.placed.2 depth mem).2
  rw [settle, places, min_eq_left invariant.placed.1]

theorem carryOn (sequential : after.Sequential)
    (sameLength : after.stack.length = before.stack.length)
    (carried : ∀ level, Carried before after level) : TupleInvariant after tuple := by
  have moved := invariant.carryAll sequential (carried _)
  rwa [sameLength, invariant.settle_eq] at moved

theorem undo (pos : 1 ≤ level) (nothing : tuple.insertedSince level = tuple.deletedSince level) :
    TupleInvariant before (tuple.undo level) := by
  by_cases since : tuple.insertedSince level
  · have inserted : tuple.insertUndone = false ∧ level ≤ tuple.insertedIn := by
      simpa [TrackedTuple.insertedSince] using since
    have noDeletes : (tuple.undo level).deletedIn = [] := by
      simp only [TrackedTuple.undo, filter_eq_nil_iff, decide_eq_true_eq]
      intro depth mem
      have ordered := (invariant.placed.2 depth mem).1
      omega
    rw [nothing] at since
    have deleted : ∃ depth ∈ tuple.deletedIn, level ≤ depth := by
      simpa [deletedSince] using since
    obtain ⟨depth, mem, _⟩ := deleted
    refine { invariant with
      placed := ⟨invariant.placed.1, by simp [noDeletes]⟩, live := ?_, buried := ?_
      deleter := fun deleted => absurd noDeletes deleted, deletedNow := ?_
      deleterCid := fun deleted => absurd noDeletes deleted }
    · intro notUndone
      simp [TrackedTuple.undo, inserted] at notUndone
    · intro _ _
      have ownXmax := invariant.deletedNow ⟨depth, mem, by omega⟩
      exact ownXmax.eq (invariant.insertedNow (by omega))
    · simp [noDeletes]
  · have noneDeleted : tuple.deletedIn.filter (· < level) = tuple.deletedIn := by
      rw [nothing] at since
      simpa [deletedSince] using since
    have sameUndone : (tuple.insertUndone || level ≤ tuple.insertedIn) =
          tuple.insertUndone := by
      cases undone : tuple.insertUndone with
      | true => rfl
      | false => simpa [TrackedTuple.insertedSince, undone] using since
    have same : tuple.undo level = tuple := by rw [TrackedTuple.undo, noneDeleted, sameUndone]
    rw [same]
    exact invariant

end

theorem undo_shallow : ((tuple.undo level).insertUndone = false →
      (tuple.undo level).insertedIn < level) ∧
    ∀ depth ∈ (tuple.undo level).deletedIn, depth < level := by
  constructor
  · intro notUndone
    simp only [TrackedTuple.undo, Bool.or_eq_false_iff, decide_eq_false_iff_not] at notUndone
    exact not_le.1 notUndone.2
  · intro depth mem
    simpa using (mem_filter.1 mem).2

end TupleInvariant

/-- A call that leaves the XIDs and the commit log alone. -/
structure Quiet (before after : XactBackend) : Prop where
  nextXid : after.nextXid = before.nextXid
  log : after.log = before.log
  cache : after.cache = before.cache
  top : after.getTopLevelTransactionIdIfAny = before.getTopLevelTransactionIdIfAny

namespace Quiet

variable {before after : XactBackend} (quiet : Quiet before after)

include quiet

theorem settled_iff : after.Settled xid ↔ before.Settled xid := by
  unfold XactBackend.Settled
  rw [quiet.nextXid, quiet.log]

theorem own_iff : after.Own xid ↔ before.Own xid := by
  unfold XactBackend.Own
  rw [quiet.top]

theorem sequential (sequential : before.Sequential) (block : after.stack = [] ∨
      WellNested .begin before.getTopLevelTransactionIdIfAny after.stack) : after.Sequential := by
  refine { started := ?_, bounded := ?_, coherent := ?_, block := ?_, running := ?_ }
  · rw [quiet.nextXid]
    exact sequential.started
  · rw [quiet.nextXid]
    exact sequential.bounded
  · rw [quiet.log, quiet.cache]
    exact sequential.coherent
  · rw [quiet.top]
    exact block
  intro xid own
  rw [quiet.nextXid, quiet.log]
  exact sequential.running xid (quiet.own_iff.1 own)

theorem carried (fits : ∀ depth cid, depth < level → before.stack ≠ [] →
      CidFits depth cid before.stack → CidFits depth cid after.stack) :
    Carried before after level where
  settled := fun _ => (quiet.settled_iff).2
  own := fun _ own => Or.inl ((quiet.own_iff).2 own)
  fits := fun _ depth cid own shallow => fits depth cid shallow own.stack_ne_nil

end Quiet

theorem Carried.refl (level : Nat) : Carried backend backend level :=
  Quiet.carried ⟨rfl, rfl, rfl, rfl⟩ fun _ _ _ _ fits => fits

def XactBackend.allocated : XactBackend :=
  { backend with
    stack := shareXid backend.nextXid (updateTopLevel
      (fun top => { top with transactionId := backend.nextXid }) backend.stack)
    nextXid := backend.nextXid + 1, log := setCommitLog backend.log backend.nextXid .inProgress
    cache := backend.cache.invalidate backend.nextXid }

def AssignsXid : Prop :=
  ∃ after xid, backend.getCurrentTransactionId = (after, .ok xid) ∧
    after.Sequential ∧ after.Own xid ∧ after.stack.length = backend.stack.length ∧
    ∀ level, Carried backend after level

section

variable {backend : XactBackend} (sequential : backend.Sequential)

include sequential

theorem commandCounterIncrement_kept : backend.commandCounterIncrement.Sequential ∧
    backend.commandCounterIncrement.stack.length = backend.stack.length ∧
    ∀ level, Carried backend backend.commandCounterIncrement level := by
  cases stack : backend.stack with
  | nil =>
    have same : backend.commandCounterIncrement = backend := by
      simp [commandCounterIncrement, stack]
    rw [same, stack]
    exact ⟨sequential, rfl, Carried.refl backend⟩
  | cons current rest =>
    by_cases more : current.commandId < kInvalidCommandId - 1
    · have counted : backend.commandCounterIncrement = backend.setStack
          ({ current with commandId := current.commandId + 1 } :: rest) := by
        simp only [commandCounterIncrement, stack, more, if_true]
      have nested := sequential.block.resolve_left (by simp [stack])
      rw [stack] at nested
      have after : WellNested .begin backend.getTopLevelTransactionIdIfAny
          backend.commandCounterIncrement.stack := by
        rw [counted]
        exact nested.replaceHead rfl rfl
      have quiet : Quiet backend backend.commandCounterIncrement := by
        refine ⟨?_, ?_, ?_, after.getTopLevel⟩
        all_goals rw [counted]; rfl
      refine ⟨quiet.sequential sequential (.inr after), ?_, ?_⟩
      · rw [counted]
        rfl
      intro level
      apply quiet.carried
      intro _ _ _ _ fits
      rw [stack] at fits
      rw [counted]
      refine ⟨?_, fits.2⟩
      have upTo := BitVec.le_def.1 fits.1
      bv_omega
    · have same : backend.commandCounterIncrement = backend := by
        simp only [commandCounterIncrement, stack, more, if_false]
      rw [same, stack]
      exact ⟨sequential, rfl, Carried.refl backend⟩

theorem allocated_sequential {after : XactBackend} (room : backend.nextXid.toNat < kMaxXids)
    (nextXid : after.nextXid = backend.nextXid + 1)
    (log : after.log = setCommitLog backend.log backend.nextXid .inProgress)
    (cache : after.cache = backend.cache.invalidate backend.nextXid)
    (nested : WellNested .begin backend.nextXid after.stack) : after.Sequential := by
  have isTop := nested.getTopLevel
  have counted : after.nextXid.toNat = backend.nextXid.toNat + 1 := by
    rw [nextXid]
    unfold kMaxXids at room
    exact BitVec.toNat_add_of_lt (by simp; omega)
  have started := sequential.started
  refine ⟨by omega, by omega, ?_, .inr (by rw [isTop]; exact nested), ?_⟩
  · rw [log, cache]
    exact coherent_setCommitLog sequential.coherent
  rintro _ ⟨_, rfl⟩
  rw [isTop, log, fetchFromCommitLog_setCommitLog, if_pos ⟨rfl, room⟩]
  refine ⟨transactionIdIsNormal_iff.2 started, by omega, ?_⟩
  exact XidStatus.noConfusion

theorem allocated_kept (nested : WellNested .begin backend.getTopLevelTransactionIdIfAny
      backend.stack) (stack : backend.stack = current :: rest)
    (assigned : ¬ transactionIdIsValid current.transactionId)
    (topAssigned : ¬ transactionIdIsValid backend.getTopLevelTransactionIdIfAny)
    (room : backend.nextXid.toNat < kMaxXids) : AssignsXid backend := by
  have normal : transactionIdIsNormal backend.nextXid :=
    transactionIdIsNormal_iff.2 sequential.started
  have valid := transactionIdIsValid_of_normal normal
  have notZero : ¬ backend.nextXid = kInvalidTransactionId := by
    simpa [transactionIdIsValid] using valid
  have unassigned : backend.getTopLevelTransactionIdIfAny = kInvalidTransactionId := by
    simpa [transactionIdIsValid] using topAssigned
  rw [unassigned] at nested
  have after := (nested.updateTop backend.nextXid).share
  have notOwn : ∀ xid, ¬ backend.Own xid := by
    rintro xid ⟨isValid, rfl⟩
    exact topAssigned isValid
  refine ⟨backend.allocated, backend.nextXid, ?_,
    allocated_sequential sequential room rfl rfl rfl after,
    ⟨valid, WellNested.getTopLevel after⟩, ?_, ?_⟩
  · simp [getCurrentTransactionId, allocated, stack, assigned, topAssigned,
      allocateNextTransactionId, notZero, transactionIdSetInProgress, normal]
  · rw [allocated, length_shareXid, length_updateTopLevel]
  intro level
  refine ⟨?_, fun xid own => absurd own (notOwn xid), fun xid _ _ own => absurd own (notOwn xid)⟩
  rintro xid ⟨isNormal, less, committed⟩
  have apart : xid ≠ backend.nextXid := by
    rintro rfl
    omega
  refine ⟨isNormal, ?_, ?_⟩
  · rw [allocated, BitVec.toNat_add_of_lt (by unfold kMaxXids at room; simp; omega)]
    exact Nat.lt_add_right _ less
  · rw [allocated, fetchFromCommitLog_setCommitLog, if_neg (fun same => apart same.1)]
    exact committed

theorem getCurrentTransactionId_kept (notEmpty : backend.stack ≠ [])
    (safe : transactionIdIsValid backend.getTopLevelTransactionIdIfAny =
        true ∨ backend.nextXid.toNat < kMaxXids) : AssignsXid backend := by
  have nested := sequential.block.resolve_left notEmpty
  obtain ⟨current, rest, stack⟩ := exists_cons_of_ne_nil notEmpty
  by_cases assigned : transactionIdIsValid current.transactionId
  · have isTop : current.transactionId = backend.getTopLevelTransactionIdIfAny := by
      rw [stack] at nested
      rcases nested.head_xid with unassigned | isTop
      · simp [unassigned, transactionIdIsValid] at assigned
      · exact isTop
    refine ⟨backend, current.transactionId, ?_, sequential,
      ⟨assigned, isTop.symm⟩, rfl, Carried.refl backend⟩
    simp only [getCurrentTransactionId, stack, assigned, if_true]
  by_cases topAssigned : transactionIdIsValid backend.getTopLevelTransactionIdIfAny
  · have shared := nested.share
    have sharedStack : shareXid backend.getTopLevelTransactionIdIfAny
        backend.stack = { current with transactionId :=
          backend.getTopLevelTransactionIdIfAny } :: rest := by
      rw [stack, shareXid]
    have quiet : Quiet backend (backend.setStack (shareXid
        backend.getTopLevelTransactionIdIfAny backend.stack)) :=
      ⟨rfl, rfl, rfl, WellNested.getTopLevel shared⟩
    refine ⟨_, backend.getTopLevelTransactionIdIfAny, ?_, quiet.sequential sequential (.inr shared),
      ⟨topAssigned, quiet.top⟩, ?_, ?_⟩
    · simp only [getCurrentTransactionId, stack, assigned,
        topAssigned, if_true, Bool.false_eq_true, if_false]
    · simp [setStack, shareXid, stack]
    intro level
    apply quiet.carried
    intro _ _ _ _ fits
    rw [stack] at fits
    simp only [sharedStack]
    exact fits
  · exact allocated_kept sequential nested stack assigned topAssigned
      (safe.resolve_left topAssigned)

/-- A commit outside a transaction or with an open subtransaction changes
nothing; otherwise the XID of the transaction is recorded as committed. -/
theorem endTransactionBlock_kept : backend.endTransactionBlock.1.Sequential ∧
    ∀ level, Carried backend backend.endTransactionBlock.1 level := by
  have unchanged : backend.Sequential ∧ ∀ level, Carried backend backend level :=
    ⟨sequential, Carried.refl backend⟩
  rcases sequential.block with empty | nested
  · simpa only [endTransactionBlock, empty] using unchanged
  rcases nested.current with ⟨top, single, isState, isXid⟩ | ⟨_, _, _, stack, inSub⟩
  · by_cases assigned : transactionIdIsValid top.transactionId
    · have own : backend.Own top.transactionId := ⟨assigned, isXid.symm⟩
      obtain ⟨normal, less, _⟩ := sequential.running _ own
      have ended : backend.endTransactionBlock.1 = { backend with
            stack := [], log := setCommitLog backend.log top.transactionId .committed
            cache := backend.cache.invalidate top.transactionId } := by
        simp [endTransactionBlock, single, isState, commitTransaction,
          finishTransaction, setBlockState, setStack, assigned, transactionIdCommit, normal]
      rw [ended]
      refine ⟨⟨sequential.started, sequential.bounded,
        coherent_setCommitLog sequential.coherent, .inl rfl,
        fun xid own => absurd rfl own.stack_ne_nil⟩, ?_⟩
      have inLog : top.transactionId.toNat < kMaxXids := less.trans_le sequential.bounded
      intro level
      refine ⟨?_, ?_, fun _ _ _ _ _ _ => trivial⟩
      · rintro xid ⟨isNormal, isLess, committed⟩
        refine ⟨isNormal, isLess, ?_⟩
        rw [fetchFromCommitLog_setCommitLog, committed]
        split <;> rfl
      · intro xid also
        obtain rfl := own.eq also
        refine Or.inr ⟨rfl, normal, less, ?_⟩
        rw [fetchFromCommitLog_setCommitLog, if_pos ⟨rfl, inLog⟩]
    · have ended : backend.endTransactionBlock.1 = { backend with stack := [] } := by
        simp [endTransactionBlock, single, isState, commitTransaction,
          finishTransaction, setBlockState, setStack, assigned]
      have quiet : Quiet backend backend.endTransactionBlock.1 := by
        rw [ended]
        have unassigned : top.transactionId = kInvalidTransactionId := by
          simpa [transactionIdIsValid] using assigned
        refine ⟨rfl, rfl, rfl, ?_⟩
        rw [← isXid, unassigned]
        rfl
      refine ⟨quiet.sequential sequential (.inl (by rw [ended])), ?_⟩
      intro level
      apply quiet.carried
      intro _ _ _ _ _
      rw [ended]
      trivial
  · simpa only [endTransactionBlock, stack, inSub] using unchanged

end

structure SessionInvariant (session : Session) : Prop where
  sequential : session.backend.Sequential
  tuples : ∀ tuple ∈ session.tuples, TupleInvariant session.backend tuple

namespace SessionInvariant

variable {session : Session} (invariant : SessionInvariant session)

include invariant

theorem undoneForGood : session.UndoneForGood := by
  intro tuple mem
  have kept := invariant.tuples tuple mem
  have verdict := (heapTupleSatisfiesMVCC_coherent
    session.backend.visibilityStack session.backend.takeSnapshot
    invariant.sequential.coherent tuple.header).1
  unfold Session.visible
  rw [verdict]
  refine ⟨?_, kept.live_visible invariant.sequential⟩
  intro undone
  by_cases noDeletes : tuple.deletedIn = []
  · exact kept.buried_invisible invariant.sequential undone noDeletes
  · exact kept.deleted_invisible invariant.sequential noDeletes

theorem settle (sequential : after.Sequential)
    (carried : Carried session.backend after (session.backend.stack.length + 1)) :
    SessionInvariant (session.settle after) := by
  refine ⟨sequential, ?_⟩
  simp only [Session.settle, mem_map]
  rintro _ ⟨tuple, mem, rfl⟩
  exact (invariant.tuples tuple mem).carryAll sequential carried

theorem renest {next : SubTransactionId}
    (nested : WellNested .begin session.backend.getTopLevelTransactionIdIfAny stack)
    (fits : ∀ depth cid, session.backend.stack ≠ [] → depth < session.backend.stack.length + 1 →
      CidFits depth cid session.backend.stack → CidFits depth cid stack) :
    SessionInvariant (session.settle
      { session.backend with stack := stack, nextSubTransactionId := next }) := by
  have quiet : Quiet session.backend
      { session.backend with stack := stack, nextSubTransactionId := next } :=
    ⟨rfl, rfl, rfl, WellNested.getTopLevel nested⟩
  exact invariant.settle (quiet.sequential invariant.sequential (.inr nested))
    (quiet.carried fun depth cid shallow notEmpty => fits depth cid notEmpty shallow)

theorem unchanged : SessionInvariant (session.settle session.backend) :=
  invariant.settle invariant.sequential (Carried.refl ..)

/-- The rollback to the entry that `stack` ends at, if the work since leaves
nothing behind. -/
theorem undone {stack : List XactStateData} {next : SubTransactionId}
    {level : Nat} (isLevel : stack.length = level)
    (nested : WellNested .begin session.backend.getTopLevelTransactionIdIfAny stack)
    (fits : ∀ depth cid, depth < level →
      CidFits depth cid session.backend.stack → CidFits depth cid stack)
    (nothing : ∀ tuple ∈ session.tuples, tuple.insertedSince level = tuple.deletedSince level) :
    SessionInvariant (Session.settle
      { session with tuples := session.tuples.map (·.undo stack.length) } { session.backend with
        stack := stack, nextSubTransactionId := next }) := by
  subst isLevel
  have quiet : Quiet session.backend
      { session.backend with stack := stack, nextSubTransactionId := next } :=
    ⟨rfl, rfl, rfl, WellNested.getTopLevel nested⟩
  have sequential := quiet.sequential invariant.sequential (.inr nested)
  have pos : 1 ≤ stack.length := by
    cases stack with
    | nil => exact nested.elim
    | cons _ _ => simp
  refine ⟨sequential, ?_⟩
  simp only [Session.settle, mem_map]
  rintro _ ⟨_, ⟨tuple, mem, rfl⟩, rfl⟩
  have kept := (invariant.tuples tuple mem).undo pos (nothing tuple mem)
  exact kept.carry sequential (quiet.carried fun depth cid shallow _ => fits depth cid shallow)
    TupleInvariant.undo_shallow.1 TupleInvariant.undo_shallow.2

theorem beginBlock : SessionInvariant (session.settle session.backend.beginTransactionBlock.1) := by
  rcases invariant.sequential.block with empty | nested
  · have isTop : session.backend.getTopLevelTransactionIdIfAny = kInvalidTransactionId := by
      simp [getTopLevelTransactionIdIfAny, empty, topLevel]
    simp only [beginTransactionBlock, empty, startTransaction, setStack, setBlockState]
    apply invariant.renest
    · rw [isTop]
      exact ⟨rfl, rfl⟩
    · intro _ _ notEmpty
      exact absurd empty notEmpty
  · have same : session.backend.beginTransactionBlock.1 = session.backend := by
      rcases nested.current with ⟨_, stack, isState, _⟩ | ⟨_, _, _, stack, isState⟩
      all_goals
        simp [beginTransactionBlock, stack, isState]
    rw [same]
    exact invariant.unchanged

theorem savepoint : SessionInvariant (session.settle (session.backend.beginSavepoint name).1) := by
  cases stack : session.backend.stack with
  | nil =>
    simp only [beginSavepoint, stack]
    exact invariant.unchanged
  | cons _ _ =>
    have nested := invariant.sequential.block.resolve_left (by simp [stack])
    simp only [beginSavepoint, startSubTransaction, stack]
    apply invariant.renest
    · rw [stack] at nested
      exact nested.push rfl rfl
    intro _ _ _ _ fits
    rw [stack] at fits
    exact ⟨fits.1, fun _ => fits.1, fits.2⟩

theorem nested_of_savepointIndex (found : savepointIndex name session.backend.stack = some index) :
    index + 1 < session.backend.stack.length ∧
      WellNested .begin session.backend.getTopLevelTransactionIdIfAny session.backend.stack := by
  unfold savepointIndex at found
  split at found
  · cases found
  split at found
  next inside =>
    cases found
    refine ⟨inside, invariant.sequential.block.resolve_left ?_⟩
    intro empty
    simp [empty] at inside
  · cases found

theorem release (name : String) :
    SessionInvariant (session.settle (session.backend.releaseSavepoint name).1) := by
  unfold releaseSavepoint withSavepoint
  split
  · exact invariant.unchanged
  split
  · exact invariant.unchanged
  next index found =>
    obtain ⟨_, nested⟩ := invariant.nested_of_savepointIndex found
    apply invariant.renest
    · exact nested.iterate (fun _ kept => kept.commitSub) (index + 1)
    · intro _ _ _ _ fits
      exact fits.commitSubs

theorem rollbackTo (safe : SavepointSafe session (.rollbackTo name)) :
    SessionInvariant (session.rollbackTo name) := by
  simp only [Session.rollbackTo, rollbackToSavepoint, withSavepoint]
  by_cases short : session.backend.stack.length ≤ 1
  · rw [if_pos short]
    exact invariant.unchanged
  rw [if_neg short]
  cases found : savepointIndex name session.backend.stack with
  | none => exact invariant.unchanged
  | some index =>
    obtain ⟨inside, nested⟩ := invariant.nested_of_savepointIndex found
    simp only [SavepointSafe, found] at safe
    have popped := nested.iterate (fun _ kept => kept.abortSub) (index + 1)
    have poppedLength := length_abortSubs inside
    have poppedFits := fun depth cid =>
      @CidFits.abortSubs depth cid session.backend.stack index inside
    simp only [setStack]
    cases stack : abortSubTransaction^[index + 1] session.backend.stack with
    | nil =>
      rw [stack] at popped
      exact popped.elim
    | cons _ _ =>
      rw [stack] at popped poppedLength
      simp only [stack] at poppedFits
      refine @undone session invariant _ _
        (session.backend.stack.length - index) ?_ (popped.push rfl rfl)
        ?_ safe
      · simp only [length_cons] at poppedLength ⊢
        omega
      intro depth cid shallow fits
      have kept := poppedFits depth cid shallow fits.before
      exact ⟨kept.1, fun _ => kept.1, kept.2⟩

theorem write {write : XactBackend → TransactionId → List TrackedTuple} {after : Session}
    (safe : transactionIdIsValid session.backend.getTopLevelTransactionIdIfAny ∨
      session.backend.nextXid.toNat < kMaxXids) (written : session.writeTuple write = some after)
    (kept : ∀ backend xid, backend.Sequential → backend.Own xid →
      (∀ tuple ∈ session.tuples, TupleInvariant backend tuple) →
      ∀ tuple ∈ write backend xid, TupleInvariant backend tuple) : SessionInvariant after := by
  unfold Session.writeTuple at written
  split at written
  · cases written
  next notEmpty =>
    obtain ⟨backend, xid, assigned, sequential, own, sameLength, carried⟩ :=
      getCurrentTransactionId_kept invariant.sequential notEmpty safe
    rw [assigned] at written
    cases written
    have earlier : ∀ tuple ∈ session.tuples, TupleInvariant backend tuple := by
      intro tuple mem
      exact (invariant.tuples tuple mem).carryOn sequential sameLength carried
    obtain ⟨counted, stillSame, counts⟩ := commandCounterIncrement_kept sequential
    refine ⟨counted, ?_⟩
    intro tuple mem
    exact (kept backend xid sequential own earlier tuple mem).carryOn counted stillSame counts

theorem heapInsert (safe : SavepointSafe session (.heapInsert hasNull hasVarWidth natts hoff))
    (taken : session.heapInsert hasNull hasVarWidth natts hoff =
      some after) : SessionInvariant after := by
  apply invariant.write safe taken
  intro _ _ _ own earlier tuple mem
  rcases mem_append.1 mem with old | new
  · exact earlier tuple old
  obtain rfl := mem_singleton.1 new
  exact
    { plain := ⟨hasNull, hasVarWidth, rfl⟩, inserter := Or.inr own, insertedNow := fun _ => own
      placed := ⟨le_rfl, fun _ mem => absurd mem not_mem_nil⟩
      live := fun _ _ => ⟨rfl, fun _ => CidFits.now own⟩
      buried := fun undone => absurd undone Bool.false_ne_true
      deleter := fun deleted => absurd rfl deleted
      deletedNow := fun ⟨_, mem, _⟩ => absurd mem not_mem_nil
      deleterCid := fun deleted => absurd rfl deleted }

theorem heapDelete (safe : SavepointSafe session (.heapDelete index))
    (taken : session.heapDelete index = some after) : SessionInvariant after := by
  unfold Session.heapDelete at taken
  split at taken
  · cases taken
  next target found =>
    apply invariant.write safe taken
    intro _ _ _ own earlier tuple mem
    rcases mem_or_eq_of_mem_set mem with old | rfl
    · exact earlier tuple old
    have before := earlier target (mem_of_getElem? found)
    exact { before with
        placed := ⟨before.placed.1, fun depth mem => by
          rcases mem_cons.1 mem with rfl | old
          · exact ⟨before.placed.1, le_rfl⟩
          · exact before.placed.2 depth old⟩
        live := fun _ none => absurd none (cons_ne_nil _ _)
        buried := fun _ none => absurd none (cons_ne_nil _ _), deleter := fun _ => Or.inr own
        deletedNow := fun _ => own, deleterCid := fun _ _ depth above =>
          (CidFits.now own).deepen (above _ mem_cons_self) }

theorem step {op : SavepointOp} {after : Session}
    (safe : SavepointSafe session op) (taken : session.step op = some after) :
    SessionInvariant after := by
  cases op with
  | beginBlock =>
    cases taken
    exact invariant.beginBlock
  | savepoint name =>
    cases taken
    exact invariant.savepoint
  | release name =>
    cases taken
    exact invariant.release name
  | rollbackTo name =>
    cases taken
    exact invariant.rollbackTo safe
  | heapInsert _ _ _ _ => exact invariant.heapInsert safe taken
  | heapDelete _ => exact invariant.heapDelete safe taken
  | commandCounterIncrement =>
    cases taken
    obtain ⟨sequential, _, carried⟩ := commandCounterIncrement_kept invariant.sequential
    exact invariant.settle sequential (carried _)
  | commit =>
    cases taken
    obtain ⟨sequential, carried⟩ := endTransactionBlock_kept invariant.sequential
    exact invariant.settle sequential (carried _)

end SessionInvariant

theorem Session.initial_invariant : SessionInvariant Session.initial := by
  refine ⟨⟨by decide, by decide, coherent_empty, .inl rfl, ?_⟩, fun _ mem => absurd mem not_mem_nil⟩
  intro _ own
  exact absurd rfl own.stack_ne_nil

def SavepointRun (session : Session) : Prop :=
  Reaches Session.step SavepointSafe Session.initial session

/-- In every state of a run, work that was rolled back is undone. -/
theorem savepointRun_undoneForGood {session : Session}
    (run : SavepointRun session) : session.UndoneForGood := by
  apply SessionInvariant.undoneForGood
  apply Reaches.invariant run SessionInvariant
  · intro _ _ _ invariant safe taken
    exact invariant.step safe taken
  · exact Session.initial_invariant

/-- An insertion that was rolled back is visible after the commit. -/
theorem rolledBackInsert_visible : ∃ session, runActions Session.step Session.initial
        [.beginBlock, .savepoint "s", .heapInsert false false 1 24,
          .rollbackTo "s", .release "s", .commit] = some session ∧ ¬ session.UndoneForGood := by
  refine ⟨_, rfl, ?_⟩
  intro undone
  have invisible := (undone _ (mem_cons_self ..)).1 rfl
  revert invisible
  decide +kernel

/-- Work of which a rollback leaves nothing: the tuple inserted since the
savepoint was deleted again. -/
def insertAndDeleteSince : List SavepointOp :=
  [.beginBlock, .heapInsert false false 1 24, .savepoint "s",
    .heapInsert false false 1 24, .heapDelete 1, .rollbackTo "s", .release "s", .commit]

theorem savepointRun_undoneForGood_insertAndDeleteSince : ∃ session, SavepointRun session ∧
      session.tuples.map insertUndone = [false, true] ∧ session.UndoneForGood := by
  have allowed : AllAllowed Session.step SavepointSafe Session.initial
      insertAndDeleteSince := by
    decide +kernel
  have run := Reaches.of_runActions allowed rfl
  exact ⟨_, run, by decide +kernel, savepointRun_undoneForGood run⟩

end Pgcpp.Transaction
