import Pgcpp.Transaction.Visibility

/-!
# Hint bits and the reference visibility rule

The rule below states MVCC visibility without hint bits: a transaction's work
counts for a snapshot when it is committed and finished there.  The check
agrees with the rule, with or without hints, exactly when no shortcut of the
source changes the answer: a `t_xmin` hint taken without looking at the
snapshot, the bit `kHeapXminFrozen` shares with `kHeapXmaxCommitted`, and XIDs
on which the region tests of the snapshot contradict each other.
-/

namespace Pgcpp.Transaction

open Lib Visibility HeapTupleHeaderData

/-- What one backend brings to a visibility check: the shared log, its own
cache and its transaction stack.  It is an assumption that the cache agrees with
the log and that an XID stays on the stack only while it runs. -/
structure BackendView where
  log : CommitLog
  cache : LogCache
  stack : List TransactionStateData
  coherent : cache.Coherent log
  running : ∀ state ∈ stack, transactionIdIsValid state.transactionId →
    logStatus log state.transactionId = .inProgress

namespace BackendView

variable (view : BackendView)

def isCurrent (xid : TransactionId) : Bool :=
  transactionIdIsCurrentTransactionId view.stack xid

def satisfiesMVCC (snapshot : SnapshotData) (tup : HeapTupleHeaderData) : Bool :=
  (heapTupleSatisfiesMVCC view.log view.stack snapshot view.cache tup).visible

theorem satisfiesMVCC_eq_verdict :
    view.satisfiesMVCC snapshot tup = verdict view.log view.stack snapshot tup :=
  (heapTupleSatisfiesMVCC_coherent view.stack snapshot view.coherent tup).1

theorem logStatus_of_isCurrent (view : BackendView) (valid : transactionIdIsValid xid)
    (current : view.isCurrent xid) : logStatus view.log xid = .inProgress := by
  unfold isCurrent transactionIdIsCurrentTransactionId at current
  cases shape : view.stack with
  | nil => simp [shape] at current
  | cons state _ =>
    have mem : ∃ entry ∈ view.stack, entry.transactionId = xid := by
      rw [shape]
      simp only [shape] at current
      split at current
      · next found => simpa using found
      · exact ⟨state, by simp, by
          simpa [getCurrentTransactionIdIfAny] using current⟩
    obtain ⟨entry, inStack, rfl⟩ := mem
    exact view.running entry inStack valid

end BackendView

section Rule

variable (view : BackendView) (snapshot : SnapshotData)

/-- `xid` is finished for the snapshot: a special XID, or one below `xmax`
that was not running. -/
def FinishedFor (xid : TransactionId) : Prop :=
  transactionIdIsNormal xid = false ∨
    (snapshot.xidGeXmax xid = false ∧ snapshot.xidInSnapshot xid = false)

/-- The work of `xid` counts for the snapshot. -/
def EffectiveFor (xid : TransactionId) : Prop :=
  logStatus view.log xid = .committed ∧ FinishedFor snapshot xid

section

variable (tup : HeapTupleHeaderData)

/-- The reference rule for the inserter. -/
def InserterVisible : Prop :=
  transactionIdIsValid tup.tXmin ∧
    if view.isCurrent tup.tXmin = true then tup.tCid ≤ snapshot.curcid
    else EffectiveFor view snapshot tup.tXmin

/-- The reference rule for the deleter: it is present, deletes rather than
locks, and its work counts. -/
def DeleterEffective : Prop :=
  transactionIdIsValid tup.tXmax ∧ hasFlag tup.tInfomask kHeapXmaxLocked = false ∧
    if view.isCurrent tup.tXmax = true then tup.tCid ≤ snapshot.curcid
    else EffectiveFor view snapshot tup.tXmax

def ReferenceVisible : Prop :=
  InserterVisible view snapshot tup ∧ ¬DeleterEffective view snapshot tup

/-- The check gives one answer with and without hints, and it is the rule's. -/
@[mk_iff]
structure HintTransparent (tup : HeapTupleHeaderData) : Prop where
  sameAsCleared : view.satisfiesMVCC snapshot tup = view.satisfiesMVCC snapshot tup.clearHints
  rule : view.satisfiesMVCC snapshot tup ↔ ReferenceVisible view snapshot tup

/-- The header bits make step 1 accept `t_xmin` without any lookup: either the
committed hint, or the bit shared with the `t_xmax` committed hint. -/
def TrustsXmin : Prop :=
  hasFlag tup.tInfomask kHeapXminCommitted ∨
    (hasFlag tup.tInfomask kHeapXminInvalid = false ∧ hasFlag tup.tInfomask kHeapXminFrozen)

/-- The deletion counts by the order in which step 2 asks: the lower bound of
the snapshot first, for special XIDs too. -/
def DeleterHides : Prop :=
  transactionIdIsValid tup.tXmax ∧ hasFlag tup.tInfomask kHeapXmaxLocked = false ∧
    if view.isCurrent tup.tXmax = true then tup.tCid ≤ snapshot.curcid
    else logStatus view.log tup.tXmax = .committed ∧ inFinishedRegion snapshot tup.tXmax

/-- `t_xmin` is committed and older than `xmin`, yet listed as running. -/
def XminRegionsClash : Prop :=
  view.isCurrent tup.tXmin = false ∧ transactionIdIsNormal tup.tXmin ∧
    logStatus view.log tup.tXmin = .committed ∧
    snapshot.xidLtXmin tup.tXmin ∧
    snapshot.xidGeXmax tup.tXmin = false ∧
    snapshot.xidInSnapshot tup.tXmin

/-- `t_xmax` is committed and unfinished by its upper bound or the running
list, while the test against `xmin` decides the other way. -/
def XmaxRegionsClash : Prop :=
  transactionIdIsValid tup.tXmax ∧ hasFlag tup.tInfomask kHeapXmaxLocked = false ∧
    view.isCurrent tup.tXmax = false ∧
    logStatus view.log tup.tXmax = .committed ∧
    (snapshot.xidGeXmax tup.tXmax ∨ snapshot.xidInSnapshot tup.tXmax) ∧
    snapshot.xidLtXmin tup.tXmax = transactionIdIsNormal tup.tXmax

end

/-- No shortcut of the check changes its answer. -/
@[mk_iff]
structure ShortcutsHarmless (tup : HeapTupleHeaderData) : Prop where
  trusted : TrustsXmin tup →
    InserterVisible view snapshot tup ∨ XminRegionsClash view snapshot tup ∨
      DeleterHides view snapshot tup
  xminRegions : XminRegionsClash view snapshot tup → DeleterHides view snapshot tup
  xmaxRegions : XmaxRegionsClash view snapshot tup → ¬InserterVisible view snapshot tup

end Rule

section Agreement

variable {view : BackendView} {tup : HeapTupleHeaderData}

theorem offStack_of_finished (valid : transactionIdIsValid xid)
    (finished : logStatus view.log xid ≠ .inProgress) : view.isCurrent xid = false := by
  cases current : view.isCurrent xid with
  | false => rfl
  | true => exact absurd (view.logStatus_of_isCurrent valid current) finished

theorem deleterTest_iff (view : BackendView) (snapshot : SnapshotData) (tup : HeapTupleHeaderData) :
    (transactionIdIsValid tup.tXmax ∧ hasFlag tup.tInfomask kHeapXmaxLocked = false ∧
      deleterTest view.log view.stack snapshot tup) ↔ DeleterHides view snapshot tup := by
  unfold deleterTest DeleterHides BackendView.isCurrent
  cases transactionIdIsCurrentTransactionId view.stack tup.tXmax with
  | true => simp
  | false => simp [and_comm]

theorem deleterHides_iff (truthful : HintsTruthful view.log tup) :
    deleterHides view.log view.stack snapshot tup ↔ DeleterHides view snapshot tup := by
  by_cases valid : transactionIdIsValid tup.tXmax
  · unfold deleterHides DeleterHides
    by_cases committedBit : hasFlag tup.tInfomask kHeapXmaxCommitted
    · have committed := truthful.xmaxCommitted committedBit
      have other : view.isCurrent tup.tXmax = false :=
        offStack_of_finished valid (by simp [committed])
      simp [valid, getXmaxStatus, committedBit, other, committed]
    by_cases invalidBit : hasFlag tup.tInfomask kHeapXmaxInvalid
    · have aborted := truthful.xmaxInvalid invalidBit
      have other : view.isCurrent tup.tXmax = false :=
        offStack_of_finished valid (by simp [aborted])
      simp [getXmaxStatus, committedBit, invalidBit, other, aborted]
    · have unhinted := deleterTest_iff view snapshot tup
      simp only [DeleterHides] at unhinted
      rw [← unhinted]
      simp [getXmaxStatus, committedBit, invalidBit, and_assoc]
  · simp [deleterHides, DeleterHides, valid]

/-- With truthful hints step 1 accepts exactly the trusted headers and those
that pass the test made without hints. -/
theorem inserterShown_iff (truthful : HintsTruthful view.log tup) :
    inserterShown view.log view.stack snapshot tup ↔ TrustsXmin tup ∨
        inserterTest view.log view.stack snapshot tup := by
  unfold inserterShown TrustsXmin
  by_cases committedBit : hasFlag tup.tInfomask kHeapXminCommitted
  · simp [getXminStatus, committedBit]
  by_cases invalidBit : hasFlag tup.tInfomask kHeapXminInvalid
  · have aborted := truthful.xminInvalid invalidBit
    have notCommitted : logStatus view.log tup.tXmin ≠ .committed := by simp [aborted]
    have normal := normal_of_logStatus_ne_committed notCommitted
    have other : view.isCurrent tup.tXmin = false :=
      offStack_of_finished (transactionIdIsValid_of_normal normal) (by simp [aborted])
    unfold BackendView.isCurrent at other
    simp [getXminStatus, committedBit, invalidBit, inserterTest, other, xidVisible, normal, aborted]
  · cases frozenBit : hasFlag tup.tInfomask kHeapXminFrozen <;>
      simp [getXminStatus, committedBit, invalidBit, frozenBit]

theorem satisfiesMVCC_clearHints_iff : view.satisfiesMVCC snapshot tup.clearHints ↔
      inserterTest view.log view.stack snapshot tup ∧ ¬DeleterHides view snapshot tup := by
  have inserter : inserterTest view.log view.stack snapshot tup.clearHints =
      inserterTest view.log view.stack snapshot tup := by
    rw [inserterTest, tup.clearHints_updated]
    rfl
  have deleter : deleterHides view.log view.stack snapshot tup.clearHints =
      (transactionIdIsValid tup.tXmax && !hasFlag tup.tInfomask kHeapXmaxLocked &&
        deleterTest view.log view.stack snapshot tup) := by
    rw [deleterHides, tup.clearHints_getXmaxStatus, tup.clearHints_locked]
    rfl
  rw [BackendView.satisfiesMVCC_eq_verdict, verdict, inserterShown,
    tup.clearHints_getXminStatus, inserter, deleter, ← deleterTest_iff]
  simp only [Bool.and_eq_true, Bool.not_eq_true', ← Bool.not_eq_true, and_assoc]

theorem inserterTest_iff (notBoth : ¬(view.isCurrent tup.tXmin ∧ transactionIdIsValid tup.tXmax ∧
      view.isCurrent tup.tXmax)) : inserterTest view.log view.stack snapshot tup ↔
      InserterVisible view snapshot tup ∨ XminRegionsClash view snapshot tup := by
  by_cases valid : transactionIdIsValid tup.tXmin
  · unfold inserterTest InserterVisible XminRegionsClash
    cases current : view.isCurrent tup.tXmin with
    | true =>
      have ne : tup.tXmin ≠ tup.tXmax := by
        intro same
        exact notBoth ⟨current, same ▸ valid, same ▸ current⟩
      unfold BackendView.isCurrent at current
      simp [current, ne]
    | false =>
      unfold BackendView.isCurrent at current
      cases normal : transactionIdIsNormal tup.tXmin with
      | true =>
        cases old : snapshot.xidLtXmin tup.tXmin <;>
          cases future : snapshot.xidGeXmax tup.tXmin <;>
          cases running : snapshot.xidInSnapshot tup.tXmin <;>
          simp [valid, current, normal, xidVisible, EffectiveFor, FinishedFor, old, future, running]
      | false =>
        simp [current, normal, xidVisible, EffectiveFor, FinishedFor, logStatus_of_special normal]
  · have absent : ¬(transactionIdIsNormal tup.tXmin) := by
      intro normal
      exact valid (transactionIdIsValid_of_normal normal)
    simp [inserterTest, InserterVisible, XminRegionsClash, valid, absent]

theorem deleterHides_iff_of_clash (clash : XmaxRegionsClash view snapshot tup) :
    DeleterHides view snapshot tup ↔ ¬DeleterEffective view snapshot tup := by
  obtain ⟨_, _, _, _, unfinished, _⟩ := clash
  cases normal : transactionIdIsNormal tup.tXmax <;>
    rcases unfinished with _ | _ <;>
    simp [DeleterHides, DeleterEffective, EffectiveFor, FinishedFor, inFinishedRegion, *]

theorem deleterHides_iff_of_not_clash (clear : ¬XmaxRegionsClash view snapshot tup) :
    DeleterHides view snapshot tup ↔ DeleterEffective view snapshot tup := by
  apply and_congr_right
  intro valid
  apply and_congr_right
  intro unlocked
  cases other : view.isCurrent tup.tXmax with
  | true => simp
  | false =>
    apply and_congr_right
    intro committed
    have disjoint : ¬((snapshot.xidGeXmax tup.tXmax ∨
        snapshot.xidInSnapshot tup.tXmax) ∧
        snapshot.xidLtXmin tup.tXmax = transactionIdIsNormal tup.tXmax) := by
      rintro ⟨unfinished, region⟩
      exact clear ⟨valid, unlocked, other, committed, unfinished, region⟩
    revert disjoint
    unfold FinishedFor inFinishedRegion
    cases snapshot.xidLtXmin tup.tXmax <;>
      cases transactionIdIsNormal tup.tXmax <;> simp

theorem not_inserterVisible_of_clash (clash : XminRegionsClash view snapshot tup) :
    ¬InserterVisible view snapshot tup := by
  obtain ⟨other, normal, _, _, _, running⟩ := clash
  rintro ⟨_, visible⟩
  simp [other, EffectiveFor, FinishedFor, normal, running] at visible

end Agreement

/-- Truthful hints never change the verdict, and the verdict is the reference
rule, exactly when no shortcut of the check is harmful. -/
theorem hintTransparent_iff_shortcutsHarmless (view : BackendView)
    (snapshot : SnapshotData) (tup : HeapTupleHeaderData) (truthful : HintsTruthful view.log tup)
    (notBoth : ¬(view.isCurrent tup.tXmin ∧ transactionIdIsValid tup.tXmax ∧
      view.isCurrent tup.tXmax)) :
    HintTransparent view snapshot tup ↔ ShortcutsHarmless view snapshot tup := by
  have hinted : view.satisfiesMVCC snapshot tup ↔
      (TrustsXmin tup ∨ InserterVisible view snapshot tup ∨ XminRegionsClash view snapshot tup) ∧
      ¬DeleterHides view snapshot tup := by
    rw [BackendView.satisfiesMVCC_eq_verdict, verdict, Bool.and_eq_true,
      inserterShown_iff truthful, inserterTest_iff notBoth,
      Bool.not_eq_true', ← Bool.not_eq_true, deleterHides_iff truthful]
  have cleared : view.satisfiesMVCC snapshot tup.clearHints ↔
      (InserterVisible view snapshot tup ∨ XminRegionsClash view snapshot tup) ∧
      ¬DeleterHides view snapshot tup := by
    rw [satisfiesMVCC_clearHints_iff, inserterTest_iff notBoth]
  have disjoint : XminRegionsClash view snapshot tup →
      ¬InserterVisible view snapshot tup := not_inserterVisible_of_clash
  rw [hintTransparent_iff, shortcutsHarmless_iff, ReferenceVisible]
  by_cases clash : XmaxRegionsClash view snapshot tup
  · have deleter := deleterHides_iff_of_clash clash
    grind
  · have deleter := deleterHides_iff_of_not_clash clash
    grind

/-- A backend outside any transaction, after XID 5 has committed. -/
def fiveCommitted : BackendView :=
  { log      := setCommitLog (fun _ => .inProgress) 5 .committed
    cache    := LogCache.empty
    stack    := []
    coherent := LogCache.coherent_empty
    running  := by simp }

/-- A snapshot taken while XID 5 was still running. -/
def whileFiveRan : SnapshotData :=
  { xmin := 5, xmax := 6, xip := [5], snapshotXid := 0, curcid := 0 }

/-- A row of XID 5 whose hint was set under a newer snapshot. -/
def hintedRowOfFive : HeapTupleHeaderData :=
  { tXmin := 5, tXmax := 0, tCid := 0, tCtid := ⟨0, 1⟩, tInfomask2 := 1
    tInfomask := kHeapXminCommitted, tHoff := 24 }

theorem hintedRowOfFive_truthful : HintsTruthful fiveCommitted.log hintedRowOfFive := by
  constructor <;> decide

/-- The older snapshot sees the row with the hint and misses it without. -/
theorem newerHint_shows_row_to_older_snapshot : HintsTruthful fiveCommitted.log hintedRowOfFive ∧
      fiveCommitted.isCurrent hintedRowOfFive.tXmin = false ∧
      fiveCommitted.satisfiesMVCC whileFiveRan hintedRowOfFive ∧
      fiveCommitted.satisfiesMVCC whileFiveRan hintedRowOfFive.clearHints = false ∧
      ¬HintTransparent fiveCommitted whileFiveRan hintedRowOfFive := by
  have shown : fiveCommitted.satisfiesMVCC whileFiveRan hintedRowOfFive := by decide
  have hidden : fiveCommitted.satisfiesMVCC whileFiveRan hintedRowOfFive.clearHints = false := by
    decide
  refine ⟨hintedRowOfFive_truthful, by decide, shown, hidden, ?_⟩
  intro transparent
  have same := transparent.sameAsCleared
  contradiction

theorem hintTransparent_iff_for_hintedRowOfFive :
    HintTransparent fiveCommitted whileFiveRan hintedRowOfFive ↔
      ShortcutsHarmless fiveCommitted whileFiveRan hintedRowOfFive :=
  hintTransparent_iff_shortcutsHarmless fiveCommitted whileFiveRan
    hintedRowOfFive hintedRowOfFive_truthful (by decide)

end Pgcpp.Transaction
