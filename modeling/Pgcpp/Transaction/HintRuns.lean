import Pgcpp.Transaction.System
import Pgcpp.Transaction.VisibilityRule

/-!
# Hints over whole runs

A hint outlives the check that set it, so it has to be right for good.  Step 1
of the check is careful: it sets a hint only after a lookup gave the final
status.  Step 2 takes "not committed" for "aborted".  The results below say
exactly when one check writes a wrong hint, and that in every run that avoids
those checks, and deletions of tuples that still carry a `t_xmax` hint, all
hints agree with the commit log from then on.
-/

namespace Pgcpp.Transaction

open Lib Visibility HeapTupleHeaderData

/-- Each hint bit that is set carries its proposition. -/
structure HintsImply (tup : HeapTupleHeaderData)
    (xminCommitted xminInvalid xmaxCommitted xmaxInvalid : Prop) : Prop where
  ofXminCommitted : hasFlag tup.tInfomask kHeapXminCommitted → xminCommitted
  ofXminInvalid : hasFlag tup.tInfomask kHeapXminInvalid → xminInvalid
  ofXmaxCommitted : hasFlag tup.tInfomask kHeapXmaxCommitted → xmaxCommitted
  ofXmaxInvalid : hasFlag tup.tInfomask kHeapXmaxInvalid → xmaxInvalid

namespace HintsImply

variable {tup : HeapTupleHeaderData}
  {xminCommitted xminInvalid xmaxCommitted xmaxInvalid : Prop}
  (implied : HintsImply tup xminCommitted xminInvalid xmaxCommitted xmaxInvalid)

include implied

theorem setXminCommitted (right : xminCommitted) :
    HintsImply tup.setXminCommitted xminCommitted xminInvalid xmaxCommitted xmaxInvalid := by
  unfold HeapTupleHeaderData.setXminCommitted
  constructor
  · exact fun _ => right
  · rw [tup.hasFlag_setHint_down]
    nofun
  · rw [tup.hasFlag_setHint_of_disjoint (by decide) (by decide)]
    exact implied.ofXmaxCommitted
  · rw [tup.hasFlag_setHint_of_disjoint (by decide) (by decide)]
    exact implied.ofXmaxInvalid

theorem setXminInvalid (right : xminInvalid) :
    HintsImply tup.setXminInvalid xminCommitted xminInvalid xmaxCommitted xmaxInvalid := by
  unfold HeapTupleHeaderData.setXminInvalid
  constructor
  · rw [tup.hasFlag_setHint_down]
    nofun
  · exact fun _ => right
  · rw [tup.hasFlag_setHint_of_disjoint (by decide) (by decide)]
    exact implied.ofXmaxCommitted
  · rw [tup.hasFlag_setHint_of_disjoint (by decide) (by decide)]
    exact implied.ofXmaxInvalid

theorem setXmaxCommitted (right : xmaxCommitted) :
    HintsImply tup.setXmaxCommitted xminCommitted xminInvalid xmaxCommitted xmaxInvalid := by
  unfold HeapTupleHeaderData.setXmaxCommitted
  constructor
  · rw [tup.hasFlag_setHint_of_disjoint (by decide) (by decide)]
    exact implied.ofXminCommitted
  · rw [tup.hasFlag_setHint_of_disjoint (by decide) (by decide)]
    exact implied.ofXminInvalid
  · exact fun _ => right
  · rw [tup.hasFlag_setHint_down]
    nofun

theorem setXmaxInvalid (right : xmaxInvalid) :
    HintsImply tup.setXmaxInvalid xminCommitted xminInvalid xmaxCommitted xmaxInvalid := by
  unfold HeapTupleHeaderData.setXmaxInvalid
  constructor
  · rw [tup.hasFlag_setHint_of_disjoint (by decide) (by decide)]
    exact implied.ofXminCommitted
  · rw [tup.hasFlag_setHint_of_disjoint (by decide) (by decide)]
    exact implied.ofXminInvalid
  · rw [tup.hasFlag_setHint_down]
    nofun
  · exact fun _ => right

end HintsImply

/-- The hints that `after` has over `tup` agree with the log. -/
def NewHintsRight (log : CommitLog) (tup after : HeapTupleHeaderData) : Prop :=
  HintsImply after
    (hasFlag tup.tInfomask kHeapXminCommitted = false → logStatus log tup.tXmin = .committed)
    (hasFlag tup.tInfomask kHeapXminInvalid = false → logStatus log tup.tXmin = .aborted)
    (hasFlag tup.tInfomask kHeapXmaxCommitted = false → logStatus log tup.tXmax = .committed)
    (hasFlag tup.tInfomask kHeapXmaxInvalid = false → logStatus log tup.tXmax = .aborted)

theorem newHintsRight_refl : NewHintsRight log tup tup := by
  constructor <;> simp_all

theorem hintsTruthful_iff_hintsImply : HintsTruthful log tup ↔
      HintsImply tup (logStatus log tup.tXmin = .committed) (logStatus log tup.tXmin = .aborted)
        (logStatus log tup.tXmax = .committed) (logStatus log tup.tXmax = .aborted) :=
  ⟨fun ⟨a, b, c, d⟩ => ⟨a, b, c, d⟩, fun ⟨a, b, c, d⟩ => ⟨a, b, c, d⟩⟩

theorem HintsTruthful.mono (truthful : HintsTruthful log tup) (kept : KeepsOutcomes log log') :
    HintsTruthful log' tup := by
  have carried : ∀ {xid status}, logStatus log xid = status →
      status ≠ .inProgress → logStatus log' xid = status := by
    intro xid status recorded final
    rw [kept.logStatus (by rw [recorded]; exact final), recorded]
  constructor
  · exact fun flag => carried (truthful.xminCommitted flag) (by decide)
  · exact fun flag => carried (truthful.xminInvalid flag) (by decide)
  · exact fun flag => carried (truthful.xmaxCommitted flag) (by decide)
  · exact fun flag => carried (truthful.xmaxInvalid flag) (by decide)

/-! ## One check -/

/-- Step 2 looks the deleter up in the commit log and writes a hint from the
answer. -/
def looksUpXmax (stack : List TransactionStateData) (snapshot : SnapshotData)
    (tup : HeapTupleHeaderData) : Bool :=
  transactionIdIsValid tup.tXmax && !hasFlag tup.tInfomask kHeapXmaxLocked &&
    tup.getXmaxStatus == .inProgress &&
    !transactionIdIsCurrentTransactionId stack tup.tXmax &&
    (snapshot.xidLtXmin tup.tXmax || !snapshot.xidGeXmax tup.tXmax)

section

variable {log : CommitLog} (stack : List TransactionStateData)
  (snapshot : SnapshotData) {cache : LogCache}

theorem checkXmax_effects :
    (checkXmax log stack snapshot cache tup).tup = (if looksUpXmax stack snapshot tup then
          if (transactionIdDidCommit log cache tup.tXmax).1 then if snapshot.xidLtXmin tup.tXmax ||
                !snapshot.xidInSnapshot tup.tXmax then tup.setXmaxCommitted else tup
          else tup.setXmaxInvalid else tup) ∧
      (checkXmax log stack snapshot cache tup).cache =
        if looksUpXmax stack snapshot tup then (transactionLogFetch log cache tup.tXmax).2
        else cache := by
  have looked : (transactionIdDidCommit log cache tup.tXmax).2 =
      (transactionLogFetch log cache tup.tXmax).2 := rfl
  unfold checkXmax looksUpXmax
  dsimp only
  cases transactionIdIsValid tup.tXmax with
  | false => simp
  | true =>
    cases hasFlag tup.tInfomask kHeapXmaxLocked with
    | true => simp
    | false =>
      cases status : tup.getXmaxStatus with
      | committed =>
        cases snapshot.xidLtXmin tup.tXmax <;>
          cases snapshot.xidGeXmax tup.tXmax <;>
          cases snapshot.xidInSnapshot tup.tXmax <;> simp
      | inProgress =>
        cases transactionIdIsCurrentTransactionId stack tup.tXmax with
        | true => by_cases late : snapshot.curcid < tup.tCid <;> simp [late]
        | false =>
          cases snapshot.xidLtXmin tup.tXmax <;>
            cases snapshot.xidGeXmax tup.tXmax <;>
            cases snapshot.xidInSnapshot tup.tXmax <;>
            cases (transactionIdDidCommit log cache tup.tXmax).1 <;>
            simp [looked]
      | _ => simp

theorem logStatus_of_hintCommitted (sound : cache.Sound log)
    (hinted : (xidVisibleInSnapshot log snapshot cache xid).2.1) :
    logStatus log xid = .committed := by
  unfold xidVisibleInSnapshot at hinted
  dsimp only at hinted
  split at hinted
  · next special => exact logStatus_of_special (by simpa using special)
  split at hinted
  · contradiction
  split at hinted
  · split at hinted
    · next committed => exact sound.didCommit committed
    · contradiction
  split at hinted
  · contradiction
  split at hinted
  · next committed => exact sound.didCommit committed
  · contradiction

theorem checkXmin_hint (sound : cache.Sound log) :
    (checkXmin log stack snapshot cache tup).tup = tup ∨
    ((checkXmin log stack snapshot cache tup).tup = tup.setXminCommitted ∧
      logStatus log tup.tXmin = .committed) ∨
    ((checkXmin log stack snapshot cache tup).tup = tup.setXminInvalid ∧
      logStatus log tup.tXmin = .aborted) := by
  unfold checkXmin
  cases status : tup.getXminStatus with
  | inProgress =>
    dsimp only
    split
    · exact .inl rfl
    split
    · split
      · exact .inl rfl
      · split <;> exact .inl rfl
    have start : cache.Moves log cache := .refl
    have moved := xidVisibleInSnapshot_moves snapshot start tup.tXmin
    split
    · next hinted => exact .inr (.inl ⟨rfl, logStatus_of_hintCommitted snapshot sound hinted⟩)
    split
    · split
      · next aborted => exact .inr (.inr ⟨rfl, (moved.sound sound).didAbort aborted⟩)
      · exact .inl rfl
    · exact .inl rfl
  | _ => exact .inl rfl

theorem checkXmin_looksUpXmax : (checkXmin log stack snapshot cache tup).tup.tXmax = tup.tXmax ∧
      looksUpXmax stack snapshot (checkXmin log stack snapshot cache tup).tup =
        looksUpXmax stack snapshot tup := by
  rcases checkXmin_tup log stack snapshot cache tup with same | same | same
  · rw [same]
    exact ⟨rfl, rfl⟩
  all_goals
    rw [same]
    exact ⟨rfl, by simp [looksUpXmax]⟩

/-- The four propositions survive the whole check when a deleter that step 2
looks up is reported committed only if it is, and otherwise aborted. -/
theorem HintsImply.check (sound : cache.Sound log)
    (implied : HintsImply tup xminCommitted xminInvalid xmaxCommitted xmaxInvalid)
    (inserterDone : logStatus log tup.tXmin = .committed → xminCommitted)
    (inserterFailed : logStatus log tup.tXmin = .aborted → xminInvalid)
    (deleterDone : looksUpXmax stack snapshot tup →
      logStatus log tup.tXmax = .committed → xmaxCommitted)
    (deleterFailed : (checkXmin log stack snapshot cache tup).visible →
      looksUpXmax stack snapshot tup → (transactionIdDidCommit log
    (checkXmin log stack snapshot cache tup).cache tup.tXmax).1 = false → xmaxInvalid) :
    HintsImply (heapTupleSatisfiesMVCC log stack snapshot cache tup).tup
      xminCommitted xminInvalid xmaxCommitted xmaxInvalid := by
  have start : cache.Moves log cache := .refl
  have moved := (checkXmin_moves stack snapshot start tup).sound sound
  obtain ⟨sameXmax, sameLookup⟩ := checkXmin_looksUpXmax stack snapshot
  have first : HintsImply (checkXmin log stack snapshot cache tup).tup
      xminCommitted xminInvalid xmaxCommitted xmaxInvalid := by
    rcases checkXmin_hint stack snapshot sound with
      same | ⟨same, status⟩ | ⟨same, status⟩
    · rwa [same]
    · rw [same]
      exact implied.setXminCommitted (inserterDone status)
    · rw [same]
      exact implied.setXminInvalid (inserterFailed status)
  unfold heapTupleSatisfiesMVCC
  dsimp only
  split
  · exact first
  next shown =>
    simp only [Bool.not_eq_true', Bool.not_eq_false] at shown
    rw [(checkXmax_effects ..).1, sameLookup, sameXmax]
    split
    · next looked =>
        split
        · next committed =>
            have done := deleterDone looked (moved.didCommit committed)
            split
            · exact first.setXmaxCommitted done
            · exact first
        · next failed =>
            exact first.setXmaxInvalid (deleterFailed shown looked (by simpa using failed))
    · exact first

end

section

variable (view : BackendView) (snapshot : SnapshotData) (tup : HeapTupleHeaderData)

/-- Step 2 is reached and takes a deleter whose outcome is still open for an
aborted one. -/
def MisjudgesDeleter : Prop :=
  inserterShown view.log view.stack snapshot tup ∧
    looksUpXmax view.stack snapshot tup ∧
    logStatus view.log tup.tXmax ≠ .committed ∧
    logStatus view.log tup.tXmax ≠ .aborted

/-- The header a backend's check leaves behind. -/
def BackendView.checked : HeapTupleHeaderData :=
  (heapTupleSatisfiesMVCC view.log view.stack snapshot view.cache tup).tup

theorem newHintsRight_iff : NewHintsRight view.log tup (view.checked snapshot tup) ↔
      ¬MisjudgesDeleter view snapshot tup := by
  obtain ⟨shownIff, coherent⟩ := checkXmin_coherent view.stack snapshot view.coherent tup
  obtain ⟨answer, _⟩ := transactionIdDidCommit_coherent coherent tup.tXmax
  constructor
  · rintro right ⟨shown, looked, notCommitted, notAborted⟩
    obtain ⟨sameXmax, sameLookup⟩ := checkXmin_looksUpXmax view.stack
      snapshot
    have unhinted : hasFlag tup.tInfomask kHeapXmaxInvalid = false := by
      simp only [looksUpXmax, Bool.and_eq_true, beq_iff_eq,
        getXmaxStatus_eq_inProgress_iff] at looked
      exact looked.1.1.2.2
    have written : view.checked snapshot tup =
        (checkXmin view.log view.stack snapshot view.cache tup).tup.setXmaxInvalid := by
      rw [BackendView.checked, heapTupleSatisfiesMVCC]
      simp only [shownIff, shown, Bool.not_true, Bool.false_eq_true, if_false]
      rw [(checkXmax_effects ..).1, sameLookup, sameXmax, looked, answer]
      simp [notCommitted]
    have flagged : hasFlag (view.checked snapshot tup).tInfomask kHeapXmaxInvalid := by
      rw [written]
      exact hasFlag_setHint_up _ (by decide) (by decide)
    exact notAborted (right.ofXmaxInvalid flagged unhinted)
  · intro fine
    refine newHintsRight_refl.check view.stack snapshot
      view.coherent.sound ?_ ?_ ?_ ?_
    · exact fun committed _ => committed
    · exact fun aborted _ => aborted
    · exact fun _ committed _ => committed
    intro shown looked failed _
    rw [answer, decide_eq_false_iff_not] at failed
    by_contra notAborted
    exact fine ⟨shownIff ▸ shown, looked, failed, notAborted⟩

end

namespace SystemState

/-- The conditions under which a step writes no wrong hint: the XID counter
does not wrap; a deleted tuple carries no hint about an earlier deleter; and a
check looks a deleter up only when its outcome is recorded and the backend's
cache is not behind on it. -/
def HintSafe (state : SystemState) (event : Event) : Prop :=
  match event.action with
  | .allocate => state.nextXid.toNat + 1 < 2 ^ 32
  | .heapDelete index => ∀ tup, state.tuples[index]? = some tup → tup.getXmaxStatus = .inProgress
  | .check snapshot index => ∀ tup, state.tuples[index]? = some tup →
      looksUpXmax (state.backends event.backend).stack snapshot tup →
      (logStatus state.log tup.tXmax = .committed ∨ logStatus state.log tup.tXmax = .aborted) ∧
      (state.backends event.backend).cache.AgreesAt state.log tup.tXmax
  | _ => True

/-- The system is sound and every hint agrees with the log. -/
structure HintsSound (state : SystemState) : Prop where
  sound : state.Sound
  truthful : ∀ tup ∈ state.tuples, HintsTruthful state.log tup

theorem initial_hintsSound (pgprocnos : List Nat) : (initial pgprocnos).HintsSound :=
  ⟨initial_sound pgprocnos, by simp [initial]⟩

theorem heapInsertHeader_truthful (log : CommitLog) (xid : TransactionId) (cid : CommandId)
    (hasNull hasVarWidth : Bool) (natts : BitVec 16) (hoff : BitVec 8) :
    HintsTruthful log (heapInsertHeader xid cid hasNull hasVarWidth natts hoff) := by
  have clear : ∀ hasNull hasVarWidth,
      hasFlag (formedInfomask hasNull hasVarWidth) kHeapXminCommitted = false ∧
      hasFlag (formedInfomask hasNull hasVarWidth) kHeapXminInvalid = false ∧
      hasFlag (formedInfomask hasNull hasVarWidth) kHeapXmaxCommitted = false ∧
      hasFlag (formedInfomask hasNull hasVarWidth) kHeapXmaxInvalid = false := by
    decide
  constructor <;> intro flag
  all_goals
    exact absurd flag (by simp [heapInsertHeader, clear hasNull hasVarWidth])

theorem heapDeleteHeader_truthful {log : CommitLog} (truthful : HintsTruthful log tup)
    (unhinted : tup.getXmaxStatus = .inProgress) :
    HintsTruthful log (heapDeleteHeader tup xid cid) := by
  have clear := getXmaxStatus_eq_inProgress_iff.1 unhinted
  constructor
  · exact truthful.xminCommitted
  · exact truthful.xminInvalid
  · intro flag
    exact absurd flag (by simp [heapDeleteHeader, clear.1])
  · intro flag
    exact absurd flag (by simp [heapDeleteHeader, clear.2])

theorem check_truthful {log : CommitLog} {stack : List TransactionStateData}
    {snapshot : SnapshotData} {cache : LogCache} {tup : HeapTupleHeaderData}
    (sound : cache.Sound log) (truthful : HintsTruthful log tup)
    (recorded : looksUpXmax stack snapshot tup →
      (logStatus log tup.tXmax = .committed ∨ logStatus log tup.tXmax = .aborted) ∧
      cache.AgreesAt log tup.tXmax) :
    HintsTruthful log (heapTupleSatisfiesMVCC log stack snapshot cache tup).tup := by
  obtain ⟨sameXmin, sameXmax⟩ := heapTupleSatisfiesMVCC_xids log stack snapshot cache tup
  rw [hintsTruthful_iff_hintsImply, sameXmin, sameXmax]
  refine (hintsTruthful_iff_hintsImply.1 truthful).check stack snapshot
    sound id id (fun _ committed => committed) ?_
  intro _ looked failed
  obtain ⟨outcome, agrees⟩ := recorded looked
  rcases outcome with committed | aborted
  · have start : cache.Moves log cache := .refl
    have seen := (checkXmin_moves stack snapshot start tup).didCommit_eq_true agrees committed
    rw [seen] at failed
    contradiction
  · exact aborted

variable {state : SystemState}

theorem HintSafe.room (safe : state.HintSafe event) (allocates : event.action = .allocate) :
    state.nextXid.toNat + 1 < 2 ^ 32 := by
  simpa [HintSafe, allocates] using safe

section

variable (kept : state.HintsSound)

include kept

theorem HintsSound.step (safe : state.HintSafe event) (taken : state.step event = some next) :
    next.HintsSound := by
  have effect := step_effect kept.sound.ledger safe.room taken
  have outcomes := effect.keepsOutcomes kept.sound.ledger
  refine ⟨kept.sound.step effect, ?_⟩
  have carried : ∀ tup ∈ state.tuples, HintsTruthful next.log tup :=
    fun tup mem => (kept.truthful tup mem).mono outcomes
  rcases step_tuples taken with same | ⟨xid, cid, _, _, _, _, same⟩ |
    ⟨index, tup, xid, cid, action, found, same⟩ |
    ⟨snapshot, index, tup, action, found, same⟩
  · rwa [same]
  · rw [same]
    intro tup mem
    rcases List.mem_append.1 mem with old | new
    · exact carried tup old
    · rw [List.mem_singleton.1 new]
      exact heapInsertHeader_truthful ..
  · have unhinted : tup.getXmaxStatus = .inProgress := by
      simp only [HintSafe, action] at safe
      exact safe tup found
    rw [same]
    intro changed mem
    rcases List.mem_or_eq_of_mem_set mem with old | rfl
    · exact carried changed old
    · exact heapDeleteHeader_truthful (carried tup (List.mem_of_getElem? found)) unhinted
  rw [same]
  intro changed mem
  rcases List.mem_or_eq_of_mem_set mem with old | rfl
  · exact carried changed old
  refine HintsTruthful.mono ?_ outcomes
  apply check_truthful (kept.sound.caches event.backend)
    (kept.truthful tup (List.mem_of_getElem? found))
  simp only [HintSafe, action] at safe
  exact safe tup found

theorem HintsSound.run (run : Reaches SystemState.step HintSafe state later) : later.HintsSound :=
  run.invariant HintsSound (fun _ _ _ sound safe taken => sound.step safe taken) kept

theorem HintsSound.keepsOutcomes (run : Reaches SystemState.step HintSafe state later) :
    KeepsOutcomes state.log later.log := by
  refine (kept.sound.run (Relation.ReflTransGen.mono ?_ _ _ run)).2
  rintro _ _ ⟨event, safe, taken⟩
  exact ⟨event, safe.room, taken⟩

end

end SystemState

open SystemState

/-- A single check writes only right hints exactly when it does not take an
unfinished deleter for an aborted one; and in every run made of safe steps, a
hint on any tuple agrees with the commit log then and at any later time. -/
theorem hints_right_iff_and_over_safe_runs (view : BackendView) (snapshot : SnapshotData)
    (checkedTup : HeapTupleHeaderData) (pgprocnos : List Nat) (state later : SystemState) :
    (NewHintsRight view.log checkedTup (view.checked snapshot checkedTup) ↔
      ¬MisjudgesDeleter view snapshot checkedTup) ∧
    (Reaches step HintSafe (initial pgprocnos) state → Reaches step HintSafe state later →
      ∀ tup ∈ state.tuples, HintsTruthful later.log tup) := by
  refine ⟨newHintsRight_iff view snapshot checkedTup, ?_⟩
  intro run rest tup member
  have sound := (initial_hintsSound pgprocnos).run run
  exact (sound.truthful tup member).mono (sound.keepsOutcomes rest)

/-- One transaction inserts a row and commits; a second deletes it and, while
it still runs, a third checks the row; then the deleter commits. -/
def checkDuringDelete : List Event :=
  [⟨0, .startTransaction⟩, ⟨0, .allocate⟩, ⟨0, .publish⟩,
    ⟨0, .heapInsert false false 1 24⟩, ⟨0, .logCommit⟩, ⟨0, .clearPgxact⟩,
    ⟨1, .startTransaction⟩, ⟨1, .allocate⟩, ⟨1, .publish⟩,
    ⟨1, .heapDelete 0⟩, ⟨2, .startTransaction⟩, ⟨2, .readRunning⟩, ⟨2, .readNextXid⟩,
    ⟨2, .check ⟨4, 5, [4], 0, 0⟩ 0⟩, ⟨1, .logCommit⟩, ⟨1, .clearPgxact⟩]

theorem committed_deletion_hinted_aborted :
    ∃ state, Reaches step (fun _ _ => True) (initial [0, 1, 2]) state ∧
      ∃ tup ∈ state.tuples, hasFlag tup.tInfomask kHeapXmaxInvalid ∧
        logStatus state.log tup.tXmax = .committed :=
  ⟨_, .of_unguarded checkDuringDelete rfl, _, List.mem_singleton_self _, by decide, by decide⟩

theorem hints_right_after_hinted_insertion :
    ∃ state, Reaches step HintSafe (initial [0]) state ∧ ∃ tup ∈ state.tuples,
        hasFlag tup.tInfomask kHeapXminCommitted ∧ HintsTruthful state.log tup := by
  have hinted : ∃ state, Reaches step HintSafe (initial [0]) state ∧ (state.tuples.any fun tup =>
        hasFlag tup.tInfomask kHeapXminCommitted) := by
    refine ⟨_, .head ⟨⟨0, .startTransaction⟩, trivial, rfl⟩ (.head ⟨⟨0, .allocate⟩, ?_, rfl⟩
      (.head ⟨⟨0, .publish⟩, trivial, rfl⟩ (.head ⟨⟨0, .heapInsert false false 1 24⟩, trivial, rfl⟩
      (.head ⟨⟨0, .logCommit⟩, trivial, rfl⟩ (.head ⟨⟨0, .clearPgxact⟩, trivial, rfl⟩
      (.head ⟨⟨0, .check ⟨2, 4, [], 0, 0⟩ 0⟩, ?_, rfl⟩ .refl)))))), ?_⟩
    · exact (by decide : (3#32).toNat + 1 < 2 ^ 32)
    · intro tup found looked
      cases found
      cases looked
    · decide
  obtain ⟨state, run, flagged⟩ := hinted
  obtain ⟨tup, member, flag⟩ := List.any_eq_true.1 flagged
  exact ⟨state, run, tup, member, flag,
    (hints_right_iff_and_over_safe_runs fiveCommitted whileFiveRan
      hintedRowOfFive [0] state state).2 run .refl tup member⟩

end Pgcpp.Transaction
