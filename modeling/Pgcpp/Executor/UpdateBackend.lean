import Pgcpp.Executor.UpdatePages

/-!
# The backend under an UPDATE

During an UPDATE the backend gets an XID with the first new version, and its
command counter advances.  The check reads no more of it than the XIDs on the
stack, the commit log and the snapshot.
-/

namespace Pgcpp.Executor

open Storage Transaction Access List Function
open XactBackend hiding stack nextXid log cache
open Transaction.Visibility

def stackXids (stack : List XactStateData) : List TransactionId :=
  stack.map fun entry => entry.transactionId

/-- Two backends that agree on XIDs. -/
structure SameXids (left right : XactBackend) : Prop where
  stack : stackXids right.stack = stackXids left.stack
  nextXid : right.nextXid = left.nextXid
  log : right.log = left.log

theorem SameXids.refl (backend : XactBackend) : SameXids backend backend := ⟨rfl, rfl, rfl⟩

theorem isCurrent_visibilityStack (backend : XactBackend) (xid : TransactionId) :
    transactionIdIsCurrentTransactionId backend.visibilityStack xid =
      (stackXids backend.stack).any (· == xid) := by
  unfold visibilityStack stackXids
  cases backend.stack with
  | nil => rfl
  | cons current _ =>
    simp only [map_cons, transactionIdIsCurrentTransactionId, getCurrentTransactionIdIfAny,
      any_cons, any_map, comp_def]
    cases current.transactionId == xid with
    | true => rw [Bool.true_or, if_pos rfl]
    | false => rw [Bool.if_false_right, Bool.and_true, Bool.decide_eq_true]

theorem SameXids.visibleOffsets (same : SameXids left right)
    (leftCoherent : left.cache.Coherent left.log) (rightCoherent : right.cache.Coherent right.log)
    (snapshot : SnapshotData) (page : PageData) :
    visibleOffsets right snapshot page = visibleOffsets left snapshot page := by
  rw [visibleOffsets_eq leftCoherent, visibleOffsets_eq rightCoherent]
  apply filter_congr
  intro _ _
  rw [same.log]
  simp only [verdict, inserterShown, deleterHides, inserterTest, deleterTest,
    isCurrent_visibilityStack, same.stack]

theorem stackXids_shareXid : stackXids (shareXid xid stack) = match stackXids stack with
      | [] => []
      | _ :: rest => xid :: rest := by
  cases stack with
  | nil => rfl
  | cons _ rest => rfl

theorem stackXids_updateTopLevel :
    stackXids (updateTopLevel (fun top => { top with transactionId := xid }) stack) =
      match stackXids stack with
      | [] => []
      | first :: rest => (first :: rest).dropLast ++ [xid] := by
  induction stack with
  | nil => rfl
  | cons _ rest ih =>
    cases rest with
    | nil => rfl
    | cons _ _ =>
      rw [updateTopLevel]
      · simp only [stackXids, map_cons] at ih ⊢
        rw [ih, dropLast_cons_cons, cons_append]
      · intro _
        contradiction

theorem topLevel_transactionId :
    (topLevel stack).map (fun top => top.transactionId) = (stackXids stack).getLast? := by
  induction stack with
  | nil => rfl
  | cons _ rest ih =>
    cases rest with
    | nil => rfl
    | cons _ _ =>
      rw [topLevel, ih]
      · simp [stackXids]
      · intro _
        contradiction

theorem SameXids.getTopLevelTransactionIdIfAny (same : SameXids left right) :
    right.getTopLevelTransactionIdIfAny = left.getTopLevelTransactionIdIfAny := by
  have read (backend : XactBackend) : backend.getTopLevelTransactionIdIfAny =
      ((stackXids backend.stack).getLast?).getD kInvalidTransactionId := by
    rw [← topLevel_transactionId, XactBackend.getTopLevelTransactionIdIfAny]
    cases topLevel backend.stack with
    | none => rfl
    | some _ => rfl
  rw [read, read, same.stack]

variable {backend : XactBackend}

theorem getCurrentTransactionId_eq (stack : backend.stack = current :: rest) :
    backend.getCurrentTransactionId =
      if transactionIdIsValid current.transactionId then (backend, .ok current.transactionId)
      else if transactionIdIsValid backend.getTopLevelTransactionIdIfAny then
        (backend.setStack (shareXid backend.getTopLevelTransactionIdIfAny backend.stack),
          .ok backend.getTopLevelTransactionIdIfAny)
      else if backend.nextXid == kInvalidTransactionId then
        ({ backend with nextXid := backend.nextXid + 1 }, .error "variable cache not initialized")
      else ({ backend with
            stack := shareXid backend.nextXid (updateTopLevel
              (fun top => { top with transactionId := backend.nextXid }) backend.stack)
            nextXid := backend.nextXid + 1
            log := (transactionIdSetInProgress backend.log backend.cache backend.nextXid).1
            cache := (transactionIdSetInProgress backend.log backend.cache backend.nextXid).2 },
          .ok backend.nextXid) := by
  unfold getCurrentTransactionId
  simp only [stack, allocateNextTransactionId]
  by_cases zero : (backend.nextXid == kInvalidTransactionId)
  · simp only [zero, if_true]
  · simp only [zero, Bool.false_eq_true, if_false]

theorem SameXids.getCurrentTransactionId (same : SameXids left right) (notEmpty : left.stack ≠ []) :
    right.getCurrentTransactionId.2 = left.getCurrentTransactionId.2 ∧
      SameXids left.getCurrentTransactionId.1 right.getCurrentTransactionId.1 := by
  have sameTop := same.getTopLevelTransactionIdIfAny
  obtain ⟨sameStack, sameNext, sameLog⟩ := same
  obtain ⟨current, _, leftStack⟩ := exists_cons_of_ne_nil notEmpty
  have rightNotEmpty : right.stack ≠ [] := by
    intro empty
    rw [empty, leftStack] at sameStack
    contradiction
  obtain ⟨rightCurrent, _, rightStack⟩ := exists_cons_of_ne_nil rightNotEmpty
  have heads : rightCurrent.transactionId = current.transactionId := by
    rw [leftStack, rightStack] at sameStack
    exact (List.cons.inj sameStack).1
  rw [getCurrentTransactionId_eq leftStack, getCurrentTransactionId_eq rightStack,
    heads, sameTop, sameNext, sameLog]
  split
  · exact ⟨rfl, sameStack, sameNext, sameLog⟩
  split
  · refine ⟨rfl, ?_, sameNext, sameLog⟩
    simp [setStack, stackXids_shareXid, sameStack]
  split
  · exact ⟨rfl, sameStack, rfl, rfl⟩
  · refine ⟨rfl, ?_, rfl, ?_⟩
    · simp [stackXids_shareXid, stackXids_updateTopLevel, sameStack]
    unfold transactionIdSetInProgress
    split
    · rfl
    · rfl

theorem assigned_of_getCurrentTransactionId (notEmpty : backend.stack ≠ [])
    (coherent : backend.cache.Coherent backend.log)
    (assigned : backend.getCurrentTransactionId.2 = .ok xid) : transactionIdIsValid xid ∧
      (stackXids backend.getCurrentTransactionId.1.stack).head? = some xid ∧
      backend.getCurrentTransactionId.1.getCurrentCommandId = backend.getCurrentCommandId ∧
      backend.getCurrentTransactionId.1.cache.Coherent backend.getCurrentTransactionId.1.log := by
  obtain ⟨current, rest, stack⟩ := exists_cons_of_ne_nil notEmpty
  rw [getCurrentTransactionId_eq stack] at assigned ⊢
  by_cases own : transactionIdIsValid current.transactionId
  · rw [if_pos own] at assigned ⊢
    cases assigned
    exact ⟨own, by simp [stackXids, stack], rfl, coherent⟩
  rw [if_neg own] at assigned ⊢
  by_cases shared : transactionIdIsValid backend.getTopLevelTransactionIdIfAny
  · rw [if_pos shared] at assigned ⊢
    cases assigned
    refine ⟨shared, ?_, ?_, coherent⟩
    · simp [setStack, stack, stackXids, shareXid]
    · simp [setStack, getCurrentCommandId, stack, shareXid]
  rw [if_neg shared] at assigned ⊢
  by_cases zero : (backend.nextXid == kInvalidTransactionId)
  · rw [if_pos zero] at assigned
    contradiction
  rw [if_neg zero] at assigned ⊢
  cases assigned
  refine ⟨?_, ?_, ?_, ?_⟩
  · simpa [transactionIdIsValid] using zero
  · rw [stackXids_shareXid, stackXids_updateTopLevel, stack]
    cases rest with
    | nil => rfl
    | cons next others => rfl
  · simp only [getCurrentCommandId, stack]
    cases rest with
    | nil => rfl
    | cons next others => rfl
  · dsimp only
    unfold transactionIdSetInProgress
    split
    · exact coherent
    · exact LogCache.coherent_setCommitLog coherent

/-- The session of an UPDATE after `increments` of the command counter.  Its
XIDs are those of `reference`. -/
structure Tracks (start : UpdateStart) (reference : XactBackend)
    (increments : Nat) (session : HeapSession) : Prop where
  notEmpty : session.backend.stack ≠ []
  same : SameXids reference session.backend
  command : session.backend.getCurrentCommandId =
    nextCommandId^[increments] start.backend.getCurrentCommandId
  snapshot : session.snapshot =
    if increments = 0 then start.snapshot
    else { start.snapshot with
      curcid := nextCommandId^[increments] start.backend.getCurrentCommandId }
  coherent : session.backend.cache.Coherent session.backend.log

theorem UpdateStart.tracks (start : UpdateStart) :
    Tracks start start.backend 0 start.toHeapSession :=
  ⟨start.inTransaction, .refl _, rfl, rfl, start.coherent⟩

theorem commandCounterIncrement_stack (stack : backend.stack = current :: rest) :
    backend.commandCounterIncrement = backend.setStack
        ({ current with commandId := nextCommandId current.commandId } :: rest) := by
  unfold commandCounterIncrement nextCommandId
  simp only [stack]
  split
  · rfl
  · simp [setStack, ← stack]

namespace Tracks

section

variable (tracks : Tracks start reference increments session)

include tracks

theorem increment : Tracks start reference (increments + 1) session.commandCounterIncrement := by
  obtain ⟨notEmpty, same, command, snapshot, coherent⟩ := tracks
  obtain ⟨current, rest, stack⟩ := exists_cons_of_ne_nil notEmpty
  have advanced : (session.backend.setStack
        ({ current with commandId := nextCommandId current.commandId } ::
          rest)).getCurrentCommandId =
      nextCommandId^[increments + 1] start.backend.getCurrentCommandId := by
    rw [iterate_succ_apply', ← command]
    simp [getCurrentCommandId, setStack, stack]
  unfold HeapSession.commandCounterIncrement
  simp only [stack, commandCounterIncrement_stack stack]
  refine ⟨cons_ne_nil _ _, ⟨?_, same.nextXid, same.log⟩, advanced, ?_, coherent⟩
  · rw [← same.stack, stack]
    rfl
  rw [advanced, snapshot]
  split
  · rfl
  · rfl

theorem iterate (count : Nat) : Tracks start reference (increments + count)
      (HeapSession.commandCounterIncrement^[count] session) := by
  induction count with
  | zero => exact tracks
  | succ count ih =>
    rw [iterate_succ_apply']
    exact ih.increment

theorem setPages (pages : List PageData) :
    Tracks start reference increments { session with pages := pages } :=
  ⟨tracks.notEmpty, tracks.same, tracks.command, tracks.snapshot, tracks.coherent⟩

theorem setCache (coherent : cache.Coherent session.backend.log) : Tracks start reference increments
      { session with backend := { session.backend with cache := cache } } :=
  ⟨tracks.notEmpty, ⟨tracks.same.stack, tracks.same.nextXid, tracks.same.log⟩,
    tracks.command, tracks.snapshot, coherent⟩

end

theorem assign (tracks : Tracks start start.backend increments session)
    (assigned : start.backend.getCurrentTransactionId.2 = .ok xid) :
    ∃ backend, session.backend.getCurrentTransactionId = (backend, .ok xid) ∧
      Tracks start start.backend.getCurrentTransactionId.1 increments
        { session with backend := backend } := by
  obtain ⟨sameXid, sameAfter⟩ := tracks.same.getCurrentTransactionId start.inTransaction
  have here := sameXid.trans assigned
  obtain ⟨_, head, command, coherent⟩ := assigned_of_getCurrentTransactionId
    tracks.notEmpty tracks.coherent here
  refine ⟨session.backend.getCurrentTransactionId.1, Prod.ext rfl here, ?_⟩
  refine ⟨?_, sameAfter, command.trans tracks.command, tracks.snapshot, coherent⟩
  intro empty
  rw [empty] at head
  contradiction

theorem asked (tracks : Tracks start start.backend.getCurrentTransactionId.1 increments session)
    (assigned : start.backend.getCurrentTransactionId.2 = .ok xid) :
    session.backend.getCurrentTransactionId = (session.backend, .ok xid) := by
  obtain ⟨valid, head, _, _⟩ := assigned_of_getCurrentTransactionId
    start.inTransaction start.coherent assigned
  obtain ⟨current, _, stack⟩ := exists_cons_of_ne_nil tracks.notEmpty
  have isXid : current.transactionId = xid := by
    rw [← tracks.same.stack, stack] at head
    exact Option.some.inj head
  rw [getCurrentTransactionId_eq stack, isXid, if_pos valid]

end Tracks

end Pgcpp.Executor
