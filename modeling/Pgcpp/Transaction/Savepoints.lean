import Pgcpp.Transaction.XactBlocks

/-!
# Work rolled back to a savepoint

A session is one backend that runs transactions with savepoints over a table of
tuples.  Subtransactions share the XID of the transaction, so only command ids
tell their work apart, and a rollback winds the command counter back.  Nothing
in the tuples is undone.
-/

namespace Pgcpp.Transaction

/-- A stored tuple with a ghost record of the work on it.  The place of an
insert or delete is the number of stack entries that were open when it was done
and still are. -/
structure TrackedTuple where
  header : HeapTupleHeaderData
  insertedIn : Nat
  deletedIn : List Nat
  insertUndone : Bool
  deriving DecidableEq

variable (tuple : TrackedTuple)

namespace TrackedTuple

/-- Entries deeper than `depth` have been closed. -/
def settle (depth : Nat) : TrackedTuple :=
  { tuple with
    insertedIn := min tuple.insertedIn depth, deletedIn := tuple.deletedIn.map (min · depth) }

/-- Inserted, and not undone yet, since the entry `level` was opened. -/
def insertedSince (level : Nat) : Bool :=
  !tuple.insertUndone && level ≤ tuple.insertedIn

/-- Deleted since the entry `level` was opened. -/
def deletedSince (level : Nat) : Bool :=
  tuple.deletedIn.any fun depth => level ≤ depth

/-- The work since the entry `level` was opened counts as undone. -/
def undo (level : Nat) : TrackedTuple :=
  { tuple with
    deletedIn := tuple.deletedIn.filter (· < level)
    insertUndone := tuple.insertUndone || level ≤ tuple.insertedIn }

end TrackedTuple

/-- A snapshot taken now, by the only backend there is. -/
def XactBackend.takeSnapshot (backend : XactBackend) : SnapshotData :=
  finishSnapshot
    ([backend.getTopLevelTransactionIdIfAny].filter transactionIdIsValid)
    backend.nextXid (getCurrentTransactionIdIfAny backend.visibilityStack)
    backend.getCurrentCommandId

structure Session where
  backend : XactBackend
  tuples : List TrackedTuple

inductive SavepointOp where
  | beginBlock
  | savepoint (name : String)
  | release (name : String)
  | rollbackTo (name : String)
  | heapInsert (hasNull hasVarWidth : Bool) (natts : BitVec 16) (hoff : BitVec 8)
  | heapDelete (index : Nat)
  | commandCounterIncrement
  | commit
  deriving DecidableEq

namespace Session

def initial : Session := { backend := .initial, tuples := [] }

section

variable (session : Session)

/-- The session after a call of the transaction manager. -/
def settle (backend : XactBackend) : Session :=
  { backend := backend, tuples := session.tuples.map (·.settle backend.stack.length) }

/-- The part that `heap_insert` and `heap_delete` share: the XID is asked for,
the tuple written, and the command counter incremented. -/
def writeTuple (write : XactBackend → TransactionId → List TrackedTuple) : Option Session :=
  if session.backend.stack = [] then none
  else
    match session.backend.getCurrentTransactionId with
    | (backend, .error _) => some { session with backend := backend }
    | (backend, .ok xid) =>
      some { backend := backend.commandCounterIncrement, tuples := write backend xid }

def heapInsert (hasNull hasVarWidth : Bool) (natts : BitVec 16) (hoff : BitVec 8) :
    Option Session :=
  session.writeTuple fun backend xid =>
    session.tuples ++
      [{ header := heapInsertHeader xid backend.getCurrentCommandId hasNull hasVarWidth natts hoff
         insertedIn := backend.stack.length, deletedIn := [], insertUndone := false }]

def deletedTuple (backend : XactBackend) (xid : TransactionId) : TrackedTuple :=
  { tuple with
    header := heapDeleteHeader tuple.header xid backend.getCurrentCommandId
    deletedIn := backend.stack.length :: tuple.deletedIn }

/-- The tuple need not be visible. -/
def heapDelete (index : Nat) : Option Session :=
  match session.tuples[index]? with
  | none => none
  | some tuple =>
    session.writeTuple fun backend xid => session.tuples.set index (deletedTuple tuple backend xid)

/-- `RollbackToSavepoint`; the new subtransaction has the place of the
savepoint. -/
def rollbackTo (name : String) : Session :=
  match session.backend.rollbackToSavepoint name with
  | (backend, .returned true) =>
    settle
      { session with
        tuples := session.tuples.map (·.undo backend.stack.length) }
      backend
  | (backend, _) => session.settle backend

def step : SavepointOp → Option Session
  | .beginBlock => some (session.settle session.backend.beginTransactionBlock.1)
  | .savepoint name => some (session.settle (session.backend.beginSavepoint name).1)
  | .release name => some (session.settle (session.backend.releaseSavepoint name).1)
  | .rollbackTo name => some (session.rollbackTo name)
  | .heapInsert hasNull hasVarWidth natts hoff => session.heapInsert hasNull hasVarWidth natts hoff
  | .heapDelete index => session.heapDelete index
  | .commandCounterIncrement => some (session.settle session.backend.commandCounterIncrement)
  | .commit => some (session.settle session.backend.endTransactionBlock.1)

def visible (tuple : TrackedTuple) : Bool :=
  (heapTupleSatisfiesMVCC session.backend.log session.backend.visibilityStack
    session.backend.takeSnapshot session.backend.cache tuple.header).visible

/-- A tuple whose insertion was undone is invisible, and any other tuple is
visible if all its deletions were undone. -/
def UndoneForGood : Prop :=
  ∀ tuple ∈ session.tuples,
    (tuple.insertUndone → session.visible tuple = false) ∧
    (tuple.insertUndone = false → tuple.deletedIn = [] → session.visible tuple)

end

end Session

/-- The condition on a step.  A rollback leaves nothing to undo: the tuples
inserted since the savepoint are the tuples deleted since.  And the XIDs that
are assigned fit into the commit log. -/
def SavepointSafe (session : Session) : SavepointOp → Prop
  | .rollbackTo name =>
    match savepointIndex name session.backend.stack with
    | none => True
    | some index =>
      ∀ tuple ∈ session.tuples,
        tuple.insertedSince (session.backend.stack.length - index) =
          tuple.deletedSince (session.backend.stack.length - index)
  | .heapInsert .. | .heapDelete _ =>
    transactionIdIsValid session.backend.getTopLevelTransactionIdIfAny ∨
      session.backend.nextXid.toNat < kMaxXids
  | _ => True

instance (session : Session) (op : SavepointOp) : Decidable (SavepointSafe session op) := by
  cases op <;> dsimp only [SavepointSafe] <;> first | infer_instance | split <;> infer_instance

/-- The command id lies before every subtransaction deeper than `depth`. -/
def CidBefore (depth : Nat) (cid : CommandId) : List XactStateData → Prop
  | [] => True
  | entry :: rest =>
    (depth ≤ rest.length → cid ≤ entry.commandIdBeforeSubxact) ∧ CidBefore depth cid rest

/-- A command in the entry `depth` had the command id. -/
def CidFits (depth : Nat) (cid : CommandId) : List XactStateData → Prop
  | [] => True
  | current :: rest => cid ≤ current.commandId ∧ CidBefore depth cid (current :: rest)

theorem CidBefore.deepen (before : CidBefore depth cid stack)
    (less : depth ≤ deeper) : CidBefore deeper cid stack := by
  induction stack with
  | nil => trivial
  | cons _ _ ih =>
    refine ⟨?_, ih before.2⟩
    intro _
    exact before.1 (by omega)

theorem CidBefore.of_length (long : stack.length ≤ depth) : CidBefore depth cid stack := by
  induction stack with
  | nil => trivial
  | cons _ _ ih =>
    simp only [List.length_cons] at long
    refine ⟨?_, ih (by omega)⟩
    intro _
    omega

section

variable (fits : CidFits depth cid stack)

include fits

theorem CidFits.before : CidBefore depth cid stack := by
  cases stack with
  | nil => trivial
  | cons _ _ => exact fits.2

theorem CidFits.deepen (less : depth ≤ deeper) : CidFits deeper cid stack := by
  cases stack with
  | nil => trivial
  | cons _ _ => exact ⟨fits.1, fits.2.deepen less⟩

theorem CidFits.settle : CidFits (min depth stack.length) cid stack := by
  cases stack with
  | nil => trivial
  | cons entry rest =>
    refine ⟨fits.1, ?_⟩
    by_cases less : depth ≤ (entry :: rest).length
    · rw [min_eq_left less]
      exact fits.2
    · rw [min_eq_right (by omega)]
      exact CidBefore.of_length le_rfl

theorem CidFits.commitSub : CidFits depth cid (commitSubTransaction stack) := by
  match stack, fits with
  | [], _ => trivial
  | [_], fits => exact fits
  | _ :: _ :: _, fits => exact ⟨fits.1, fits.2.2⟩

theorem CidFits.commitSubs : CidFits depth cid (commitSubTransaction^[rounds] stack) := by
  induction rounds generalizing stack with
  | zero => exact fits
  | succ rounds ih => exact ih fits.commitSub

end

/-- A rollback leaves the command id of the savepoint it goes back to: work in
a shallower entry was done before. -/
theorem CidFits.abortSubs {index : Nat} (inside : index + 1 < stack.length)
    (shallow : depth < stack.length - index) (before : CidBefore depth cid stack) :
    CidFits depth cid (abortSubTransaction^[index + 1] stack) := by
  induction index generalizing stack with
  | zero =>
    match stack, before with
    | _ :: _ :: rest, before =>
      refine ⟨before.1 ?_, before.2⟩
      simp only [List.length_cons] at shallow ⊢
      omega
  | succ index ih =>
    match stack, before with
    | _ :: _ :: rest, before =>
      simp only [List.length_cons] at inside shallow
      apply ih
      · simp only [abortSubTransaction, List.length_cons]
        omega
      · simp only [abortSubTransaction, List.length_cons]
        omega
      · exact before.2

theorem length_shareXid : (shareXid xid stack).length = stack.length := by
  cases stack <;> rfl

theorem length_updateTopLevel : (updateTopLevel change stack).length = stack.length := by
  induction stack with
  | nil => rfl
  | cons _ rest ih =>
    cases rest with
    | nil => rfl
    | cons _ rest => simpa [updateTopLevel] using ih

theorem length_abortSubs (inside : index + 1 < stack.length) :
    (abortSubTransaction^[index + 1] stack).length = stack.length - (index + 1) := by
  induction index generalizing stack with
  | zero => rw [Function.iterate_one, length_abortSubTransaction, if_pos inside]
  | succ index ih =>
    rw [Function.iterate_succ_apply, ih]
    all_goals rw [length_abortSubTransaction, if_pos (by omega)]; omega

end Pgcpp.Transaction
