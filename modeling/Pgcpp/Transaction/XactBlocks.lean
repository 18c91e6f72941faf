import Pgcpp.Transaction.Xact

/-!
# Failed transaction blocks

A history records whether the current block has failed and the XIDs of the
failed blocks that have ended.  An error in the top-level transaction leaves
the block in the state `abortPending`, from which it can only abort.  An error
in a subtransaction pops the subtransaction and leaves nothing behind.
-/

namespace Pgcpp.Transaction

open Lib TBlockState
open XactBackend hiding stack nextXid log

inductive XactOp where
  | beginTransactionBlock
  | startTransactionCommand
  | commitTransactionCommand
  | commandCounterIncrement
  | getCurrentTransactionId
  | beginSavepoint (name : String)
  | releaseSavepoint (name : String)
  | rollbackToSavepoint (name : String)
  | abortCurrentTransaction
  | endTransactionBlock
  | abortTransactionBlock
  deriving DecidableEq

def xactCall (backend : XactBackend) : XactOp → XactBackend × XactReply
  | .beginTransactionBlock => backend.beginTransactionBlock
  | .startTransactionCommand => (backend.startTransactionCommand, .returned true)
  | .commitTransactionCommand => backend.commitTransactionCommand
  | .commandCounterIncrement => (backend.commandCounterIncrement, .returned true)
  | .getCurrentTransactionId =>
    match backend.getCurrentTransactionId with
    | (backend, .ok _) => (backend, .returned true)
    | (backend, .error text) => (backend, .error text)
  | .beginSavepoint name => backend.beginSavepoint name
  | .releaseSavepoint name => backend.releaseSavepoint name
  | .rollbackToSavepoint name => backend.rollbackToSavepoint name
  | .abortCurrentTransaction => backend.abortCurrentTransaction
  | .endTransactionBlock => backend.endTransactionBlock
  | .abortTransactionBlock => backend.abortTransactionBlock

/-- The backend as `InitializeTransactionSystem` leaves it. -/
def XactBackend.initial : XactBackend :=
  { stack := [], nextSubTransactionId := kTopSubTransactionId + 1
    nextXid := kFirstNormalTransactionId, log := fun _ => .inProgress, cache := .empty }

/-- A backend with a ghost record of errors.  A failure is the number of stack
entries that were open when it happened and still are. -/
structure XactHistory where
  backend : XactBackend
  failures : List Nat
  endedFailed : List TransactionId

def XactHistory.initial : XactHistory := { backend := .initial, failures := [], endedFailed := [] }

namespace XactHistory

section

variable (history : XactHistory)

/-- A block fails when `AbortCurrentTransaction` is called inside it, until a
rollback to a savepoint that was open then succeeds. -/
def failuresAfter (op : XactOp) : List Nat :=
  let result := xactCall history.backend op
  match op with
  | .abortCurrentTransaction =>
    if history.backend.isTransactionBlock then history.failures ++ [result.1.stack.length]
    else history.failures
  | .rollbackToSavepoint _ =>
    -- the new subtransaction has the place of the savepoint
    if result.2 = .returned true then history.failures.filter (· < result.1.stack.length)
    else history.failures
  | _ => history.failures

/-- The history with the backend a call leaves; the block ends when the stack
is empty. -/
def settle (backend : XactBackend) (failures : List Nat) : XactHistory :=
  if backend.stack = [] then
    { backend := backend, failures := []
      endedFailed :=
        if failures = [] then history.endedFailed
        else history.endedFailed ++ [history.backend.getTopLevelTransactionIdIfAny] }
  else
    { history with
      backend := backend, failures := failures.map (min · backend.stack.length) }

def step (op : XactOp) : XactHistory :=
  history.settle (xactCall history.backend op).1 (history.failuresAfter op)

/-- The XIDs of the blocks that have failed; `kInvalidTransactionId` stands
for a block without one. -/
def failedXids : List TransactionId :=
  if history.failures = [] then history.endedFailed
  else history.endedFailed ++ [history.backend.getTopLevelTransactionIdIfAny]

/-- No failed block is recorded as committed. -/
def FailedBlocksUncommitted : Prop :=
  ∀ xid ∈ history.failedXids, fetchFromCommitLog history.backend.log xid ≠ .committed

end

end XactHistory

/-- The condition on a step: an error is reported while no subtransaction is
open, or in a block that waits for its abort already; and the counter of XIDs
does not wrap around. -/
def XactSafe (history : XactHistory) : XactOp → Prop
  | .abortCurrentTransaction =>
    history.backend.stack.length ≤ 1 ∨
      (topLevel history.backend.stack).map XactStateData.blockState = some .abortPending
  | .getCurrentTransactionId => history.backend.nextXid.toNat + 1 < 2 ^ 32
  | _ => True

instance (history : XactHistory) (op : XactOp) : Decidable (XactSafe history op) := by
  cases op <;> dsimp only [XactSafe] <;> infer_instance

/-! ## The shape of the stack -/

/-- A stack of subtransactions over a top-level transaction with the given
block state and XID. -/
def WellNested (blockState : TBlockState) (xid : TransactionId) : List XactStateData → Prop
  | [] => False
  | [top] => top.blockState = blockState ∧ top.transactionId = xid
  | sub :: parent :: rest =>
    sub.blockState = .subInProgress ∧
    (sub.transactionId = kInvalidTransactionId ∨ sub.transactionId = xid) ∧
    WellNested blockState xid (parent :: rest)

namespace WellNested

section

variable (nested : WellNested blockState xid (entry :: rest))

include nested

theorem replaceHead (sameState : other.blockState = entry.blockState)
    (sameXid : other.transactionId = entry.transactionId) :
    WellNested blockState xid (other :: rest) := by
  cases rest with
  | nil => exact ⟨sameState.trans nested.1, sameXid.trans nested.2⟩
  | cons _ rest =>
    obtain ⟨inProgress, shared, below⟩ := nested
    refine ⟨sameState.trans inProgress, ?_, below⟩
    rw [sameXid]
    exact shared

theorem head_xid : entry.transactionId = kInvalidTransactionId ∨ entry.transactionId = xid := by
  cases rest with
  | nil => exact .inr nested.2
  | cons _ rest => exact nested.2.1

theorem push (inProgress : sub.blockState = .subInProgress)
    (shared : sub.transactionId = entry.transactionId) :
    WellNested blockState xid (sub :: entry :: rest) := by
  refine ⟨inProgress, ?_, nested⟩
  rw [shared]
  exact nested.head_xid

end

theorem commitSub (nested : WellNested blockState xid stack) :
    WellNested blockState xid (commitSubTransaction stack) := by
  match stack, nested with
  | [top], nested => exact nested
  | _ :: _ :: _, nested => exact nested.2.2.replaceHead rfl rfl

theorem abortSub (nested : WellNested blockState xid stack) :
    WellNested blockState xid (abortSubTransaction stack) := by
  match stack, nested with
  | [top], nested => exact nested
  | _ :: _ :: _, nested => exact nested.2.2.replaceHead rfl rfl

theorem iterate (kept : ∀ stack, WellNested blockState xid stack →
      WellNested blockState xid (change stack))
    (nested : WellNested blockState xid stack) (rounds : Nat) :
    WellNested blockState xid (change^[rounds] stack) := by
  induction rounds generalizing stack with
  | zero => exact nested
  | succ rounds ih => exact ih (kept stack nested)

theorem topLevel_eq (nested : WellNested blockState xid stack) :
    ∃ top, topLevel stack = some top ∧ top.blockState = blockState ∧ top.transactionId = xid := by
  induction stack with
  | nil => exact nested.elim
  | cons entry rest ih =>
    cases rest with
    | nil => exact ⟨entry, rfl, nested⟩
    | cons _ rest => exact ih nested.2.2

theorem getTopLevel {backend : XactBackend} (nested : WellNested blockState xid backend.stack) :
    backend.getTopLevelTransactionIdIfAny = xid := by
  obtain ⟨_, found, _, isXid⟩ := nested.topLevel_eq
  simp [getTopLevelTransactionIdIfAny, found, isXid]

theorem current (nested : WellNested blockState xid stack) :
    (∃ top, stack = [top] ∧ top.blockState = blockState ∧ top.transactionId = xid) ∨
    ∃ sub parent rest, stack = sub :: parent :: rest ∧ sub.blockState = .subInProgress := by
  match stack, nested with
  | [top], nested => exact .inl ⟨top, rfl, nested⟩
  | sub :: parent :: rest, nested => exact .inr ⟨sub, parent, rest, rfl, nested.1⟩

theorem abortSubs (nested : WellNested blockState xid stack) (rounds : Nat) :
    WellNested blockState xid (abortSubTransactions rounds stack) := by
  induction rounds generalizing stack with
  | zero => exact nested
  | succ rounds ih =>
    simp only [abortSubTransactions]
    split
    · exact ih nested.abortSub
    · exact nested

end WellNested

theorem length_abortSubTransaction : (abortSubTransaction stack).length =
      if 1 < stack.length then stack.length - 1 else stack.length := by
  match stack with
  | [] => rfl
  | [_] => rfl
  | _ :: _ :: _ => simp [abortSubTransaction]

theorem length_abortSubTransactions (enough : stack.length ≤ rounds + 1) :
    (abortSubTransactions rounds stack).length ≤ 1 := by
  induction rounds generalizing stack with
  | zero => exact enough
  | succ rounds ih =>
    simp only [abortSubTransactions]
    split
    next more =>
      apply ih
      rw [length_abortSubTransaction, if_pos more]
      omega
    · omega

/-! ## What a call does to the block -/

def recordedLog (log : CommitLog) (xid : TransactionId) (status : XidStatus) : CommitLog :=
  if transactionIdIsValid xid then setCommitLog log xid status else log

/-- What the calls other than `AbortCurrentTransaction` and
`GetCurrentTransactionId` do to a block: it stays as it is, its first command
starts, or it ends.  A block that waits for its abort does not commit. -/
inductive BlockMove (backend : XactBackend) (blockState : TBlockState)
    (xid : TransactionId) (after : XactBackend) : Prop where
  | stay (nextXid : after.nextXid = backend.nextXid) (log : after.log = backend.log)
      (nested : WellNested blockState xid after.stack)
  | advance (nextXid : after.nextXid = backend.nextXid) (log : after.log = backend.log)
      (notPending : blockState ≠ .abortPending) (nested : WellNested .inProgress xid after.stack)
  | commit (nextXid : after.nextXid = backend.nextXid)
      (log : after.log = recordedLog backend.log xid .committed)
      (notPending : blockState ≠ .abortPending) (ended : after.stack = [])
  | abort (nextXid : after.nextXid = backend.nextXid)
      (log : after.log = recordedLog backend.log xid .aborted) (ended : after.stack = [])

/-- The block states a call leaves. -/
def TBlockState.betweenCalls (blockState : TBlockState) : Prop :=
  blockState = .started ∨ blockState = .begin ∨ blockState = .inProgress ∨
    blockState = .abortPending

/-- An XID is unassigned or normal. -/
def Usable (xid : TransactionId) : Prop :=
  transactionIdIsValid xid → transactionIdIsNormal xid

section

variable {backend : XactBackend}

theorem finishTransaction_single (records : Records record status)
    (single : backend.stack = [current]) (usable : Usable current.transactionId) :
    (finishTransaction record finishing backend).1.stack = [] ∧
      (finishTransaction record finishing backend).1.log =
        recordedLog backend.log current.transactionId status ∧
      (finishTransaction record finishing backend).1.nextXid = backend.nextXid := by
  unfold finishTransaction recordedLog
  rw [single]
  simp only
  split
  next valid =>
    rw [records _ _ _ (usable valid)]
    exact ⟨rfl, rfl, rfl⟩
  · exact ⟨rfl, rfl, rfl⟩

theorem BlockMove.of_setStack (move : BlockMove (backend.setStack stack) blockState xid after) :
    BlockMove backend blockState xid after := by
  cases move with
  | stay nextXid log nested => exact .stay nextXid log nested
  | advance nextXid log notPending nested => exact .advance nextXid log notPending nested
  | commit nextXid log notPending ended => exact .commit nextXid log notPending ended
  | abort nextXid log ended => exact .abort nextXid log ended

theorem commitTransaction_move
    (single : backend.stack = [current]) (isXid : current.transactionId = xid)
    (usable : Usable xid) (notPending : blockState ≠ .abortPending) :
    BlockMove backend blockState xid backend.commitTransaction.1 := by
  subst isXid
  obtain ⟨ended, log, nextXid⟩ := finishTransaction_single
    records_transactionIdCommit single usable
  exact .commit nextXid log notPending ended

theorem abortTransaction_move (single : backend.stack = [current])
    (isXid : current.transactionId = xid) (usable : Usable xid) :
    BlockMove backend blockState xid backend.abortTransaction.1 := by
  subst isXid
  obtain ⟨ended, log, nextXid⟩ := finishTransaction_single
    records_transactionIdAbort single usable
  exact .abort nextXid log ended

theorem thenFalse_fst : (thenFalse result).1 = result.1 := by
  unfold thenFalse
  split <;> rfl

theorem setBlockState_single (single : backend.stack = [current]) : backend.setBlockState changed =
      { backend with stack := [{ current with blockState := changed }] } := by
  simp [setBlockState, single, setStack]

variable (nested : WellNested blockState xid backend.stack)

include nested

theorem commandCounterIncrement_move :
    BlockMove backend blockState xid backend.commandCounterIncrement := by
  unfold commandCounterIncrement
  cases stack : backend.stack with
  | nil => exact .stay rfl rfl nested
  | cons _ _ =>
    simp only
    split
    · rw [stack] at nested
      exact .stay rfl rfl (nested.replaceHead rfl rfl)
    · exact .stay rfl rfl nested

theorem startSubTransaction_move (savepointLevel : XactStateData → Nat) :
    BlockMove backend blockState xid (backend.startSubTransaction name savepointLevel).1 := by
  unfold startSubTransaction
  cases stack : backend.stack with
  | nil => exact .stay rfl rfl nested
  | cons _ _ =>
    rw [stack] at nested
    exact .stay rfl rfl (nested.push rfl rfl)

theorem beginSavepoint_move : BlockMove backend blockState xid (backend.beginSavepoint name).1 := by
  unfold beginSavepoint
  split
  · exact .stay rfl rfl nested
  · exact startSubTransaction_move nested _

theorem releaseSavepoint_move :
    BlockMove backend blockState xid (backend.releaseSavepoint name).1 := by
  unfold releaseSavepoint withSavepoint
  split
  · exact .stay rfl rfl nested
  split
  · exact .stay rfl rfl nested
  next index _ => exact .stay rfl rfl (nested.iterate (fun _ kept => kept.commitSub) (index + 1))

theorem rollbackToSavepoint_move :
    BlockMove backend blockState xid (backend.rollbackToSavepoint name).1 := by
  unfold rollbackToSavepoint withSavepoint
  split
  · exact .stay rfl rfl nested
  split
  · exact .stay rfl rfl nested
  next index _ =>
    have popped := nested.iterate (fun _ kept => kept.abortSub) (index + 1)
    apply BlockMove.of_setStack
    exact startSubTransaction_move popped fun _ => 0

theorem beginTransactionBlock_move :
    BlockMove backend blockState xid backend.beginTransactionBlock.1 := by
  rcases nested.current with ⟨_, single, isState, isXid⟩ | ⟨_, _, _, stack, inSub⟩
  · simp only [beginTransactionBlock, single]
    split
    next started =>
      rw [setBlockState_single single]
      refine .advance rfl rfl ?_ ⟨rfl, isXid⟩
      rw [← isState, started]
      exact noConfusion
    · exact .stay rfl rfl nested
  · simp only [beginTransactionBlock, stack, inSub]
    exact .stay rfl rfl nested

theorem startTransactionCommand_move :
    BlockMove backend blockState xid backend.startTransactionCommand := by
  rcases nested.current with ⟨_, single, isState, isXid⟩ | ⟨_, _, _, stack, inSub⟩
  · simp only [startTransactionCommand, single]
    split
    next started =>
      rw [setBlockState_single single]
      refine .advance rfl rfl ?_ ⟨rfl, isXid⟩
      rw [← isState, started]
      exact noConfusion
    · exact .stay rfl rfl nested
  · simp only [startTransactionCommand, stack, inSub]
    exact .stay rfl rfl nested

section

variable (between : blockState.betweenCalls)

include between

theorem commitTransactionCommand_move (usable : Usable xid) :
    BlockMove backend blockState xid backend.commitTransactionCommand.1 := by
  have counted := commandCounterIncrement_move nested
  rcases nested.current with ⟨_, single, isState, isXid⟩ | ⟨_, _, _, stack, inSub⟩
  · simp only [commitTransactionCommand, single, isState]
    rcases between with rfl | rfl | rfl | rfl
    · exact commitTransaction_move single isXid usable noConfusion
    all_goals exact counted
  · simp only [commitTransactionCommand, stack, inSub]
    exact counted

theorem endTransactionBlock_move (usable : Usable xid) :
    BlockMove backend blockState xid backend.endTransactionBlock.1 := by
  rcases nested.current with ⟨_, single, isState, isXid⟩ | ⟨_, _, _, stack, inSub⟩
  · simp only [endTransactionBlock, single, isState]
    have committed : blockState ≠ .abortPending → BlockMove backend blockState xid
          (backend.setBlockState .endBlock).commitTransaction.1 := by
      intro notPending
      rw [setBlockState_single single]
      exact BlockMove.of_setStack (commitTransaction_move rfl isXid usable notPending)
    rcases between with rfl | rfl | rfl | rfl
    · exact commitTransaction_move single isXid usable noConfusion
    · exact committed noConfusion
    · exact committed noConfusion
    simp only [thenFalse_fst]
    rw [setBlockState_single single]
    exact BlockMove.of_setStack (abortTransaction_move rfl isXid usable)
  · simp only [endTransactionBlock, stack, inSub]
    exact .stay rfl rfl nested

theorem abortTransactionBlock_move (usable : Usable xid) :
    BlockMove backend blockState xid backend.abortTransactionBlock.1 := by
  rcases nested.current with ⟨top, single, isState, isXid⟩ | ⟨_, _, _, stack, inSub⟩
  · simp only [abortTransactionBlock, single, isState]
    have aborted : BlockMove backend blockState xid
        (backend.setBlockState .abort).abortTransaction.1 := by
      rw [setBlockState_single single]
      exact BlockMove.of_setStack (abortTransaction_move rfl isXid usable)
    rcases between with rfl | rfl | rfl | rfl
    · exact aborted
    · exact aborted
    · exact aborted
    · exact abortTransaction_move single isXid usable
  · simp only [abortTransactionBlock, stack, inSub]
    have popped := nested.abortSubs backend.stack.length
    have atTop := @length_abortSubTransactions backend.stack.length backend.stack (by omega)
    rw [stack] at popped atTop
    apply BlockMove.of_setStack
    rcases popped.current with ⟨top, single, _, isXid⟩ | ⟨_, _, _, longer, _⟩
    · exact abortTransaction_move single isXid usable
    · rw [longer] at atTop
      simp at atTop

end

end

theorem xactCall_move (nested : WellNested blockState xid backend.stack)
    (between : blockState.betweenCalls) (usable : Usable xid)
    (noError : op ≠ .abortCurrentTransaction) (noXid : op ≠ .getCurrentTransactionId) :
    BlockMove backend blockState xid (xactCall backend op).1 := by
  cases op with
  | beginTransactionBlock => exact beginTransactionBlock_move nested
  | startTransactionCommand => exact startTransactionCommand_move nested
  | commitTransactionCommand => exact commitTransactionCommand_move nested between usable
  | commandCounterIncrement => exact commandCounterIncrement_move nested
  | getCurrentTransactionId => exact absurd rfl noXid
  | beginSavepoint name => exact beginSavepoint_move nested
  | releaseSavepoint name => exact releaseSavepoint_move nested
  | rollbackToSavepoint name => exact rollbackToSavepoint_move nested
  | abortCurrentTransaction => exact absurd rfl noError
  | endTransactionBlock => exact endTransactionBlock_move nested between usable
  | abortTransactionBlock => exact abortTransactionBlock_move nested between usable

/-- An error in a block without open subtransactions, or in one that waits for
its abort: afterwards the block waits for its abort or has ended. -/
theorem abortCurrentTransaction_move (nested : WellNested blockState xid backend.stack)
    (between : blockState.betweenCalls) (usable : Usable xid) (safe : backend.stack.length ≤ 1 ∨
      (topLevel backend.stack).map XactStateData.blockState = some .abortPending) :
    BlockMove backend .abortPending xid backend.abortCurrentTransaction.1 := by
  rcases nested.current with ⟨top, single, isState, isXid⟩ | ⟨_, _, _, stack, inSub⟩
  · simp only [abortCurrentTransaction, single, isState]
    have pending : BlockMove backend .abortPending xid (backend.setBlockState .abortPending) := by
      rw [setBlockState_single single]
      exact .stay rfl rfl ⟨rfl, isXid⟩
    rcases between with rfl | rfl | rfl | rfl
    · exact abortTransaction_move single isXid usable
    · exact pending
    · exact pending
    · exact .stay rfl rfl nested
  obtain rfl : blockState = .abortPending := by
    rcases safe with short | atTop
    · simp [stack] at short
    obtain ⟨top, found, isState, _⟩ := nested.topLevel_eq
    rw [found] at atTop
    rw [← isState]
    exact Option.some.inj atTop
  simp only [abortCurrentTransaction, stack, inSub, setBlockState]
  rw [stack] at nested
  exact .stay rfl rfl (nested.2.2.replaceHead rfl rfl)

/-! ## The assignment of an XID -/

namespace WellNested

theorem updateTop (nested : WellNested blockState kInvalidTransactionId stack)
    (xid : TransactionId) : WellNested blockState xid (updateTopLevel
      (fun top => { top with transactionId := xid }) stack) := by
  induction stack with
  | nil => exact nested
  | cons _ rest ih =>
    cases rest with
    | nil => exact ⟨nested.1, rfl⟩
    | cons _ rest =>
      have below := ih nested.2.2
      have unassigned := nested.2.1.elim id id
      cases rest with
      | nil => exact ⟨nested.1, .inl unassigned, below⟩
      | cons _ rest => exact ⟨nested.1, .inl unassigned, below⟩

theorem share (nested : WellNested blockState xid stack) :
    WellNested blockState xid (shareXid xid stack) := by
  match stack, nested with
  | [_], nested => exact ⟨nested.1, rfl⟩
  | _ :: _ :: _, nested => exact ⟨nested.1, .inr rfl, nested.2.2⟩

end WellNested

theorem getCurrentTransactionId_move
    (nested : WellNested blockState xid backend.stack) (started : 3 ≤ backend.nextXid.toNat) :
    BlockMove backend blockState xid backend.getCurrentTransactionId.1 ∨
    transactionIdIsValid xid = false ∧ WellNested blockState backend.nextXid
        backend.getCurrentTransactionId.1.stack ∧
      backend.getCurrentTransactionId.1.nextXid = backend.nextXid + 1 ∧
      backend.getCurrentTransactionId.1.log =
        setCommitLog backend.log backend.nextXid .inProgress := by
  have isTop := nested.getTopLevel
  unfold getCurrentTransactionId
  cases stack : backend.stack with
  | nil => exact .inl (.stay rfl rfl nested)
  | cons _ _ =>
    simp only [isTop, ← stack]
    split
    · exact .inl (.stay rfl rfl nested)
    split
    · exact .inl (.stay rfl rfl nested.share)
    next unassigned =>
      right
      have invalid : xid = kInvalidTransactionId := by simpa [transactionIdIsValid] using unassigned
      have normal : transactionIdIsNormal backend.nextXid :=
        transactionIdIsNormal_iff.2 started
      have notZero : ¬ backend.nextXid = kInvalidTransactionId := by
        have valid := transactionIdIsValid_of_normal normal
        simpa [transactionIdIsValid] using valid
      subst invalid
      refine ⟨rfl, ?_⟩
      simp only [allocateNextTransactionId, beq_iff_eq, notZero, if_false,
        transactionIdSetInProgress, normal, Bool.not_true, Bool.false_eq_true, and_true]
      exact (nested.updateTop backend.nextXid).share

/-! ## The invariant -/

/-- What holds of the current block: an error leaves it waiting for its abort,
and its XID is new. -/
structure BlockInvariant (history : XactHistory) (blockState : TBlockState)
    (xid : TransactionId) : Prop where
  nested : WellNested blockState xid history.backend.stack
  between : blockState.betweenCalls
  pending : history.failures ≠ [] → blockState = .abortPending
  usable : Usable xid
  allocated : xid.toNat < history.backend.nextXid.toNat
  fresh : transactionIdIsValid xid → xid ∉ history.endedFailed
  uncommitted : fetchFromCommitLog history.backend.log xid ≠ .committed

structure XactInvariant (history : XactHistory) : Prop where
  counter : 3 ≤ history.backend.nextXid.toNat
  unassigned : fetchFromCommitLog history.backend.log kInvalidTransactionId ≠ .committed
  ended : ∀ xid ∈ history.endedFailed, xid.toNat < history.backend.nextXid.toNat ∧
      fetchFromCommitLog history.backend.log xid ≠ .committed
  block : history.backend.stack = [] ∧ history.failures = [] ∨
    ∃ blockState xid, BlockInvariant history blockState xid

theorem XactInvariant.failedBlocksUncommitted (invariant : XactInvariant history) :
    history.FailedBlocksUncommitted := by
  intro xid mem
  unfold XactHistory.failedXids at mem
  split at mem
  · exact (invariant.ended xid mem).2
  next failed =>
    rcases List.mem_append.1 mem with ended | current
    · exact (invariant.ended xid ended).2
    rcases invariant.block with ⟨_, notFailed⟩ | ⟨_, _, block⟩
    · exact absurd notFailed failed
    rw [List.mem_singleton, block.nested.getTopLevel] at current
    rw [current]
    exact block.uncommitted

theorem uncommitted_recordedLog (uncommitted : fetchFromCommitLog log other ≠ .committed)
    (harmless : status ≠ .committed ∨ (transactionIdIsValid xid → other ≠ xid)) :
    fetchFromCommitLog (recordedLog log xid status) other ≠ .committed := by
  unfold recordedLog
  split
  next valid =>
    rw [fetchFromCommitLog_setCommitLog]
    split
    next same =>
      rcases harmless with notCommitted | ne
      · exact notCommitted
      · exact absurd same.1 (ne valid)
    · exact uncommitted
  · exact uncommitted

namespace XactInvariant

variable {history : XactHistory} (invariant : XactInvariant history)

include invariant

theorem goOn (nextXid : after.nextXid = history.backend.nextXid)
    (log : after.log = history.backend.log) (block : BlockInvariant { history with
      backend := after, failures := failures.map (min · after.stack.length) } blockState xid) :
    XactInvariant (history.settle after failures) := by
  have isOpen : after.stack ≠ [] := by
    intro empty
    have nested := block.nested
    rw [empty] at nested
    exact nested
  rw [XactHistory.settle, if_neg isOpen]
  refine ⟨?_, ?_, ?_, .inr ⟨blockState, xid, block⟩⟩
  · rw [nextXid]
    exact invariant.counter
  · rw [log]
    exact invariant.unassigned
  · rw [nextXid, log]
    exact invariant.ended

theorem finish (ended : after.stack = []) (nextXid : after.nextXid = history.backend.nextXid)
    (log : after.log = recordedLog history.backend.log xid status)
    (isTop : history.backend.getTopLevelTransactionIdIfAny = xid)
    (allocated : xid.toNat < history.backend.nextXid.toNat)
    (uncommitted : fetchFromCommitLog history.backend.log xid ≠ .committed)
    (harmless : status ≠ .committed ∨ failures = [] ∧
      (transactionIdIsValid xid → xid ∉ history.endedFailed)) :
    XactInvariant (history.settle after failures) := by
  have others : ∀ other, fetchFromCommitLog history.backend.log other ≠
      .committed → (transactionIdIsValid xid → other ≠ xid) →
      fetchFromCommitLog after.log other ≠ .committed := by
    intro other kept ne
    rw [log]
    exact uncommitted_recordedLog kept (.inr ne)
  have earlier : ∀ other ∈ history.endedFailed, other.toNat < after.nextXid.toNat ∧
        fetchFromCommitLog after.log other ≠ .committed := by
    intro other mem
    obtain ⟨below, kept⟩ := invariant.ended other mem
    rw [nextXid]
    refine ⟨below, ?_⟩
    rcases harmless with notCommitted | ⟨_, fresh⟩
    · rw [log]
      exact uncommitted_recordedLog kept (.inl notCommitted)
    apply others other kept
    rintro valid rfl
    exact fresh valid mem
  rw [XactHistory.settle, if_pos ended]
  refine ⟨?_, ?_, ?_, .inl ⟨ended, rfl⟩⟩
  · simp only [nextXid]
    exact invariant.counter
  · apply others _ invariant.unassigned
    rintro valid rfl
    simp [transactionIdIsValid] at valid
  split
  · exact earlier
  next wasFailed =>
    intro other mem
    rcases List.mem_append.1 mem with old | new
    · exact earlier other old
    rw [List.mem_singleton, isTop] at new
    subst new
    rcases harmless with notCommitted | ⟨notFailed, _⟩
    · rw [nextXid, log]
      exact ⟨allocated, uncommitted_recordedLog uncommitted (.inl notCommitted)⟩
    · exact absurd notFailed wasFailed

/-- What a call does to the block keeps the invariant, if a failed block waits
for its abort. -/
theorem move {blockState : TBlockState} (block : BlockInvariant history before xid)
    (between : blockState.betweenCalls) (pending : failures ≠ [] → blockState = .abortPending)
    (move : BlockMove history.backend blockState xid after) :
    XactInvariant (history.settle after failures) := by
  have isTop := block.nested.getTopLevel
  have stillPending : failures.map (min · after.stack.length) ≠ [] →
      blockState = .abortPending := by
    simpa using pending
  cases move with
  | stay nextXid log nested =>
    apply invariant.goOn nextXid log
    refine ⟨nested, between, stillPending, block.usable, ?_, block.fresh, ?_⟩
    · simp only [nextXid]
      exact block.allocated
    · simp only [log]
      exact block.uncommitted
  | advance nextXid log notPending nested =>
    apply invariant.goOn nextXid log
    refine ⟨nested, .inr (.inr (.inl rfl)), ?_, block.usable, ?_, block.fresh, ?_⟩
    · intro isFailed
      exact absurd (stillPending isFailed) notPending
    · simp only [nextXid]
      exact block.allocated
    · simp only [log]
      exact block.uncommitted
  | commit nextXid log notPending ended =>
    have notFailed : failures = [] := by
      by_contra isFailed
      exact notPending (pending isFailed)
    exact invariant.finish ended nextXid log isTop block.allocated
      block.uncommitted (.inr ⟨notFailed, block.fresh⟩)
  | abort nextXid log ended =>
    exact invariant.finish ended nextXid log isTop block.allocated
      block.uncommitted (.inl (by simp))

theorem assign (block : BlockInvariant history blockState xid)
    (noWrap : history.backend.nextXid.toNat + 1 < 2 ^ 32)
    (nested : WellNested blockState history.backend.nextXid after.stack)
    (nextXid : after.nextXid = history.backend.nextXid + 1)
    (log : after.log = setCommitLog history.backend.log history.backend.nextXid .inProgress) :
    XactInvariant (history.settle after history.failures) := by
  have isOpen : after.stack ≠ [] := by
    intro empty
    rw [empty] at nested
    exact nested
  have next : after.nextXid.toNat = history.backend.nextXid.toNat + 1 := by
    rw [nextXid]
    exact Nat.mod_eq_of_lt noWrap
  have kept : ∀ other, fetchFromCommitLog history.backend.log other ≠
      .committed → fetchFromCommitLog after.log other ≠ .committed := by
    intro other uncommitted
    rw [log, fetchFromCommitLog_setCommitLog]
    split
    · simp
    · exact uncommitted
  have counter := invariant.counter
  rw [XactHistory.settle, if_neg isOpen]
  refine ⟨?_, kept _ invariant.unassigned, ?_,
    Or.inr ⟨blockState, history.backend.nextXid, nested, block.between,
      by simpa using block.pending, ?_, ?_, ?_, ?_⟩⟩
  · simp only [next]
    omega
  · intro other mem
    obtain ⟨_, uncommitted⟩ := invariant.ended other mem
    simp only [next]
    exact ⟨by omega, kept other uncommitted⟩
  · intro _
    exact transactionIdIsNormal_iff.2 counter
  · simp only [next]
    omega
  · intro _ mem
    exact absurd (invariant.ended _ mem).1 (Nat.lt_irrefl _)
  simp only [log]
  rw [fetchFromCommitLog_setCommitLog]
  unfold fetchFromCommitLog
  split
  · simp
  next outside =>
    have beyond : kMaxXids ≤ history.backend.nextXid.toNat := by simpa using outside
    simp [beyond]

theorem start (between : blockState.betweenCalls)
    (nextXid : after.nextXid = history.backend.nextXid) (log : after.log = history.backend.log)
    (nested : WellNested blockState kInvalidTransactionId after.stack) :
    XactInvariant (history.settle after []) := by
  have counter := invariant.counter
  apply invariant.goOn nextXid log
  refine ⟨nested, between, ?_, ?_, ?_, ?_, ?_⟩
  · intro failed
    exact absurd rfl failed
  · intro valid
    simp [transactionIdIsValid] at valid
  · simp only [nextXid]
    exact Nat.lt_of_lt_of_le (by decide) counter
  · intro valid
    simp [transactionIdIsValid] at valid
  · simp only [log]
    exact invariant.unassigned

theorem idle (empty : history.backend.stack = []) (notFailed : history.failures = []) :
    XactInvariant (history.step op) := by
  have unchanged : XactInvariant (history.settle history.backend []) := by
    rw [XactHistory.settle, if_pos empty]
    exact ⟨invariant.counter, invariant.unassigned, invariant.ended, .inl ⟨empty, rfl⟩⟩
  have stillFine : history.failuresAfter op = [] := by
    cases op <;>
      simp [XactHistory.failuresAfter, notFailed, isTransactionBlock, empty]
  unfold XactHistory.step
  rw [stillFine]
  cases op with
  | beginTransactionBlock =>
    apply invariant.start (.inr (.inl rfl)) <;>
      simp [xactCall, beginTransactionBlock, empty, startTransaction,
        setBlockState, setStack, WellNested, pushedState]
  | startTransactionCommand =>
    apply invariant.start (.inl rfl) <;>
      simp [xactCall, startTransactionCommand, empty, startTransaction,
        setStack, WellNested, pushedState]
  | _ =>
    simpa [xactCall, commitTransactionCommand, commandCounterIncrement, getCurrentTransactionId,
      beginSavepoint, releaseSavepoint, rollbackToSavepoint, withSavepoint,
      abortCurrentTransaction, endTransactionBlock, abortTransactionBlock, empty] using unchanged

theorem step (safe : XactSafe history op) : XactInvariant (history.step op) := by
  rcases invariant.block with ⟨empty, notFailed⟩ | ⟨_, _, block⟩
  · exact invariant.idle empty notFailed
  unfold XactHistory.step
  by_cases isError : op = .abortCurrentTransaction
  · subst isError
    apply invariant.move block (.inr (.inr (.inr rfl))) (fun _ => rfl)
    exact abortCurrentTransaction_move block.nested block.between block.usable safe
  by_cases isXid : op = .getCurrentTransactionId
  · subst isXid
    have sameBackend : (xactCall history.backend .getCurrentTransactionId).1 =
          history.backend.getCurrentTransactionId.1 := by
      simp only [xactCall]
      split <;> simp_all
    rw [sameBackend]
    rcases getCurrentTransactionId_move block.nested invariant.counter with
      move | ⟨_, nested, nextXid, log⟩
    · exact invariant.move block block.between block.pending move
    · exact invariant.assign block safe nested nextXid log
  · apply invariant.move block block.between
    · intro failed
      apply block.pending
      rintro none
      cases op <;> simp_all [XactHistory.failuresAfter]
    · exact xactCall_move block.nested block.between block.usable isError isXid

end XactInvariant

def XactRun (history : XactHistory) : Prop :=
  Reaches (fun history op => some (history.step op)) XactSafe XactHistory.initial history

/-- In every state of a run no failed block is recorded as committed. -/
theorem xactRun_failedBlocksUncommitted {history : XactHistory}
    (run : XactRun history) : history.FailedBlocksUncommitted := by
  apply XactInvariant.failedBlocksUncommitted
  apply Reaches.invariant run XactInvariant
  · intro _ _ _ invariant safe taken
    cases taken
    exact invariant.step safe
  refine ⟨by decide, ?_, ?_, .inl ⟨rfl, rfl⟩⟩
  · simp [XactHistory.initial, initial, fetchFromCommitLog]
  · intro _ member
    exact absurd member List.not_mem_nil

/-- An error in a subtransaction is forgotten with the subtransaction: the
block commits. -/
theorem failedSubtransaction_commits : ∃ history,
      runActions (fun history op => some (XactHistory.step history op)) XactHistory.initial
        [.beginTransactionBlock, .startTransactionCommand,
          .getCurrentTransactionId, .beginSavepoint "s",
          .abortCurrentTransaction, .endTransactionBlock] = some history ∧
      ¬ history.FailedBlocksUncommitted := by
  refine ⟨_, rfl, ?_⟩
  intro uncommitted
  exact uncommitted 3 (by decide +kernel) (by decide +kernel)

/-- A block that fails and opens a savepoint afterwards. -/
def failThenSavepoint : List XactOp :=
  [.beginTransactionBlock, .startTransactionCommand,
    .getCurrentTransactionId, .abortCurrentTransaction, .beginSavepoint "s",
    .rollbackToSavepoint "s", .abortCurrentTransaction, .endTransactionBlock]

theorem xactRun_failedBlocksUncommitted_failThenSavepoint :
    ∃ history, XactRun history ∧ history.failedXids = [3] ∧ history.FailedBlocksUncommitted := by
  have allowed : AllAllowed (fun history op => some (XactHistory.step history op)) XactSafe
      XactHistory.initial failThenSavepoint := by
    decide +kernel
  have run := Reaches.of_runActions allowed rfl
  exact ⟨_, run, by decide +kernel, xactRun_failedBlocksUncommitted run⟩

end Pgcpp.Transaction
