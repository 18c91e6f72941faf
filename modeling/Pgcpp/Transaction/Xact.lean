import Pgcpp.Transaction.System

/-!
# Transaction blocks and subtransactions

The stack of transaction states of one backend, with the current
(sub)transaction first; the parent of an entry is the entry behind it.
Subtransactions share the XID of the top-level transaction, which is assigned
when it is first asked for.
-/

namespace Pgcpp.Transaction

abbrev SubTransactionId := BitVec 32

def kInvalidSubTransactionId : SubTransactionId := 0#32

def kTopSubTransactionId : SubTransactionId := 1#32

inductive TransState where
  | default
  | start
  | inProgress
  | commit
  | abort
  | prepare
  deriving DecidableEq

inductive TBlockState where
  | default
  | started
  | begin
  | inProgress
  | endBlock
  | abort
  | abortEnd
  | abortPending
  | subBegin
  | subInProgress
  | subRelease
  | subCommit
  | subAbort
  | subAbortPending
  | subRestart
  | subAbortRestart
  deriving DecidableEq

/-- The names in `TransactionBlockStateAsString`. -/
def TBlockState.asString : TBlockState → String
  | .default => "default"
  | .started => "started"
  | .begin => "begin"
  | .inProgress => "in progress"
  | .endBlock => "end"
  | .abort => "abort"
  | .abortEnd => "abort end"
  | .abortPending => "abort pending"
  | .subBegin => "sub begin"
  | .subInProgress => "sub in progress"
  | .subRelease => "sub release"
  | .subCommit => "sub commit"
  | .subAbort => "sub abort"
  | .subAbortPending => "sub abort pending"
  | .subRestart => "sub restart"
  | .subAbortRestart => "sub abort restart"

/-- An entry of the stack, with the fields that control it. -/
structure XactStateData extends TransactionStateData where
  subTransactionId : SubTransactionId
  name : String
  savepointLevel : Nat
  state : TransState
  blockState : TBlockState
  nestingLevel : Nat
  commandIdBeforeSubxact : CommandId
  deriving DecidableEq

/-- The backend's stack and counter of subtransactions, the XID counter and
the commit log behind the backend's cache. -/
structure XactBackend where
  stack : List XactStateData
  nextSubTransactionId : SubTransactionId
  nextXid : TransactionId
  log : CommitLog
  cache : LogCache

/-- What a call reports: its result, a warning with the result false, or an
error. -/
inductive XactReply where
  | returned (value : Bool)
  | warning (text : String)
  | error (text : String)
  deriving DecidableEq

/-! ## The stack -/

/-- The entry `PushState` pushes. -/
def pushedState (stack : List XactStateData) : XactStateData :=
  let commandId :=
    match stack with
    | [] => kFirstCommandId
    | parent :: _ => parent.commandId
  { transactionId := kInvalidTransactionId, commandId := commandId
    subTransactionId := kInvalidSubTransactionId
    name := ""
    savepointLevel := 0, state := .default, blockState := .default, nestingLevel := stack.length + 1
    commandIdBeforeSubxact := commandId }

/-- `CommitSubTransaction`: the parent takes over the command id. -/
def commitSubTransaction : List XactStateData → List XactStateData
  | sub :: parent :: rest => { parent with commandId := sub.commandId } :: rest
  | stack => stack

/-- `AbortSubTransaction`: the parent gets the command id it had before. -/
def abortSubTransaction : List XactStateData → List XactStateData
  | sub :: parent :: rest => { parent with commandId := sub.commandIdBeforeSubxact } :: rest
  | stack => stack

/-- The position of the savepoint both `ReleaseSavepoint` and
`RollbackToSavepoint` look for, from the innermost; the top-level transaction
is not one. -/
def savepointIndex (name : String) (stack : List XactStateData) : Option Nat :=
  match stack.findIdx? fun entry => decide (entry.name = name) with
  | none => none
  | some index => if index + 1 < stack.length then some index else none

/-- The top-level transaction, as the loops over `parent` reach it. -/
def topLevel : List XactStateData → Option XactStateData
  | [] => none
  | [top] => some top
  | _ :: rest => topLevel rest

def updateTopLevel (change : XactStateData → XactStateData) :
    List XactStateData → List XactStateData
  | [] => []
  | [top] => [change top]
  | entry :: rest => entry :: updateTopLevel change rest

/-- The current state takes over the XID of the top-level transaction. -/
def shareXid (xid : TransactionId) : List XactStateData → List XactStateData
  | [] => []
  | current :: rest => { current with transactionId := xid } :: rest

namespace XactBackend

section

variable (backend : XactBackend)

def setStack (stack : List XactStateData) : XactBackend :=
  { backend with stack := stack }

/-- The stack as visibility checks see it. -/
def visibilityStack : List TransactionStateData :=
  backend.stack.map XactStateData.toTransactionStateData

def getCurrentCommandId : CommandId :=
  match backend.stack with
  | [] => kFirstCommandId
  | current :: _ => current.commandId

def isTransactionBlock : Bool :=
  match backend.stack with
  | [] => false
  | current :: _ => current.blockState ≠ .default && current.blockState ≠ .started

def getTopLevelTransactionIdIfAny : TransactionId :=
  match topLevel backend.stack with
  | none => kInvalidTransactionId
  | some top => top.transactionId

def startTransaction : XactBackend :=
  backend.setStack
    ({ pushedState backend.stack with
        state := .inProgress, blockState := .started, subTransactionId := kTopSubTransactionId
        commandId := kFirstCommandId } :: backend.stack)

/-- What `CommitTransaction` and `AbortTransaction` share: the outcome is
recorded for an assigned XID, and the current state is popped. -/
def finishTransaction (record : LogWriter)
    (finishing : TransState) (backend : XactBackend) : XactBackend × XactReply :=
  match backend.stack with
  | [] => (backend, .returned true)
  | current :: rest =>
    if transactionIdIsValid current.transactionId then
      match record backend.log backend.cache current.transactionId with
      | .error text => (backend.setStack ({ current with state := finishing } :: rest), .error text)
      | .ok (log, cache) =>
        ({ backend with stack := rest, log := log, cache := cache }, .returned true)
    else (backend.setStack rest, .returned true)

def commitTransaction : XactBackend × XactReply :=
  finishTransaction transactionIdCommit .commit backend

def abortTransaction : XactBackend × XactReply :=
  finishTransaction transactionIdAbort .abort backend

/-- `StartSubTransaction`, followed by the name the callers give the
subtransaction. -/
def startSubTransaction (name : String) (savepointLevel : XactStateData → Nat) :
    XactBackend × XactReply :=
  match backend.stack with
  | [] => (backend, .error "cannot start subtransaction without a parent transaction")
  | parent :: _ =>
    ({ backend with
        stack :=
          { pushedState backend.stack with
            state := .inProgress, blockState := .subInProgress
            transactionId := parent.transactionId
            subTransactionId := backend.nextSubTransactionId, commandId := parent.commandId
            commandIdBeforeSubxact := parent.commandId, name := name
            savepointLevel := savepointLevel parent } :: backend.stack
        nextSubTransactionId := backend.nextSubTransactionId + 1 }, .returned true)

/-- `GetCurrentTransactionId`: the XID of the current state, which is assigned
now if there is none. -/
def getCurrentTransactionId : XactBackend × Except String TransactionId :=
  match backend.stack with
  | [] => (backend, .ok kInvalidTransactionId)
  | current :: _ =>
    if transactionIdIsValid current.transactionId then (backend, .ok current.transactionId)
    else
      let top := backend.getTopLevelTransactionIdIfAny
      if transactionIdIsValid top then (backend.setStack (shareXid top backend.stack), .ok top)
      else
        match allocateNextTransactionId backend.nextXid backend.log backend.cache with
        | (.error text, nextXid, log, cache) =>
          ({ backend with nextXid := nextXid, log := log, cache := cache }, .error text)
        | (.ok xid, nextXid, log, cache) =>
          ({ backend with
              stack := shareXid xid (updateTopLevel (fun top => { top with transactionId := xid })
                backend.stack)
              nextXid := nextXid, log := log, cache := cache }, .ok xid)

/-- `CommandCounterIncrement`; the active snapshot is not part of this
state. -/
def commandCounterIncrement : XactBackend :=
  match backend.stack with
  | [] => backend
  | current :: rest =>
    if current.commandId < kInvalidCommandId - 1 then
      backend.setStack ({ current with commandId := current.commandId + 1 } :: rest)
    else backend

/-! ## Transaction blocks -/

/-- Writes to the block state of the current entry. -/
def setBlockState (blockState : TBlockState) : XactBackend :=
  match backend.stack with
  | [] => backend
  | current :: rest => backend.setStack ({ current with blockState := blockState } :: rest)

def beginTransactionBlock : XactBackend × XactReply :=
  match backend.stack with
  | [] => (backend.startTransaction.setBlockState .begin, .returned true)
  | current :: _ =>
    if current.blockState = .started then (backend.setBlockState .inProgress, .returned true)
    else (backend, .warning "there is already a transaction in progress")

/-- The reply of a function that returns false after the call. -/
def thenFalse (result : XactBackend × XactReply) : XactBackend × XactReply :=
  match result with
  | (backend, .error text) => (backend, .error text)
  | (backend, _) => (backend, .returned false)

def endTransactionBlock : XactBackend × XactReply :=
  match backend.stack with
  | [] => (backend, .warning "there is no transaction in progress")
  | current :: _ =>
    match current.blockState with
    | .started => backend.commitTransaction
    | .inProgress | .begin => (backend.setBlockState .endBlock).commitTransaction
    | .abort | .abortEnd => thenFalse backend.abortTransaction
    | .abortPending => thenFalse (backend.setBlockState .abort).abortTransaction
    | .subInProgress | .subAbort =>
      (backend, .warning ("cannot commit a transaction block while a " ++
        "subtransaction is active"))
    | blockState =>
      (backend, .warning ("unexpected state in EndTransactionBlock: " ++ blockState.asString))

/-- The loop of `AbortTransactionBlock` over the subtransactions, at most one
round for each entry. -/
def abortSubTransactions : Nat → List XactStateData → List XactStateData
  | 0, stack => stack
  | rounds + 1, stack =>
    if 1 < stack.length then abortSubTransactions rounds (abortSubTransaction stack) else stack

def abortTransactionBlock : XactBackend × XactReply :=
  match backend.stack with
  | [] => (backend, .warning "there is no transaction in progress")
  | current :: _ =>
    match current.blockState with
    | .started | .inProgress | .begin => (backend.setBlockState .abort).abortTransaction
    | .subInProgress =>
      (backend.setStack (abortSubTransactions backend.stack.length backend.stack)).abortTransaction
    | _ => backend.abortTransaction

def startTransactionCommand : XactBackend :=
  match backend.stack with
  | [] => backend.startTransaction
  | current :: _ =>
    if current.blockState = .begin then backend.setBlockState .inProgress else backend

def commitTransactionCommand : XactBackend × XactReply :=
  match backend.stack with
  | [] => (backend, .returned true)
  | current :: _ =>
    match current.blockState with
    | .started | .endBlock => backend.commitTransaction
    | .abort | .abortEnd => backend.abortTransaction
    | _ => (backend.commandCounterIncrement, .returned true)

def abortCurrentTransaction : XactBackend × XactReply :=
  match backend.stack with
  | [] => (backend, .returned true)
  | current :: _ =>
    match current.blockState with
    | .started => backend.abortTransaction
    | .inProgress | .begin => (backend.setBlockState .abortPending, .returned true)
    | .subInProgress =>
      let backend := backend.setBlockState .subAbort
      (backend.setStack (abortSubTransaction backend.stack), .returned true)
    | _ => (backend, .returned true)

def beginSavepoint (name : String) : XactBackend × XactReply :=
  match backend.stack with
  | [] => (backend, .error "SAVEPOINT can only be used in transaction blocks")
  | _ :: _ => backend.startSubTransaction name fun parent => parent.savepointLevel + 1

/-- The checks `ReleaseSavepoint` and `RollbackToSavepoint` begin with; the
error buffer holds 255 characters. -/
def withSavepoint (command name : String) (found : Nat → XactBackend × XactReply) :
    XactBackend × XactReply :=
  if backend.stack.length ≤ 1 then
    (backend, .error (command ++ " can only be used in transaction blocks"))
  else
    match savepointIndex name backend.stack with
    | none =>
      (backend, .error (String.ofList
          (("savepoint \"" ++ name ++ "\" does not exist").toList.take 255)))
    | some index => found index

def releaseSavepoint (name : String) : XactBackend × XactReply :=
  backend.withSavepoint "RELEASE SAVEPOINT" name fun index =>
    (backend.setStack (commitSubTransaction^[index + 1] backend.stack), .returned true)

/-- `RollbackToSavepoint`: the subtransactions up to the savepoint are aborted
and a new one gets its name. -/
def rollbackToSavepoint (name : String) : XactBackend × XactReply :=
  backend.withSavepoint "ROLLBACK TO SAVEPOINT" name fun index =>
    (backend.setStack (abortSubTransaction^[index + 1] backend.stack)).startSubTransaction
        name fun _ => 0

end

end XactBackend

end Pgcpp.Transaction
