import Pgcpp.Lib.Transition
import Pgcpp.Transaction.Ledger
import Pgcpp.Transaction.Visibility

/-!
# Several backends on one transaction manager

The shared state is the XID counter, the commit log, the `PGXACT` array and a
table of tuple headers.  Each backend keeps its own commit-log cache, its
two-phase records and its place in the current top-level transaction.  The
steps are the ones other backends can observe half way: an XID is allocated
before it is published, an outcome is logged before `PGXACT` is cleared, and a
snapshot reads the running XIDs before the next XID.
-/

namespace Pgcpp.Transaction

open Lib Function LogCache.Moves Multiset

def kFirstCommandId : CommandId := 0#32

def kInvalidCommandId : CommandId := 0xFFFFFFFF#32

/-- Where a backend stands in its top-level transaction. -/
inductive Phase where
  /-- No transaction state on the stack. -/
  | idle
  /-- `StartTransaction` has run; the XID is assigned on first use. -/
  | started
  /-- `AllocateNextTransactionId` has returned, `PGXACT` is not yet set. -/
  | allocated (xid : TransactionId)
  | published (xid : TransactionId)
  /-- The outcome is logged, `PGXACT` still shows the XID. -/
  | ending
  deriving DecidableEq

/-- A prepared transaction: the identifier and the XID it will finish. -/
structure TwoPhaseState where
  gid : String
  xid : TransactionId
  deriving DecidableEq

/-- The process-local part of the state.  `runningXids` holds the list a
`GetSnapshotData` call has read before it reads the next XID. -/
structure Backend where
  phase : Phase
  commandId : CommandId
  cache : LogCache
  stateList : List TwoPhaseState
  runningXids : Option (List TransactionId)
  activeSnapshot : Option SnapshotData
  deriving DecidableEq

namespace Backend

def initial : Backend :=
  { phase := .idle, commandId := kFirstCommandId, cache := LogCache.empty, stateList := []
    runningXids := none, activeSnapshot := none }

variable (backend : Backend)

/-- The XID of the current transaction state, invalid while unassigned. -/
def currentXid : TransactionId :=
  match backend.phase with
  | .allocated xid | .published xid => xid
  | .idle | .started | .ending => kInvalidTransactionId

def stack : List TransactionStateData :=
  match backend.phase with
  | .idle => []
  | _ =>
    [{ transactionId := backend.currentXid
       commandId := backend.commandId }]

/-- The XIDs this backend has yet to commit or abort: its current one and the
prepared ones. -/
def openXids : List TransactionId :=
  match backend.phase with
  | .allocated xid | .published xid => xid :: backend.stateList.map TwoPhaseState.xid
  | .idle | .started | .ending => backend.stateList.map TwoPhaseState.xid

/-- `CommandCounterIncrement`: the active snapshot follows the counter. -/
def commandCounterIncrement : Backend :=
  let commandId :=
    if backend.commandId < kInvalidCommandId - 1 then backend.commandId + 1 else backend.commandId
  { backend with
    commandId := commandId, activeSnapshot := backend.activeSnapshot.map fun snapshot =>
      { snapshot with curcid := commandId } }

end Backend

/-- The shared state, the backends and a table of tuple headers. -/
structure SystemState where
  nextXid : TransactionId
  log : CommitLog
  pgprocnos : List Nat
  pgxact : Nat → TransactionId
  backends : Nat → Backend
  tuples : List HeapTupleHeaderData

inductive Action where
  | startTransaction
  | commandCounterIncrement
  /-- `GetCurrentTransactionId` on an unassigned XID, up to the allocation. -/
  | allocate
  /-- The rest of it: `pgxact->xid` is set. -/
  | publish
  /-- `CommitTransaction` up to the commit-log write. -/
  | logCommit
  /-- `AbortTransaction` up to the commit-log write. -/
  | logAbort
  /-- The rest of either: `pgxact->xid` is cleared and the state popped. -/
  | clearPgxact
  /-- `PrepareTransactionBlock` once the XID is assigned. -/
  | prepare (gid : String)
  | commitPrepared (gid : String)
  | rollbackPrepared (gid : String)
  /-- `GetRunningTransactionData` under the process-array lock. -/
  | readRunning
  /-- The rest of `GetSnapshotData`. -/
  | readNextXid
  /-- A commit-log lookup. -/
  | lookup (xid : TransactionId)
  | heapInsert (hasNull hasVarWidth : Bool) (natts : BitVec 16) (hoff : BitVec 8)
  | heapDelete (index : Nat)
  /-- `HeapTupleSatisfiesMVCC` on a stored tuple. -/
  | check (snapshot : SnapshotData) (index : Nat)
  deriving DecidableEq

structure Event where
  backend : Nat
  action : Action
  deriving DecidableEq

/-- The bits `heap_form_tuple` sets. -/
def formedInfomask (hasNull hasVarWidth : Bool) : BitVec 16 :=
  (if hasNull then kHeapHasNull else 0) ||| (if hasVarWidth then kHeapHasVarWidth else 0)

theorem formed_flags (hasNull hasVarWidth : Bool) :
    hasFlag (formedInfomask hasNull hasVarWidth) kHeapXminCommitted = false ∧
    hasFlag (formedInfomask hasNull hasVarWidth) kHeapXminInvalid = false ∧
    hasFlag (formedInfomask hasNull hasVarWidth) kHeapXminFrozen = false ∧
    hasFlag (formedInfomask hasNull hasVarWidth) kHeapXmaxLocked = false ∧
    hasFlag (formedInfomask hasNull hasVarWidth) kHeapXmaxInvalid = false ∧
    hasFlag (formedInfomask hasNull hasVarWidth) kHeapUpdated = false := by
  cases hasNull <;> cases hasVarWidth <;> decide

/-- The header `heap_form_tuple` and `heap_insert_internal` leave on the
page. -/
def heapInsertHeader (xid : TransactionId) (cid : CommandId)
    (hasNull hasVarWidth : Bool) (natts : BitVec 16) (hoff : BitVec 8) : HeapTupleHeaderData :=
  { tXmin := xid, tXmax := kInvalidTransactionId, tCid := cid
    tCtid := { ipBlkid := 0, ipPosid := 0 }, tInfomask2 := natts
    tInfomask := formedInfomask hasNull hasVarWidth, tHoff := hoff }

/-- What `heap_delete` writes: hint bits are left as they are. -/
def heapDeleteHeader (tup : HeapTupleHeaderData) (xid : TransactionId)
    (cid : CommandId) : HeapTupleHeaderData :=
  { tup with tXmax := xid, tCid := cid }

namespace SystemState

def initial (pgprocnos : List Nat) : SystemState :=
  { nextXid := kFirstNormalTransactionId, log := fun _ => .inProgress, pgprocnos := pgprocnos
    pgxact := fun _ => kInvalidTransactionId, backends := fun _ => Backend.initial, tuples := [] }

section

variable (state : SystemState) (me : Nat)

def setBackend (backend : Backend) : SystemState :=
  { state with backends := update state.backends me backend }

def startTransaction : Option SystemState :=
  let backend := state.backends me
  match backend.phase with
  | .idle =>
    some (state.setBackend me { backend with phase := .started, commandId := kFirstCommandId })
  | _ => none

/-- `AllocateNextTransactionId` by a backend whose XID is unassigned. -/
def allocate : Option SystemState :=
  let backend := state.backends me
  match backend.phase with
  | .started =>
    let (result, nextXid, log, cache) :=
      allocateNextTransactionId state.nextXid state.log backend.cache
    let phase := match result with
      | .ok xid => .allocated xid
      | .error _ => .started
    some ({ state with nextXid := nextXid, log := log }.setBackend me
      { backend with phase := phase, cache := cache })
  | _ => none

def publish (xid : TransactionId) : SystemState :=
  { state with pgxact := update state.pgxact me xid }.setBackend me
    { state.backends me with phase := .published xid }

/-- The commit-log write of `CommitTransaction` and `AbortTransaction`; an
error leaves the transaction where it was. -/
def logOutcome (write : LogWriter) : Option SystemState :=
  let backend := state.backends me
  match backend.phase with
  | .started => some (state.setBackend me { backend with phase := .ending })
  | .published xid =>
    match write state.log backend.cache xid with
    | .ok (log, cache) =>
      some ({ state with log := log }.setBackend me
        { backend with phase := .ending, cache := cache })
    | .error _ => some state
  | _ => none

def clearPgxact : SystemState :=
  { state with
    pgxact := update state.pgxact me kInvalidTransactionId
    }.setBackend me { state.backends me with phase := .idle, activeSnapshot := none }

/-- `PrepareTransactionBlock`: a duplicate identifier is an error; otherwise
the record is saved, `PGXACT` cleared and the state popped, with no outcome
logged. -/
def prepare (gid : String) : Option SystemState :=
  let backend := state.backends me
  match backend.phase with
  | .published xid =>
    if backend.stateList.any (fun record => record.gid == gid) then some state
    else
      let record : TwoPhaseState := { gid := gid, xid := xid }
      some ({ state with
        pgxact := update state.pgxact me kInvalidTransactionId
        }.setBackend me { backend with
            phase := .idle, stateList := backend.stateList ++ [record], activeSnapshot := none })
  | _ => none

/-- `CommitPreparedTransaction` and `RollbackPreparedTransaction`: log the
outcome of the record's XID and remove the first record of that name. -/
def finishPrepared (gid : String) (write : LogWriter) : Option SystemState :=
  let backend := state.backends me
  match backend.stateList.find? (fun record => record.gid == gid) with
  | none => some state
  | some record =>
    match write state.log backend.cache record.xid with
    | .ok (log, cache) =>
      some ({ state with log := log }.setBackend me { backend with
          cache := cache, stateList := backend.stateList.eraseP (fun record => record.gid == gid) })
    | .error _ => some state

def readRunning : SystemState :=
  state.setBackend me
    { state.backends me with
      runningXids := some (collectRunningXids state.pgxact state.pgprocnos) }

def readNextXid (xip : List TransactionId) : SystemState :=
  let backend := state.backends me
  state.setBackend me
    { backend with
      runningXids := none, activeSnapshot := some (finishSnapshot xip state.nextXid
        backend.currentXid backend.commandId) }

def lookup (xid : TransactionId) : SystemState :=
  let backend := state.backends me
  state.setBackend me
    { backend with
      cache := (transactionIdGetStatus state.log backend.cache xid).2 }

/-- `heap_insert` by a transaction with an XID; it ends with
`CommandCounterIncrement`. -/
def heapInsert (hasNull hasVarWidth : Bool) (natts : BitVec 16) (hoff : BitVec 8) :
    Option SystemState :=
  let backend := state.backends me
  match backend.phase with
  | .published xid =>
    some ({ state with
      tuples := state.tuples ++ [heapInsertHeader xid backend.commandId
        hasNull hasVarWidth natts hoff]
      }.setBackend me backend.commandCounterIncrement)
  | _ => none

def heapDelete (index : Nat) : Option SystemState :=
  let backend := state.backends me
  match backend.phase, state.tuples[index]? with
  | .published xid, some tup =>
    some ({ state with
      tuples := state.tuples.set index (heapDeleteHeader tup xid backend.commandId)
      }.setBackend me backend.commandCounterIncrement)
  | _, _ => none

def check (snapshot : SnapshotData) (index : Nat) : Option SystemState :=
  let backend := state.backends me
  match state.tuples[index]? with
  | none => none
  | some tup =>
    let result := heapTupleSatisfiesMVCC state.log backend.stack snapshot backend.cache tup
    some ({ state with tuples := state.tuples.set index result.tup
      }.setBackend me { backend with cache := result.cache })

/-- The steps that begin outside every other call of the backend. -/
def act (action : Action) : Option SystemState :=
  match action with
  | .startTransaction => state.startTransaction me
  | .commandCounterIncrement =>
    some (state.setBackend me (state.backends me).commandCounterIncrement)
  | .allocate => state.allocate me
  | .logCommit => state.logOutcome me transactionIdCommit
  | .logAbort => state.logOutcome me transactionIdAbort
  | .prepare gid => state.prepare me gid
  | .commitPrepared gid => state.finishPrepared me gid transactionIdCommit
  | .rollbackPrepared gid => state.finishPrepared me gid transactionIdAbort
  | .readRunning => some (state.readRunning me)
  | .lookup xid => some (state.lookup me xid)
  | .heapInsert hasNull hasVarWidth natts hoff => state.heapInsert me hasNull hasVarWidth natts hoff
  | .heapDelete index => state.heapDelete me index
  | .check snapshot index => state.check me snapshot index
  | .publish | .clearPgxact | .readNextXid => none

end

/-- A registered backend in the middle of a call completes that call first: a
snapshot scan reads the next XID, an allocated XID is published, and a logged
outcome is followed by the clearing of `PGXACT`. -/
def step (state : SystemState) (event : Event) : Option SystemState :=
  let me := event.backend
  if me ∉ state.pgprocnos then none
  else
    match (state.backends me).runningXids with
    | some xip =>
      match event.action with
      | .readNextXid => some (state.readNextXid me xip)
      | _ => none
    | none =>
      match (state.backends me).phase with
      | .allocated xid =>
        match event.action with
        | .publish => some (state.publish me xid)
        | _ => none
      | .ending =>
        match event.action with
        | .clearPgxact => some (state.clearPgxact me)
        | _ => none
      | .idle | .started | .published _ => state.act me event.action

/-! ## Refinement of the ledger -/

def ledger (state : SystemState) : Ledger :=
  { nextXid := state.nextXid, log := state.log
    openXids := fun owner => (state.backends owner).openXids }

theorem initial_valid (pgprocnos : List Nat) : (initial pgprocnos).ledger.Valid := by
  constructor
  case counter => exact (by decide : transactionIdIsNormal 3#32)
  case untouched =>
    intro xid _
    simp [ledger, initial, fetchFromCommitLog]
  case accounted =>
    intro xid normal _
    rw [transactionIdIsNormal_iff] at normal
    have : (initial pgprocnos).ledger.nextXid.toNat = 3 := rfl
    omega
  all_goals simp [ledger, initial, Backend.initial, Backend.openXids]

/-- What any step does to the ledger and to the caches. -/
structure Effect (state next : SystemState) : Prop where
  ledger : Ledger.Step state.ledger next.ledger
  caches : ∀ owner, (state.backends owner).cache.Moves state.log (next.backends owner).cache

theorem Effect.of_backend (backends : next.backends = update state.backends me backend)
    (step : Ledger.Step state.ledger
      ⟨next.nextXid, next.log, update state.ledger.openXids me backend.openXids⟩)
    (moves : (state.backends me).cache.Moves state.log backend.cache) : Effect state next := by
  have owners : next.ledger.openXids = update state.ledger.openXids me backend.openXids := by
    simp only [SystemState.ledger, backends]
    exact comp_update (fun owner : Backend => (owner.openXids : Multiset TransactionId)) ..
  constructor
  · rw [← owners] at step
    exact step
  rw [backends]
  exact (forall_update_iff _ fun owner (changed : Backend) =>
    (state.backends owner).cache.Moves state.log changed.cache).2 ⟨moves, fun _ _ => .refl⟩

theorem Effect.quiet (nextXid : next.nextXid = state.nextXid)
    (log : next.log = state.log) (backends : next.backends = update state.backends me backend)
    (openXids : backend.openXids.Perm (state.backends me).openXids)
    (moves : (state.backends me).cache.Moves state.log backend.cache) : Effect state next := by
  have same : (backend.openXids : Multiset TransactionId) = state.ledger.openXids me :=
    coe_eq_coe.2 openXids
  refine .of_backend backends ?_ moves
  rw [nextXid, log, same, update_eq_self]
  exact .stay _

theorem Effect.finish (nextXid : next.nextXid = state.nextXid)
    (log : next.log = setCommitLog state.log xid status) (final : status ≠ .inProgress)
    (backends : next.backends = update state.backends me backend)
    (openXids : (state.backends me).openXids.Perm (xid :: backend.openXids))
    (cache : backend.cache = (state.backends me).cache.invalidate xid) : Effect state next := by
  refine .of_backend backends ?_ (cache ▸ refl.invalidate xid)
  rw [nextXid, log]
  exact .finish state.ledger me xid _ status (coe_eq_coe.2 openXids) final

variable {state : SystemState}

theorem allocate_effect (valid : state.ledger.Valid) (room : state.nextXid.toNat + 1 < 2 ^ 32)
    (taken : state.allocate me = some next) : Effect state next := by
  have counter : transactionIdIsNormal state.nextXid := valid.counter
  have nonzero : (state.nextXid == kInvalidTransactionId) = false := by
    have := transactionIdIsValid_of_normal counter
    simpa [transactionIdIsValid] using this
  unfold allocate at taken
  cases phase : (state.backends me).phase with
  | started =>
    simp only [phase, allocateNextTransactionId, nonzero, transactionIdSetInProgress, counter,
      Bool.not_true, Bool.false_eq_true, if_false] at taken
    cases taken
    refine .of_backend rfl ?_ (refl.invalidate state.nextXid)
    simpa [ledger, Backend.openXids, phase, setBackend] using
      Ledger.Step.start state.ledger me room
  | _ => simp [phase] at taken

section

variable {write : LogWriter}

theorem stateList_perm_eraseP {records : List TwoPhaseState}
    (found : records.find? (fun record => record.gid == gid) = some record) :
    records.Perm (record :: records.eraseP (fun record => record.gid == gid)) := by
  induction records with
  | nil => simp at found
  | cons first _ ih =>
    cases hit : first.gid == gid with
    | true => simp_all
    | false =>
      simp only [List.find?_cons, hit] at found
      simp only [List.eraseP_cons, hit]
      exact ((ih found).cons first).trans (.swap ..)

theorem openXids_perm_of_stateList {backend : Backend}
    (perm : backend.stateList.Perm (record :: records)) (cache : LogCache) :
    backend.openXids.Perm (record.xid ::
      { backend with cache := cache, stateList := records }.openXids) := by
  have xids := perm.map TwoPhaseState.xid
  unfold Backend.openXids
  cases backend.phase with
  | allocated xid | published xid => exact (xids.cons xid).trans (.swap _ _ _)
  | _ => exact xids

section

variable (valid : state.ledger.Valid) (records : Records write status)
  (final : status ≠ .inProgress)

include valid records final

theorem logOutcome_effect (taken : state.logOutcome me write = some next) : Effect state next := by
  unfold logOutcome at taken
  cases phase : (state.backends me).phase with
  | started =>
    simp only [phase] at taken
    cases taken
    refine Effect.quiet rfl rfl rfl ?_ refl
    simp [Backend.openXids, phase]
  | published xid =>
    have mine : xid ∈ state.ledger.openXids me := by simp [ledger, Backend.openXids, phase]
    simp only [phase, records _ _ _ (valid.normal me xid mine)] at taken
    cases taken
    refine Effect.finish rfl rfl final rfl ?_ rfl
    simp [Backend.openXids, phase]
  | _ => simp [phase] at taken

theorem finishPrepared_effect (taken : state.finishPrepared me gid write = some next) :
    Effect state next := by
  unfold finishPrepared at taken
  cases found : (state.backends me).stateList.find? (fun record => record.gid == gid) with
  | none =>
    simp only [found] at taken
    cases taken
    exact ⟨.stay _, fun _ => .refl⟩
  | some record =>
    have perm := openXids_perm_of_stateList (stateList_perm_eraseP found)
      ((state.backends me).cache.invalidate record.xid)
    have mine : record.xid ∈ state.ledger.openXids me :=
      mem_coe.2 (perm.mem_iff.2 (by simp))
    simp only [found, records _ _ _ (valid.normal me _ mine)] at taken
    cases taken
    exact Effect.finish rfl rfl final rfl perm rfl

end

end

theorem prepare_effect (taken : state.prepare me gid = some next) : Effect state next := by
  unfold prepare at taken
  cases phase : (state.backends me).phase with
  | published xid =>
    simp only [phase] at taken
    split at taken
    · obtain rfl : state = next := by simpa using taken
      exact ⟨.stay _, fun _ => .refl⟩
    cases taken
    refine Effect.quiet rfl rfl rfl ?_ refl
    simp [Backend.openXids, phase]
  | _ => simp [phase] at taken

theorem startTransaction_effect
    (taken : state.startTransaction me = some next) : Effect state next := by
  unfold startTransaction at taken
  cases phase : (state.backends me).phase with
  | idle =>
    simp only [phase] at taken
    cases taken
    refine Effect.quiet rfl rfl rfl ?_ refl
    simp [Backend.openXids, phase]
  | _ => simp [phase] at taken

theorem heapInsert_effect (taken : state.heapInsert me hasNull hasVarWidth natts hoff =
      some next) : Effect state next := by
  unfold heapInsert at taken
  cases phase : (state.backends me).phase with
  | published xid =>
    simp only [phase] at taken
    cases taken
    exact Effect.quiet rfl rfl rfl (.refl _) refl
  | _ => simp [phase] at taken

theorem heapDelete_eq_some (taken : state.heapDelete me index = some next) :
    ∃ xid tup, (state.backends me).phase = .published xid ∧
      state.tuples[index]? = some tup ∧
      next = { state with
        tuples := state.tuples.set index (heapDeleteHeader tup xid (state.backends me).commandId)
        }.setBackend me (state.backends me).commandCounterIncrement := by
  unfold heapDelete at taken
  dsimp only at taken
  split at taken
  · next xid tup phase found => exact ⟨xid, tup, phase, found, by simpa using taken.symm⟩
  · contradiction

theorem check_eq_some (taken : state.check me snapshot index = some next) :
    ∃ tup, state.tuples[index]? = some tup ∧
      next = { state with tuples := state.tuples.set index (heapTupleSatisfiesMVCC state.log
          (state.backends me).stack snapshot (state.backends me).cache tup).tup
        }.setBackend me { state.backends me with cache := (heapTupleSatisfiesMVCC state.log
            (state.backends me).stack snapshot (state.backends me).cache tup).cache } := by
  unfold check at taken
  split at taken
  · contradiction
  · next tup found => exact ⟨tup, found, by simpa using taken.symm⟩

theorem act_effect (valid : state.ledger.Valid)
    (room : action = .allocate → state.nextXid.toNat + 1 < 2 ^ 32)
    (taken : state.act me action = some next) : Effect state next := by
  cases action with
  | startTransaction => exact startTransaction_effect taken
  | commandCounterIncrement =>
    cases taken
    exact Effect.quiet rfl rfl rfl (.refl _) refl
  | allocate => exact allocate_effect valid (room rfl) taken
  | logCommit => exact logOutcome_effect valid records_transactionIdCommit (by decide) taken
  | logAbort => exact logOutcome_effect valid records_transactionIdAbort (by decide) taken
  | prepare gid => exact prepare_effect taken
  | commitPrepared gid =>
    exact finishPrepared_effect valid records_transactionIdCommit (by decide) taken
  | rollbackPrepared gid =>
    exact finishPrepared_effect valid records_transactionIdAbort (by decide) taken
  | readRunning =>
    cases taken
    exact Effect.quiet rfl rfl rfl (.refl _) refl
  | lookup xid =>
    cases taken
    exact Effect.quiet rfl rfl rfl (.refl _) (refl.fetch xid)
  | heapInsert _ _ _ _ => exact heapInsert_effect taken
  | heapDelete index =>
    obtain ⟨_, _, _, _, rfl⟩ := heapDelete_eq_some taken
    exact Effect.quiet rfl rfl rfl (.refl _) refl
  | check _ index =>
    obtain ⟨tup, _, rfl⟩ := check_eq_some taken
    exact Effect.quiet rfl rfl rfl (.refl _) (heapTupleSatisfiesMVCC_moves _ _ refl tup)
  | publish => simp [act] at taken
  | clearPgxact => simp [act] at taken
  | readNextXid => simp [act] at taken

/-- What a step begun outside every call leaves alone. -/
structure Frame (state : SystemState) (me : Nat) (action : Action) (next : SystemState) : Prop where
  others : ∀ owner, owner ≠ me → next.backends owner = state.backends owner
  nextXid : next.nextXid = state.nextXid ∨ action = .allocate
  pgxact : next.pgxact = state.pgxact ∨
    next.pgxact = update state.pgxact me kInvalidTransactionId
  runningXids :
    (next.backends me).runningXids = (state.backends me).runningXids ∨
      (next.backends me).runningXids = some (collectRunningXids state.pgxact state.pgprocnos)

theorem act_frame (acted : state.act me action = some next) : Frame state me action next := by
  all_goals
    simp only [act, startTransaction, allocate, logOutcome, prepare, finishPrepared, readRunning,
      lookup, heapInsert, heapDelete, check] at acted
    repeat' split at acted
    all_goals first
      | contradiction
      | (cases acted
         constructor
         · intro _ other
           simp [setBackend, other]
         · first | exact .inl rfl | exact .inr rfl
         · first | exact .inl rfl | exact .inr rfl
         · simp [setBackend, Backend.commandCounterIncrement])

theorem step_cases (taken : state.step event = some next) :
    (∃ xip, (state.backends event.backend).runningXids = some xip ∧ event.action = .readNextXid ∧
      next = state.readNextXid event.backend xip) ∨
    (∃ xid, (state.backends event.backend).phase = .allocated xid ∧
      event.action = .publish ∧ next = state.publish event.backend xid) ∨
    ((state.backends event.backend).phase = .ending ∧
      event.action = .clearPgxact ∧ next = state.clearPgxact event.backend) ∨
    state.act event.backend event.action = some next := by
  unfold step at taken
  dsimp only at taken
  split at taken
  · contradiction
  split at taken
  · next xip running =>
      split at taken
      · next action => exact .inl ⟨xip, running, action, by simpa using taken.symm⟩
      · contradiction
  cases phase : (state.backends event.backend).phase with
  | allocated xid =>
    simp only [phase] at taken
    split at taken
    · next action => exact .inr (.inl ⟨xid, rfl, action, by simpa using taken.symm⟩)
    · contradiction
  | ending =>
    simp only [phase] at taken
    split at taken
    · next action => exact .inr (.inr (.inl ⟨rfl, action, by simpa using taken.symm⟩))
    · contradiction
  | _ => exact .inr (.inr (.inr (by simpa only [phase] using taken)))

theorem step_effect (valid : state.ledger.Valid)
    (room : event.action = .allocate → state.nextXid.toNat + 1 < 2 ^ 32)
    (taken : state.step event = some next) : Effect state next := by
  rcases step_cases taken with ⟨_, _, _, rfl⟩ | ⟨_, phase, _, rfl⟩ | ⟨phase, _, rfl⟩ | acted
  · exact Effect.quiet rfl rfl rfl (.refl _) refl
  · refine Effect.quiet rfl rfl rfl ?_ refl
    simp [Backend.openXids, phase]
  · refine Effect.quiet rfl rfl rfl ?_ refl
    simp [Backend.openXids, phase]
  · exact act_effect valid room acted

theorem step_tuples (taken : state.step event = some next) : next.tuples = state.tuples ∨
    (∃ xid cid hasNull hasVarWidth natts hoff, next.tuples = state.tuples ++
      [heapInsertHeader xid cid hasNull hasVarWidth natts hoff]) ∨
    (∃ index tup xid cid, event.action = .heapDelete index ∧ state.tuples[index]? = some tup ∧
      next.tuples = state.tuples.set index (heapDeleteHeader tup xid cid)) ∨
    (∃ snapshot index tup, event.action = .check snapshot index ∧ state.tuples[index]? = some tup ∧
      next.tuples = state.tuples.set index (heapTupleSatisfiesMVCC state.log
        (state.backends event.backend).stack snapshot
        (state.backends event.backend).cache tup).tup) := by
  rcases step_cases taken with ⟨_, _, _, rfl⟩ | ⟨xid, _, _, rfl⟩ | ⟨_, _, rfl⟩ | acted
  · exact .inl rfl
  · exact .inl rfl
  · exact .inl rfl
  cases action : event.action with
  | heapInsert hasNull hasVarWidth natts hoff =>
    rw [action, act, heapInsert] at acted
    split at acted
    · next xid _ =>
        cases acted
        exact .inr (.inl ⟨xid, _, hasNull, hasVarWidth, natts, hoff, rfl⟩)
    · contradiction
  | heapDelete index =>
    rw [action] at acted
    obtain ⟨xid, tup, _, found, rfl⟩ := heapDelete_eq_some acted
    exact .inr (.inr (.inl ⟨index, tup, xid, _, rfl, found, rfl⟩))
  | check snapshot index =>
    rw [action] at acted
    obtain ⟨tup, found, rfl⟩ := check_eq_some acted
    exact .inr (.inr (.inr ⟨snapshot, index, tup, rfl, found, rfl⟩))
  | _ =>
    refine .inl ?_
    rw [action] at acted
    simp only [act, startTransaction, allocate, logOutcome, prepare, finishPrepared] at acted
    repeat' split at acted
    all_goals first
      | contradiction
      | (cases acted; rfl)

/-- The ledger is in order and no cache holds a wrong outcome. -/
structure Sound (state : SystemState) : Prop where
  ledger : state.ledger.Valid
  caches : ∀ owner, (state.backends owner).cache.Sound state.log

theorem Effect.keepsOutcomes (effect : Effect state next)
    (valid : state.ledger.Valid) : KeepsOutcomes state.log next.log :=
  fun _ final => effect.ledger.permanent valid final

theorem Sound.step (sound : state.Sound) (effect : Effect state next) : next.Sound := by
  constructor
  · exact effect.ledger.valid sound.ledger
  intro owner
  have moved := (effect.caches owner).sound (sound.caches owner)
  exact moved.mono (effect.keepsOutcomes sound.ledger)

theorem initial_sound (pgprocnos : List Nat) : (initial pgprocnos).Sound :=
  ⟨initial_valid pgprocnos, fun _ => LogCache.sound_empty _⟩

/-- XIDs are allocated as long as the counter does not wrap around. -/
def CounterFits (state : SystemState) (event : Event) : Prop :=
  event.action = .allocate → state.nextXid.toNat + 1 < 2 ^ 32

theorem Sound.run (sound : state.Sound) (run : Reaches SystemState.step CounterFits state later) :
    later.Sound ∧ KeepsOutcomes state.log later.log := by
  apply run.invariant (fun reached => reached.Sound ∧ KeepsOutcomes state.log reached.log)
  · intro _ _ _ known fits taken
    obtain ⟨kept, outcomes⟩ := known
    have effect := step_effect kept.ledger fits taken
    exact ⟨kept.step effect, outcomes.trans (effect.keepsOutcomes kept.ledger)⟩
  · exact ⟨sound, .refl _⟩

/-- However the backends interleave, an outcome is final and no cache contradicts
it.  An XID the commit log can record is in progress exactly while one backend
has it as its current or as a prepared transaction. -/
theorem outcomes_final {pgprocnos : List Nat}
    (run : Reaches step CounterFits (initial pgprocnos) state)
    (rest : Reaches step CounterFits state later) : KeepsOutcomes state.log later.log ∧
      (∀ owner, (later.backends owner).cache.Sound later.log) ∧
      ∀ xid, transactionIdIsNormal xid → xid.toNat < later.nextXid.toNat →
        xid.toNat < kMaxXids → (fetchFromCommitLog later.log xid = .inProgress ↔
          ∃! owner, xid ∈ (later.backends owner).openXids) := by
  obtain ⟨sound, outcomes⟩ := ((initial_sound pgprocnos).run run).1.run rest
  refine ⟨outcomes, sound.caches, ?_⟩
  intro xid normal below recordable
  constructor
  · intro unfinished
    obtain ⟨owner, owns⟩ := sound.ledger.accounted xid normal below recordable unfinished
    refine ⟨owner, mem_coe.1 owns, ?_⟩
    intro other also
    by_contra ne
    exact sound.ledger.single other owner ne xid (mem_coe.2 also) owns
  · rintro ⟨owner, owns, _⟩
    exact sound.ledger.running owner xid (mem_coe.2 owns)

theorem outcomes_final_running : ∃ later, Reaches step CounterFits (initial [0]) later ∧
    ∃! owner, 3#32 ∈ (later.backends owner).openXids := by
  have allowed : AllAllowed step CounterFits (initial [0])
      [⟨0, .startTransaction⟩, ⟨0, .allocate⟩] := by
    refine ⟨?_, ?_, trivial⟩ <;> intro <;> decide
  have run := Reaches.of_runActions allowed rfl
  have known := (outcomes_final .refl run).2.2 3#32 (by decide) (by decide) (by decide)
  exact ⟨_, run, known.1 (by decide)⟩

end SystemState

end Pgcpp.Transaction
