import Pgcpp.Transaction.HintRuns
import Pgcpp.Transaction.RowLock

/-!
# The history of one row

Transactions run one after another and lock, delete or update a row, and each
commits or aborts.  In between, any backend may check the row against any
snapshot.  A deletion should take effect with its commit, whatever happened to
the row before.

It does as long as the row carries no mark of an earlier lock or of a deleter
that was found aborted, since `heap_delete` leaves both in place.
-/

namespace Pgcpp.Transaction

open Lib Visibility Function HeapTupleHeaderData Bool
open List hiding after all set

/-! ## The system -/

/-- The transaction that runs.  Its XID is invalid until it is needed. -/
structure RunningXact where
  backend : Nat
  xid : TransactionId
  commandId : CommandId
  deriving DecidableEq

/-- The state that `StartTransaction` pushes. -/
def RunningXact.start (backend : Nat) : RunningXact :=
  { backend := backend, xid := kInvalidTransactionId, commandId := kFirstCommandId }

/-- `deleters` is a ghost: the transactions that have deleted or updated the
row, the last one first. -/
structure RowState where
  nextXid : TransactionId
  log : CommitLog
  caches : Nat → LogCache
  running : Option RunningXact
  multis : MultiXactData
  header : HeapTupleHeaderData
  deleters : List TransactionId

inductive RowEvent where
  | begin (backend : Nat)
  | heapLockTuple (strength : RowLockStrength)
  | heapDelete
  | heapUpdate (newTid : ItemPointerData)
  /-- The transaction writes to another row. -/
  | writeElsewhere
  | commandCounterIncrement
  | commit
  | abort
  /-- A visibility check of the row. -/
  | check (backend : Nat) (snapshot : SnapshotData)
  deriving DecidableEq

/-- The cached status, if it is of a normal XID, is final. -/
def FinalCache (log : CommitLog) (nextXid : TransactionId) (cache : LogCache) : Prop :=
  transactionIdIsNormal cache.cachedXid → cache.cachedXid.toNat < nextXid.toNat ∧
      cache.cachedStatus = fetchFromCommitLog log cache.cachedXid ∧
      cache.cachedStatus ≠ .inProgress

def Finished (log : CommitLog) (xid : TransactionId) : Prop :=
  fetchFromCommitLog log xid = .committed ∨ fetchFromCommitLog log xid = .aborted

namespace RowState

/-- The row as a transaction has inserted and committed it, and nobody has
touched it yet. -/
structure JustInserted (inserter : TransactionId) (state : RowState) : Prop where
  normal : kFirstNormalTransactionId.toNat ≤ inserter.toNat
  older : inserter.toNat < state.nextXid.toNat
  bounded : state.nextXid.toNat ≤ kMaxXids
  caches : ∀ backend, FinalCache state.log state.nextXid (state.caches backend)
  running : state.running = none
  inserted : fetchFromCommitLog state.log inserter = .committed
  header : ∃ cid hasNull hasVarWidth natts hoff, state.header =
    heapInsertHeader inserter cid hasNull hasVarWidth natts hoff
  deleters : state.deleters = []

section

variable (state : RowState)

def stackOf (backend : Nat) : List TransactionStateData :=
  match state.running with
  | none => []
  | some xact =>
    if xact.backend = backend then [{ transactionId := xact.xid, commandId := xact.commandId }]
    else []

/-- The XID of the transaction that runs, invalid if there is none. -/
def runningXid : TransactionId :=
  match state.running with
  | none => kInvalidTransactionId
  | some xact => xact.xid

def currentCommandId (backend : Nat) : CommandId :=
  match state.stackOf backend with
  | [] => kFirstCommandId
  | current :: _ => current.commandId

def takeSnapshot (backend : Nat) : SnapshotData :=
  finishSnapshot ([state.runningXid].filter transactionIdIsValid)
    state.nextXid (getCurrentTransactionIdIfAny (state.stackOf backend))
    (state.currentCommandId backend)

def visible (backend : Nat) (snapshot : SnapshotData) : Bool :=
  (heapTupleSatisfiesMVCC state.log (state.stackOf backend) snapshot
    (state.caches backend) state.header).visible

/-- `GetCurrentTransactionId`: the state and the transaction with its XID;
`none` outside a transaction or for an error. -/
def getCurrentTransactionId : Option (RowState × RunningXact) :=
  match state.running with
  | none => none
  | some xact =>
    if transactionIdIsValid xact.xid then some (state, xact)
    else
      match allocateNextTransactionId state.nextXid state.log (state.caches xact.backend) with
      | (.error _, _, _, _) => none
      | (.ok xid, nextXid, log, cache) =>
        let xact := { xact with xid := xid }
        some
          ({ state with
              nextXid := nextXid, log := log, caches := update state.caches xact.backend cache
              running := some xact }, xact)

/-- `CommandCounterIncrement`. -/
def incrementCommandCounter (xact : RunningXact) : RowState :=
  { state with
    running := some { xact with
      commandId :=
        if xact.commandId < kInvalidCommandId - 1 then xact.commandId + 1 else xact.commandId } }

/-- A call of the heap: the XID is asked for, the row written, and the command
counter incremented. -/
def call (write : RowState → RunningXact → RowState) : Option RowState :=
  match state.getCurrentTransactionId with
  | none => none
  | some (state, xact) => some ((write state xact).incrementCommandCounter xact)

end

def lockRow (strength : RowLockStrength) (state : RowState) (xact : RunningXact) : RowState :=
  let (multis, header) := heapLockHeader state.multis state.header xact.xid strength
  { state with multis := multis, header := header }

/-- The row as its last deleter leaves it. -/
def replaceRow (header : HeapTupleHeaderData) (state : RowState) (xact : RunningXact) : RowState :=
  { state with header := header, deleters := xact.xid :: state.deleters }

section

variable (state : RowState)

def deleteRow (xact : RunningXact) : RowState :=
  state.replaceRow (heapDeleteHeader state.header xact.xid xact.commandId) xact

def updateRow (newTid : ItemPointerData) (state : RowState) (xact : RunningXact) : RowState :=
  state.replaceRow (heapUpdateHeader state.header xact.xid xact.commandId newTid) xact

/-- The end of a transaction; one without an XID leaves no trace in the log. -/
def finish (record : LogWriter) : Option RowState :=
  match state.running with
  | none => none
  | some xact =>
    if transactionIdIsValid xact.xid then
      match record state.log (state.caches xact.backend) xact.xid with
      | .error _ => none
      | .ok (log, cache) =>
        some { state with
          log := log, caches := update state.caches xact.backend cache, running := none }
    else some { state with running := none }

def checkRow (backend : Nat) (snapshot : SnapshotData) : RowState :=
  let result := heapTupleSatisfiesMVCC state.log (state.stackOf backend)
    snapshot (state.caches backend) state.header
  { state with
    header := result.tup, caches := update state.caches backend result.cache }

def step : RowEvent → Option RowState
  | .begin backend =>
    match state.running with
    | some _ => none
    | none => some { state with running := some (.start backend) }
  | .heapLockTuple strength => state.call (lockRow strength)
  | .heapDelete => state.call deleteRow
  | .heapUpdate newTid => state.call (updateRow newTid)
  | .writeElsewhere => state.call fun state _ => state
  | .commandCounterIncrement => state.running.map state.incrementCommandCounter
  | .commit => state.finish transactionIdCommit
  | .abort => state.finish transactionIdAbort
  | .check backend snapshot => some (state.checkRow backend snapshot)

/-! ## Deletions take effect -/

def LastDeleterCommitted : Prop :=
  ∃ xid, state.deleters.head? = some xid ∧ logStatus state.log xid = .committed

def DeletedBy (backend : Nat) : Prop :=
  ∃ xact, state.running = some xact ∧ xact.backend = backend ∧ xact.xid ∈ state.deleters

/-- A deletion takes effect when it commits, and only then, for a snapshot that
was taken in the state `taken`.  A transaction's own deletion is left out. -/
def DeletionsTakeEffect (taken state : RowState) (backend : Nat) : Prop :=
  (taken.LastDeleterCommitted → state.deleters = taken.deleters →
    state.visible backend (taken.takeSnapshot backend) = false) ∧
  ((∀ xid ∈ state.deleters, logStatus state.log xid ≠ .committed) → ¬state.DeletedBy backend →
      state.visible backend (taken.takeSnapshot backend))

/-- An XID can be had: it is there, or the next one fits into the commit
log. -/
def XidAvailable : Prop :=
  transactionIdIsValid state.runningXid ∨ state.nextXid.toNat < kMaxXids

/-- The condition on a step.  A row is deleted or updated only while it carries
no mark of a lock and no hint that its deleter aborted.  It is locked only if it
was not deleted or its last deleter aborted.  And no check looks up a deleter
that runs. -/
def RowSafe : RowEvent → Prop
  | .heapLockTuple _ =>
    state.XidAvailable ∧ ∀ xid ∈ state.deleters.head?, logStatus state.log xid = .aborted
  | .heapDelete | .heapUpdate _ =>
    state.XidAvailable ∧ hasFlag state.header.tInfomask kHeapXmaxLocked = false ∧
      hasFlag state.header.tInfomask kHeapXmaxInvalid = false
  | .writeElsewhere => state.XidAvailable
  | .check backend snapshot =>
    looksUpXmax (state.stackOf backend) snapshot state.header →
      state.runningXid ≠ state.header.tXmax
  | _ => True

end

end RowState

/-! ## The invariant -/

/-- A row with the mark of a lock has no deleter that counts.  A row without it
names its last deleter, and a hint that the deleter aborted is right. -/
structure RowInvariant (inserter : TransactionId) (state : RowState) : Prop where
  normal : 3 ≤ inserter.toNat
  older : inserter.toNat < state.nextXid.toNat
  bounded : state.nextXid.toNat ≤ kMaxXids
  caches : ∀ backend, FinalCache state.log state.nextXid (state.caches backend)
  xmin : state.header.tXmin = inserter
  inserted : fetchFromCommitLog state.log inserter = .committed
  xminHint : hasFlag state.header.tInfomask kHeapXminInvalid = false
  running : transactionIdIsValid state.runningXid → 3 ≤ state.runningXid.toNat ∧
      state.runningXid.toNat < state.nextXid.toNat ∧
      fetchFromCommitLog state.log state.runningXid = .inProgress
  deleters : ∀ xid ∈ state.deleters, 3 ≤ xid.toNat ∧ xid.toNat < state.nextXid.toNat ∧
      (xid = state.runningXid ∨ Finished state.log xid)
  committedHint : hasFlag state.header.tInfomask kHeapXmaxCommitted →
    ∃ xid ∈ state.deleters, fetchFromCommitLog state.log xid = .committed
  locked : hasFlag state.header.tInfomask kHeapXmaxLocked →
    ∀ xid ∈ state.deleters.head?, fetchFromCommitLog state.log xid = .aborted
  unlocked : hasFlag state.header.tInfomask kHeapXmaxLocked = false →
    state.header.tXmax = state.deleters.head?.getD kInvalidTransactionId ∧
      (hasFlag state.header.tInfomask kHeapXmaxInvalid →
        ∀ xid ∈ state.deleters.head?, fetchFromCommitLog state.log xid = .aborted)

variable {xid : TransactionId}

theorem Finished.not_inProgress (finished : Finished log xid) :
    fetchFromCommitLog log xid ≠ .inProgress := by
  rcases finished with status | status <;> simp [status]

theorem transactionIdIsNormal_of_le (large : 3 ≤ xid.toNat) : transactionIdIsNormal xid :=
  transactionIdIsNormal_iff.2 (by omega)

theorem logStatus_of_le (log : CommitLog) (large : 3 ≤ xid.toNat) :
    logStatus log xid = fetchFromCommitLog log xid := by
  simp [logStatus, transactionIdIsNormal_of_le large]

theorem FinalCache.coherent (final : FinalCache log nextXid cache) : cache.Coherent log :=
  fun normal => (final normal).2.1

theorem RowState.JustInserted.rowInvariant
    (start : state.JustInserted inserter) : RowInvariant inserter state := by
  obtain ⟨_, hasNull, hasVarWidth, _, _, same⟩ := start.header
  have flags := formed_flags hasNull hasVarWidth
  have sameFlags : state.header.tInfomask = formedInfomask hasNull hasVarWidth := by
    rw [same]
    rfl
  have noDeleters := start.deleters
  constructor
  · exact start.normal
  · exact start.older
  · exact start.bounded
  · exact start.caches
  · rw [same]
    rfl
  · exact start.inserted
  · rw [sameFlags]
    exact flags.2.1
  · simp only [RowState.runningXid, start.running]
    intro valid
    cases valid
  · simp [noDeleters]
  · rw [sameFlags]
    intro set
    -- the bit is also the one of a frozen `t_xmin`
    exact absurd (flags.2.2.1.symm.trans set) (by decide)
  · simp [noDeleters]
  simp only [noDeleters]
  intro _
  refine ⟨?_, by simp⟩
  rw [same]
  rfl

/-! ## What snapshots see -/

/-- The snapshot takes the transaction for one that is over. -/
def SnapshotData.CountsAsOver (snapshot : SnapshotData) (xid : TransactionId) : Prop :=
  snapshot.xidGeXmax xid = false ∧ snapshot.xidInSnapshot xid = false

theorem RowState.exists_of_isCurrent {state : RowState}
    (current : transactionIdIsCurrentTransactionId (state.stackOf backend) xid) :
    ∃ xact, state.running = some xact ∧ xact.backend = backend ∧ xact.xid = xid := by
  unfold RowState.stackOf at current
  cases present : state.running with
  | none => simp [present, transactionIdIsCurrentTransactionId] at current
  | some xact =>
    by_cases here : xact.backend = backend
    · simpa [present, here, transactionIdIsCurrentTransactionId,
        getCurrentTransactionIdIfAny] using current
    · simp [present, here, transactionIdIsCurrentTransactionId] at current

theorem RowState.isCurrent_of_ne {state : RowState} (backend : Nat)
    (other : state.runningXid ≠ xid) :
    transactionIdIsCurrentTransactionId (state.stackOf backend) xid = false := by
  rw [← not_eq_true]
  intro current
  obtain ⟨_, present, _, same⟩ := exists_of_isCurrent current
  apply other
  simp [RowState.runningXid, present, same]

namespace RowInvariant

variable {inserter : TransactionId} {state : RowState} (kept : RowInvariant inserter state)

include kept

theorem takeSnapshot_counts (backend : Nat) (below : xid.toNat < state.nextXid.toNat)
    (other : state.runningXid ≠ xid) : (state.takeSnapshot backend).CountsAsOver xid := by
  have bounded := kept.bounded
  constructor
  · have isNext : (state.takeSnapshot backend).xmax = state.nextXid := by
      simp [RowState.takeSnapshot, finishSnapshot, getNextTransactionId]
    unfold SnapshotData.xidGeXmax
    rw [isNext, transactionIdFollowsOrEquals_eq_not,
      transactionIdPrecedes_eq_lt (by omega) (by unfold kMaxXids at bounded; omega)]
    simp [below]
  · rw [← not_eq_true, SnapshotData.xidInSnapshot_iff]
    simp only [RowState.takeSnapshot, finishSnapshot, mem_filter, mem_singleton]
    rintro ⟨same, _⟩
    exact other same.symm

theorem runningXid_ne_of_finished (large : 3 ≤ xid.toNat) (finished : Finished state.log xid) :
    state.runningXid ≠ xid := by
  rintro rfl
  have valid := transactionIdIsValid_of_normal (transactionIdIsNormal_of_le large)
  exact finished.not_inProgress (kept.running valid).2.2

theorem runningXid_ne_inserter : state.runningXid ≠ inserter :=
  kept.runningXid_ne_of_finished kept.normal (.inl kept.inserted)

theorem tXmax_eq (free : hasFlag state.header.tInfomask kHeapXmaxLocked = false)
    (last : state.deleters.head? = some xid) : state.header.tXmax = xid := by
  rw [(kept.unlocked free).1, last]
  rfl

section

variable {backend : Nat} {snapshot : SnapshotData} (inserted : snapshot.CountsAsOver inserter)

include inserted

theorem inserterShown :
    Visibility.inserterShown state.log (state.stackOf backend) snapshot state.header := by
  obtain ⟨notFuture, notRunning⟩ := inserted
  have current := RowState.isCurrent_of_ne backend kept.runningXid_ne_inserter
  have committed : logStatus state.log inserter = .committed := by
    rw [logStatus_of_le _ kept.normal, kept.inserted]
  have valid := transactionIdIsValid_of_normal (transactionIdIsNormal_of_le kept.normal)
  unfold Visibility.inserterShown getXminStatus
  rw [kept.xminHint]
  by_cases hinted : hasFlag state.header.tInfomask kHeapXminCommitted
  · simp [hinted]
  by_cases frozen : hasFlag state.header.tInfomask kHeapXminFrozen
  · simp [hinted, frozen]
  · simp [hinted, frozen, inserterTest, kept.xmin, valid, current,
      xidVisible, notFuture, notRunning, committed]

theorem visible_eq : state.visible backend snapshot =
      !deleterHides state.log (state.stackOf backend) snapshot state.header := by
  rw [RowState.visible, (heapTupleSatisfiesMVCC_coherent (state.stackOf backend) snapshot
      (kept.caches backend).coherent state.header).1,
    verdict, kept.inserterShown inserted, Bool.true_and]

theorem invisible_of_committed (last : state.deleters.head? = some xid)
    (status : fetchFromCommitLog state.log xid = .committed) (deleted : snapshot.CountsAsOver xid) :
    state.visible backend snapshot = false := by
  obtain ⟨large, _, _⟩ := kept.deleters xid (mem_of_mem_head? last)
  have free : hasFlag state.header.tInfomask kHeapXmaxLocked = false := by
    rw [← not_eq_true]
    intro set
    have aborted := kept.locked set xid last
    rw [status] at aborted
    contradiction
  have notInvalid : hasFlag state.header.tInfomask kHeapXmaxInvalid = false := by
    rw [← not_eq_true]
    intro set
    have aborted := (kept.unlocked free).2 set xid last
    rw [status] at aborted
    contradiction
  have other := kept.runningXid_ne_of_finished large (.inl status)
  have sameXmax := kept.tXmax_eq free last
  have valid := transactionIdIsValid_of_normal (transactionIdIsNormal_of_le large)
  have region : inFinishedRegion snapshot xid := by
    simp [inFinishedRegion, deleted.1, deleted.2]
  rw [kept.visible_eq inserted, deleterHides, sameXmax, valid, free, getXmaxStatus, notInvalid]
  by_cases hinted : hasFlag state.header.tInfomask kHeapXmaxCommitted
  · simp [hinted, region]
  have recorded : logStatus state.log xid = .committed := by
    rw [logStatus_of_le state.log large, status]
  simp [hinted, deleterTest, sameXmax, RowState.isCurrent_of_ne backend other, region, recorded]

theorem visible_of_uncommitted (uncommitted : ∀ xid ∈ state.deleters,
      logStatus state.log xid ≠ .committed)
    (notOwn : ¬state.DeletedBy backend) : state.visible backend snapshot := by
  have unhinted : hasFlag state.header.tInfomask kHeapXmaxCommitted = false := by
    rw [← not_eq_true]
    intro set
    obtain ⟨xid, mem, committed⟩ := kept.committedHint set
    apply uncommitted xid mem
    rw [logStatus_of_le state.log (kept.deleters xid mem).1, committed]
  rw [kept.visible_eq inserted, deleterHides]
  cases free : hasFlag state.header.tInfomask kHeapXmaxLocked with
  | true => simp
  | false =>
    cases last : state.deleters.head? with
    | none =>
      have invalid : state.header.tXmax = kInvalidTransactionId := by
        rw [(kept.unlocked free).1, last]
        rfl
      simp [invalid, transactionIdIsValid]
    | some xid =>
      have mem := mem_of_mem_head? last
      have sameXmax := kept.tXmax_eq free last
      have uncommittedXid := uncommitted xid mem
      have current : transactionIdIsCurrentTransactionId (state.stackOf backend) xid = false := by
        rw [← not_eq_true]
        intro own
        obtain ⟨xact, present, here, same⟩ := RowState.exists_of_isCurrent own
        apply notOwn
        exact ⟨xact, present, here, by rwa [same]⟩
      cases invalid : hasFlag state.header.tInfomask kHeapXmaxInvalid with
      | true => simp [getXmaxStatus, unhinted, invalid]
      | false =>
        simp [getXmaxStatus, unhinted, invalid, deleterTest, sameXmax, current, uncommittedXid]

end

end RowInvariant

/-- XIDs are used up and outcomes stay. -/
structure RowState.Extends (state after : RowState) : Prop where
  grown : state.nextXid.toNat ≤ after.nextXid.toNat
  outcomes : ∀ xid, xid.toNat < state.nextXid.toNat → Finished state.log xid →
    fetchFromCommitLog after.log xid = fetchFromCommitLog state.log xid

namespace RowState.Extends

variable {state : RowState}

theorem of_same (sameNext : after.nextXid = state.nextXid)
    (sameLog : after.log = state.log) : state.Extends after := by
  constructor
  · rw [sameNext]
  · intro _ _ _
    rw [sameLog]

theorem trans (first : state.Extends during) (second : during.Extends after) :
    state.Extends after := by
  refine ⟨first.grown.trans second.grown, ?_⟩
  intro xid below finished
  have same := first.outcomes xid below finished
  rw [second.outcomes xid (below.trans_le first.grown), same]
  rwa [Finished, same]

end RowState.Extends

namespace RowInvariant

variable {inserter : TransactionId} {state : RowState} (kept : RowInvariant inserter state)

include kept

/-- A step of the transaction manager: the row stays as it is, and the log keeps
the outcomes it has. -/
theorem carry (extended : state.Extends after) (sameHeader : after.header = state.header)
    (sameDeleters : after.deleters = state.deleters) (bounded : after.nextXid.toNat ≤ kMaxXids)
    (caches : ∀ backend, FinalCache after.log after.nextXid (after.caches backend))
    (running : transactionIdIsValid after.runningXid →
      3 ≤ after.runningXid.toNat ∧ after.runningXid.toNat < after.nextXid.toNat ∧
        fetchFromCommitLog after.log after.runningXid = .inProgress)
    (ended : ∀ xid ∈ state.deleters, xid = state.runningXid →
      xid = after.runningXid ∨ Finished after.log xid) : RowInvariant inserter after := by
  obtain ⟨grown, outcomes⟩ := extended
  have committed {xid : TransactionId} (below : xid.toNat < state.nextXid.toNat)
      (status : fetchFromCommitLog state.log xid = .committed) :
      fetchFromCommitLog after.log xid = .committed := by
    rw [outcomes xid below (.inl status), status]
  have aborted {xid : TransactionId} (last : xid ∈ state.deleters.head?)
      (status : fetchFromCommitLog state.log xid = .aborted) :
      fetchFromCommitLog after.log xid = .aborted := by
    have below := (kept.deleters xid (mem_of_mem_head? last)).2.1
    rw [outcomes xid below (.inr status), status]
  constructor
  · exact kept.normal
  · exact kept.older.trans_le grown
  · exact bounded
  · exact caches
  · rw [sameHeader, kept.xmin]
  · exact committed kept.older kept.inserted
  · rw [sameHeader, kept.xminHint]
  · exact running
  · rw [sameDeleters]
    intro xid mem
    obtain ⟨large, below, status⟩ := kept.deleters xid mem
    refine ⟨large, below.trans_le grown, ?_⟩
    rcases status with current | finished
    · exact ended xid mem current
    · apply Or.inr
      rwa [Finished, outcomes xid below finished]
  · rw [sameHeader, sameDeleters]
    intro set
    obtain ⟨xid, mem, status⟩ := kept.committedHint set
    exact ⟨xid, mem, committed (kept.deleters xid mem).2.1 status⟩
  · rw [sameHeader, sameDeleters]
    intro set xid last
    exact aborted last (kept.locked set xid last)
  rw [sameHeader, sameDeleters]
  intro free
  refine ⟨(kept.unlocked free).1, ?_⟩
  intro set xid last
  exact aborted last ((kept.unlocked free).2 set xid last)

theorem setRunning {running : Option RunningXact}
    (sameXid : ({ state with running := running } : RowState).runningXid = state.runningXid) :
    RowInvariant inserter { state with running := running } := by
  refine kept.carry (.of_same rfl rfl) rfl rfl kept.bounded kept.caches ?_ ?_
  · intro valid
    rw [sameXid] at valid ⊢
    exact kept.running valid
  · intro _ _ current
    exact .inl (current.trans sameXid.symm)

theorem incrementCommandCounter (present : state.running = some xact) :
    RowInvariant inserter (state.incrementCommandCounter xact) := by
  apply kept.setRunning
  simp [RowState.runningXid, present]

end RowInvariant

section

variable (final : FinalCache log nextXid cache)

include final

theorem FinalCache.setStatus {next : TransactionId}
    (unfinished : fetchFromCommitLog log xid = .inProgress ∨ nextXid.toNat ≤ xid.toNat)
    (grown : nextXid.toNat ≤ next.toNat) (status : XidStatus) :
    FinalCache (setCommitLog log xid status) next cache := by
  intro normal
  obtain ⟨below, recorded, ended⟩ := final normal
  have other : cache.cachedXid ≠ xid := by
    rintro rfl
    rcases unfinished with current | _
    · exact ended (recorded.trans current)
    · omega
  refine ⟨below.trans_le grown, ?_, ended⟩
  rw [recorded, fetchFromCommitLog_setCommitLog, if_neg (fun both => other both.1)]

theorem FinalCache.invalidate
    (xid : TransactionId) : FinalCache log nextXid (cache.invalidate xid) := by
  unfold LogCache.invalidate
  split
  · intro normal
    exact absurd (show transactionIdIsNormal kInvalidTransactionId = true from normal) (by decide)
  · exact final

theorem FinalCache.fetch (below : xid.toNat < nextXid.toNat) (finished : Finished log xid) :
    FinalCache log nextXid (transactionLogFetch log cache xid).2 := by
  unfold transactionLogFetch
  split
  · exact final
  split
  · exact final
  intro _
  exact ⟨below, rfl, finished.not_inProgress⟩

end

theorem finalCache_update (all : ∀ backend, FinalCache log nextXid (caches backend))
    (own : FinalCache log nextXid cache) (backend : Nat) :
    FinalCache log nextXid (update caches owner cache backend) := by
  by_cases same : backend = owner
  · rw [same, update_self]
    exact own
  · rw [update_of_ne same]
    exact all backend

namespace RowInvariant

variable {inserter : TransactionId} {state : RowState} (kept : RowInvariant inserter state)

include kept

theorem valid_of_mem (mem : xid ∈ state.deleters) : transactionIdIsValid xid :=
  transactionIdIsValid_of_normal (transactionIdIsNormal_of_le (kept.deleters xid mem).1)

theorem getCurrentTransactionId (available : state.XidAvailable)
    (asked : state.getCurrentTransactionId = some (after, xact)) :
    RowInvariant inserter after ∧ state.Extends after ∧ after.running = some xact ∧
      transactionIdIsValid xact.xid ∧
      after.header = state.header ∧ after.deleters = state.deleters := by
  unfold RowState.getCurrentTransactionId at asked
  cases present : state.running with
  | none => simp [present] at asked
  | some current =>
    rw [present] at asked
    by_cases valid : transactionIdIsValid current.xid
    · simp only [valid, if_true] at asked
      cases asked
      exact ⟨kept, .of_same rfl rfl, present, valid, rfl, rfl⟩
    have room : state.nextXid.toNat < kMaxXids := by
      rcases available with already | room
      · simp only [RowState.runningXid, present] at already
        exact absurd already valid
      · exact room
    have large := kept.normal.trans kept.older.le
    have validNext := transactionIdIsValid_of_normal (transactionIdIsNormal_of_le large)
    have succ : (state.nextXid + 1).toNat = state.nextXid.toNat + 1 := by
      apply Ledger.toNat_succ
      unfold kMaxXids at room
      omega
    have keeps {xid : TransactionId} (below : xid.toNat < state.nextXid.toNat) : fetchFromCommitLog
            (setCommitLog state.log state.nextXid .inProgress) xid =
          fetchFromCommitLog state.log xid := by
      rw [fetchFromCommitLog_setCommitLog, if_neg]
      rintro ⟨rfl, _⟩
      omega
    have notZero : (state.nextXid == kInvalidTransactionId) = false := by
      simpa [transactionIdIsValid] using validNext
    simp only [valid, if_false, allocateNextTransactionId, notZero, transactionIdSetInProgress,
      transactionIdIsNormal_of_le large, Bool.not_true, Bool.false_eq_true] at asked
    cases asked
    have extended : state.Extends
        { state with
          nextXid := state.nextXid + 1, log := setCommitLog state.log state.nextXid .inProgress
          caches := update state.caches current.backend
            ((state.caches current.backend).invalidate state.nextXid)
          running := some { current with xid := state.nextXid } } := by
      refine ⟨?_, fun xid below _ => keeps below⟩
      rw [succ]
      omega
    refine ⟨kept.carry extended rfl rfl ?_ ?_ ?_ ?_, extended, rfl, validNext, rfl, rfl⟩
    · simp only [succ]
      omega
    · have final (backend : Nat) : FinalCache (setCommitLog state.log state.nextXid .inProgress)
          (state.nextXid + 1) (state.caches backend) :=
        (kept.caches backend).setStatus (.inr le_rfl) (by omega) .inProgress
      exact finalCache_update final ((final _).invalidate _)
    · intro _
      refine ⟨large, ?_, ?_⟩
      · simp only [RowState.runningXid, succ]
        omega
      · rw [fetchFromCommitLog_setCommitLog, if_pos ⟨rfl, room⟩]
    · intro xid mem isRunning
      have deleting := kept.valid_of_mem mem
      rw [isRunning, RowState.runningXid, present] at deleting
      exact absurd deleting valid

theorem finish (final : status = .committed ∨ status = .aborted) (records : Records record status)
    (ended : state.finish record = some after) :
    RowInvariant inserter after ∧ state.Extends after := by
  unfold RowState.finish at ended
  cases present : state.running with
  | none => simp [present] at ended
  | some xact =>
    have isRunning : state.runningXid = xact.xid := by simp only [RowState.runningXid, present]
    rw [present] at ended
    by_cases valid : transactionIdIsValid xact.xid
    · obtain ⟨large, below, unfinished⟩ := kept.running (by rw [isRunning]; exact valid)
      rw [isRunning] at large below unfinished
      simp only [valid, if_true, records _ _ _ (transactionIdIsNormal_of_le large)] at ended
      cases ended
      have other {xid : TransactionId} (done : Finished state.log xid) : xid ≠ xact.xid := by
        rintro rfl
        exact done.not_inProgress unfinished
      have extended : state.Extends
          { state with
            log := setCommitLog state.log xact.xid status
            caches := update state.caches xact.backend
              ((state.caches xact.backend).invalidate xact.xid)
            running := none } := by
        refine ⟨le_rfl, ?_⟩
        intro xid _ done
        rw [fetchFromCommitLog_setCommitLog, if_neg (fun both => other done both.1)]
      refine ⟨kept.carry extended rfl rfl kept.bounded ?_ ?_ ?_, extended⟩
      · have final (backend : Nat) : FinalCache
            (setCommitLog state.log xact.xid status) state.nextXid
            (state.caches backend) :=
          (kept.caches backend).setStatus (.inl unfinished) le_rfl status
        exact finalCache_update final ((final _).invalidate _)
      · intro none
        exact absurd (show transactionIdIsValid kInvalidTransactionId = true from none) (by decide)
      intro xid _ current
      apply Or.inr
      rw [Finished, current, isRunning, fetchFromCommitLog_setCommitLog,
        if_pos ⟨rfl, below.trans_le kept.bounded⟩]
      exact final
    · simp only [valid, if_false, false_eq_true] at ended
      cases ended
      refine ⟨kept.carry (.of_same rfl rfl) rfl rfl kept.bounded kept.caches
        ?_ ?_, .of_same rfl rfl⟩
      · intro none
        exact absurd (show transactionIdIsValid kInvalidTransactionId = true from none) (by decide)
      intro xid mem current
      have deleting := kept.valid_of_mem mem
      rw [current, isRunning] at deleting
      exact absurd deleting valid

theorem lockRow (strength : RowLockStrength) (unclaimed : ∀ xid ∈ state.deleters.head?,
      fetchFromCommitLog state.log xid = .aborted) :
    RowInvariant inserter (state.lockRow strength xact) := by
  obtain ⟨mark, notXmin, notXmax, infomask, sameXmin⟩ :=
    heapLockHeader_spec state.multis state.header xact.xid strength
  have locked := hasFlag_lockInfomask_locked state.header.tInfomask mark
  unfold RowState.lockRow
  refine { kept with
    xmin := sameXmin.trans kept.xmin, xminHint := ?_, committedHint := ?_
    locked := fun _ => unclaimed, unlocked := ?_ }
  · rw [infomask, hasFlag_lockInfomask_of_disjoint (by decide) (by decide) notXmin]
    exact kept.xminHint
  · rw [infomask, hasFlag_lockInfomask_of_disjoint (by decide) (by decide) notXmax]
    exact kept.committedHint
  rw [infomask, locked]
  intro _
  contradiction

theorem replaceRow (present : state.running = some xact) (valid : transactionIdIsValid xact.xid)
    (free : hasFlag state.header.tInfomask kHeapXmaxLocked = false)
    (unhinted : hasFlag state.header.tInfomask kHeapXmaxInvalid = false)
    (sameXmin : header.tXmin = state.header.tXmin) (written : header.tXmax = xact.xid)
    (sameFlags : header.tInfomask = state.header.tInfomask) :
    RowInvariant inserter (state.replaceRow header xact) := by
  have isRunning : state.runningXid = xact.xid := by simp only [RowState.runningXid, present]
  unfold RowState.replaceRow
  refine { kept with
    xmin := sameXmin.trans kept.xmin, xminHint := ?_, deleters := ?_, committedHint := ?_
    locked := ?_, unlocked := ?_ }
  · simp only [sameFlags]
    exact kept.xminHint
  · intro xid mem
    rcases mem_cons.1 mem with rfl | earlier
    · obtain ⟨large, below, _⟩ := kept.running (by rwa [isRunning])
      rw [isRunning] at large below
      exact ⟨large, below, .inl isRunning.symm⟩
    · exact kept.deleters xid earlier
  · simp only [sameFlags]
    intro set
    obtain ⟨xid, mem, status⟩ := kept.committedHint set
    exact ⟨xid, mem_cons_of_mem _ mem, status⟩
  · simp only [sameFlags, free]
    intro set
    contradiction
  simp only [sameFlags, unhinted]
  intro _
  refine ⟨written, ?_⟩
  intro set
  contradiction

theorem head_of_looksUpXmax (looked : looksUpXmax stack snapshot state.header) :
    hasFlag state.header.tInfomask kHeapXmaxLocked = false ∧
      state.deleters.head? = some state.header.tXmax := by
  simp only [looksUpXmax, and_eq_true, not_eq_true'] at looked
  have valid := looked.1.1.1.1
  have free := looked.1.1.1.2
  refine ⟨free, ?_⟩
  cases last : state.deleters.head? with
  | some _ => rw [kept.tXmax_eq free last]
  | none =>
    rw [(kept.unlocked free).1, last] at valid
    exact absurd (show transactionIdIsValid kInvalidTransactionId = true from valid) (by decide)

section

variable {backend : Nat} {snapshot : SnapshotData}
  (ended : looksUpXmax (state.stackOf backend) snapshot state.header →
    state.runningXid ≠ state.header.tXmax)

include ended

theorem finished_of_looksUpXmax
    (looked : looksUpXmax (state.stackOf backend) snapshot state.header) :
    3 ≤ state.header.tXmax.toNat ∧ state.header.tXmax.toNat < state.nextXid.toNat ∧
      Finished state.log state.header.tXmax := by
  obtain ⟨large, below, status⟩ := kept.deleters _
    (mem_of_mem_head? (kept.head_of_looksUpXmax looked).2)
  refine ⟨large, below, status.resolve_left ?_⟩
  intro running
  exact ended looked running.symm

theorem hintsImply_check : HintsImply (heapTupleSatisfiesMVCC state.log (state.stackOf backend)
        snapshot (state.caches backend) state.header).tup True False
      (∃ xid ∈ state.deleters, fetchFromCommitLog state.log xid = .committed)
      (hasFlag state.header.tInfomask kHeapXmaxLocked = false →
        ∀ xid ∈ state.deleters.head?, fetchFromCommitLog state.log xid = .aborted) := by
  have coherent := (kept.caches backend).coherent
  have before : HintsImply state.header True False (∃ xid ∈ state.deleters,
        fetchFromCommitLog state.log xid = .committed)
      (hasFlag state.header.tInfomask kHeapXmaxLocked = false →
        ∀ xid ∈ state.deleters.head?, fetchFromCommitLog state.log xid = .aborted) := by
    refine ⟨fun _ => trivial, ?_, kept.committedHint, ?_⟩
    · rw [kept.xminHint]
      exact Bool.noConfusion
    · exact fun set free => (kept.unlocked free).2 set
  refine before.check _ _ coherent.sound (fun _ => trivial) ?_ ?_ ?_
  · rw [kept.xmin]
    intro aborted
    rw [logStatus_of_le _ kept.normal, kept.inserted] at aborted
    contradiction
  · intro looked committed
    obtain ⟨large, _, _⟩ := kept.finished_of_looksUpXmax ended looked
    rw [logStatus_of_le _ large] at committed
    exact ⟨_, mem_of_mem_head? (kept.head_of_looksUpXmax looked).2, committed⟩
  intro _ looked failed _ xid last
  obtain ⟨large, _, finished⟩ := kept.finished_of_looksUpXmax ended looked
  have same := (kept.head_of_looksUpXmax looked).2
  rw [Option.mem_def, same, Option.some.injEq] at last
  subst last
  refine finished.resolve_left ?_
  intro committed
  have first := (checkXmin_coherent (state.stackOf backend) snapshot coherent state.header).2
  rw [(transactionIdDidCommit_coherent first _).1, logStatus_of_le _ large, committed] at failed
  contradiction

theorem finalCache_check : FinalCache state.log state.nextXid
      (heapTupleSatisfiesMVCC state.log (state.stackOf backend) snapshot
        (state.caches backend) state.header).cache := by
  have inserterOver : Finished state.log state.header.tXmin := by
    rw [kept.xmin]
    exact .inl kept.inserted
  have inserterBelow : state.header.tXmin.toNat < state.nextXid.toNat := by
    rw [kept.xmin]
    exact kept.older
  have first := checkXmin_cache (state.stackOf backend) snapshot
    (fun _ final => FinalCache.fetch final inserterBelow inserterOver)
    (kept.caches backend)
  obtain ⟨firstXmax, firstLooksUp⟩ := checkXmin_looksUpXmax
    (state.stackOf backend) snapshot
  unfold heapTupleSatisfiesMVCC
  dsimp only
  split
  · exact first
  rw [(checkXmax_effects ..).2, firstLooksUp, firstXmax]
  split
  · next looked =>
      obtain ⟨_, below, finished⟩ := kept.finished_of_looksUpXmax ended looked
      exact first.fetch below finished
  · exact first

theorem checkRow : RowInvariant inserter (state.checkRow backend snapshot) := by
  obtain ⟨sameXmin, sameXmax⟩ := heapTupleSatisfiesMVCC_xids state.log
    (state.stackOf backend) snapshot (state.caches backend) state.header
  have sameLock := heapTupleSatisfiesMVCC_locked state.log
    (state.stackOf backend) snapshot (state.caches backend) state.header
  have hints := kept.hintsImply_check ended
  unfold RowState.checkRow
  refine { kept with
    caches := finalCache_update kept.caches (kept.finalCache_check ended)
    xmin := sameXmin.trans kept.xmin, xminHint := ?_, committedHint := hints.ofXmaxCommitted
    locked := ?_, unlocked := ?_ }
  · rw [← not_eq_true]
    exact hints.ofXminInvalid
  · rw [sameLock]
    exact kept.locked
  rw [sameLock, sameXmax]
  intro free
  exact ⟨(kept.unlocked free).1, fun set => hints.ofXmaxInvalid set free⟩

end

theorem call (called : state.call write = some after) (available : state.XidAvailable)
    (sameLog : ∀ during xact, (write during xact).nextXid = during.nextXid ∧
      (write during xact).log = during.log ∧ (write during xact).running = during.running)
    (written : ∀ during xact, RowInvariant inserter during → state.Extends during →
      during.running = some xact → transactionIdIsValid xact.xid →
      during.header = state.header → during.deleters = state.deleters →
      RowInvariant inserter (write during xact)) :
    RowInvariant inserter after ∧ state.Extends after := by
  unfold RowState.call at called
  cases asked : state.getCurrentTransactionId with
  | none => simp [asked] at called
  | some result =>
    obtain ⟨during, xact⟩ := result
    simp only [asked] at called
    cases called
    obtain ⟨keptDuring, extended, present, valid, sameHeader,
      sameDeleters⟩ := kept.getCurrentTransactionId available asked
    have keptWritten := written during xact keptDuring extended present
      valid sameHeader sameDeleters
    obtain ⟨sameNext, sameLog, sameRunning⟩ := sameLog during xact
    exact ⟨keptWritten.incrementCommandCounter (sameRunning.trans present),
      extended.trans (.of_same sameNext sameLog)⟩

theorem callReplace (written : HeapTupleHeaderData → RunningXact → HeapTupleHeaderData)
    (sameXmin : ∀ header xact, (written header xact).tXmin = header.tXmin)
    (xmax : ∀ header xact, (written header xact).tXmax = xact.xid)
    (sameFlags : ∀ header xact, (written header xact).tInfomask = header.tInfomask)
    (available : state.XidAvailable) (free : hasFlag state.header.tInfomask kHeapXmaxLocked = false)
    (unhinted : hasFlag state.header.tInfomask kHeapXmaxInvalid = false)
    (called : state.call (fun during xact =>
      during.replaceRow (written during.header xact) xact) = some after) :
    RowInvariant inserter after ∧ state.Extends after := by
  refine kept.call called available (fun _ _ => ⟨rfl, rfl, rfl⟩) ?_
  intro during xact keptDuring _ present valid sameHeader _
  refine keptDuring.replaceRow present valid ?_ ?_ (sameXmin ..) (xmax ..) (sameFlags ..)
  · rw [sameHeader, free]
  · rw [sameHeader, unhinted]

theorem step {after : RowState} {event : RowEvent}
    (safe : state.RowSafe event) (stepped : state.step event = some after) :
    RowInvariant inserter after ∧ state.Extends after := by
  cases event with
  | begin backend =>
    unfold RowState.step at stepped
    cases present : state.running with
    | some xact => simp [present] at stepped
    | none =>
      simp only [present] at stepped
      cases stepped
      refine ⟨kept.setRunning ?_, .of_same rfl rfl⟩
      simp [RowState.runningXid, present, RunningXact.start]
  | heapLockTuple _ =>
    obtain ⟨available, unclaimed⟩ := safe
    refine kept.call stepped available (fun _ _ => ⟨rfl, rfl, rfl⟩) ?_
    intro during xact keptDuring extended _ _ _ sameDeleters
    apply keptDuring.lockRow
    rw [sameDeleters]
    intro xid last
    obtain ⟨large, below, _⟩ := kept.deleters xid (mem_of_mem_head? last)
    have aborted := unclaimed xid last
    rw [logStatus_of_le _ large] at aborted
    rw [extended.outcomes xid below (.inr aborted), aborted]
  | heapDelete =>
    obtain ⟨available, free, unhinted⟩ := safe
    exact kept.callReplace (fun header xact => heapDeleteHeader header xact.xid xact.commandId)
      (fun _ _ => rfl) (fun _ _ => rfl) (fun _ _ => rfl) available free
      unhinted stepped
  | heapUpdate newTid =>
    obtain ⟨available, free, unhinted⟩ := safe
    exact kept.callReplace (fun header xact =>
        heapUpdateHeader header xact.xid xact.commandId newTid)
      (fun _ _ => rfl) (fun _ _ => rfl) (fun _ _ => rfl) available free
      unhinted stepped
  | writeElsewhere =>
    refine kept.call stepped safe (fun _ _ => ⟨rfl, rfl, rfl⟩) ?_
    intro during xact keptDuring _ _ _ _ _
    exact keptDuring
  | commandCounterIncrement =>
    obtain ⟨xact, present, rfl⟩ := Option.map_eq_some_iff.1 stepped
    exact ⟨kept.incrementCommandCounter present, .of_same rfl rfl⟩
  | commit =>
    exact kept.finish (.inl rfl) records_transactionIdCommit stepped
  | abort =>
    exact kept.finish (.inr rfl) records_transactionIdAbort stepped
  | check backend _ =>
    cases stepped
    exact ⟨kept.checkRow safe, .of_same rfl rfl⟩

theorem run (run : Reaches RowState.step RowState.RowSafe state after) :
    RowInvariant inserter after ∧ state.Extends after := by
  apply run.invariant fun later => RowInvariant inserter later ∧ state.Extends later
  · rintro _ _ later ⟨keptBefore, extended⟩ safe stepped
    obtain ⟨keptLater, further⟩ := keptBefore.step safe stepped
    exact ⟨keptLater, extended.trans further⟩
  · exact ⟨kept, .of_same rfl rfl⟩

theorem deletionsTakeEffect (keptAfter : RowInvariant inserter after)
    (extended : state.Extends after) (backend : Nat) : state.DeletionsTakeEffect after backend := by
  have inserted := kept.takeSnapshot_counts backend kept.older kept.runningXid_ne_inserter
  constructor
  · rintro ⟨xid, last, status⟩ sameDeleters
    obtain ⟨large, below, _⟩ := kept.deleters xid (mem_of_mem_head? last)
    rw [logStatus_of_le state.log large] at status
    have ended : Finished state.log xid := Or.inl status
    have deleted := kept.takeSnapshot_counts backend below
      (kept.runningXid_ne_of_finished large ended)
    apply keptAfter.invisible_of_committed inserted _ _ deleted
    · rw [sameDeleters, last]
    · rw [extended.outcomes xid below ended, status]
  · exact keptAfter.visible_of_uncommitted inserted

end RowInvariant

namespace RowState

instance (state : RowState) : Decidable state.XidAvailable := inferInstanceAs (Decidable (_ ∨ _))

instance (state : RowState) (event : RowEvent) : Decidable (state.RowSafe event) := by
  cases event <;> dsimp only [RowSafe] <;> infer_instance

end RowState

/-- Whatever locks, deletions, updates and checks a row has been through, as
long as each step meets its condition, a snapshot finds the row gone from the
commit of its last deleter on, and finds it as long as no deleter commits. -/
theorem rowRun_deletionsTakeEffect {inserter : TransactionId}
    {start taken state : RowState} (inserted : start.JustInserted inserter)
    (first : Reaches RowState.step RowState.RowSafe start taken)
    (second : Reaches RowState.step RowState.RowSafe taken state)
    (backend : Nat) : taken.DeletionsTakeEffect state backend := by
  obtain ⟨kept, _⟩ := inserted.rowInvariant.run first
  obtain ⟨keptAfter, extended⟩ := kept.run second
  exact kept.deletionsTakeEffect keptAfter extended backend

def insertedRow : RowState :=
  { nextXid := 4, log := setCommitLog (fun _ => .inProgress) 3 .committed, caches := fun _ => .empty
    running := none, multis := .initial, header := heapInsertHeader 3 0 false false 1 24
    deleters := [] }

theorem justInserted_insertedRow : insertedRow.JustInserted 3 where
  normal := by decide
  older := by decide
  bounded := by decide
  caches := by
    intro _ normal
    exact absurd (show transactionIdIsNormal LogCache.empty.cachedXid = true from normal)
      (by decide)
  running := rfl
  inserted := rfl
  header := ⟨0, false, false, 1, 24, rfl⟩
  deleters := rfl

/-- Transaction 4 deletes the row and aborts, transaction 5 deletes it and
commits. -/
def deletionAfterAbort : List RowEvent :=
  [.begin 1, .heapDelete, .abort, .begin 2, .heapDelete, .commit]

theorem deletionAfterAbort_effective : ∃ taken state,
      runActions RowState.step insertedRow deletionAfterAbort = some taken ∧
      taken.step (.check 3 ⟨6, 6, [], 0, 0⟩) = some state ∧ taken.LastDeleterCommitted ∧
      state.visible 3 (taken.takeSnapshot 3) = false := by
  have allowed : AllAllowed RowState.step RowState.RowSafe insertedRow
      deletionAfterAbort := by
    decide +kernel
  have first := Reaches.of_runActions allowed rfl
  refine ⟨_, _, rfl, rfl, ⟨5, rfl, rfl⟩, ?_⟩
  apply (rowRun_deletionsTakeEffect justInserted_insertedRow first _ 3).1
  · exact ⟨5, rfl, rfl⟩
  · rfl
  · refine .single ⟨.check 3 ⟨6, 6, [], 0, 0⟩, ?_, rfl⟩
    decide +kernel

/-- Transaction 4 locks the row and commits, transaction 5 deletes it and
commits. -/
def deletionAfterLock : List RowEvent :=
  [.begin 1, .heapLockTuple .forUpdate, .commit, .begin 2, .heapDelete, .commit]

/-- The deletion has no effect: `heap_delete` leaves the mark of the lock, so
the deleter is taken for a locker. -/
theorem deletionAfterLock_ineffective : ∃ state,
      runActions RowState.step insertedRow deletionAfterLock = some state ∧
      state.LastDeleterCommitted ∧ state.visible 3 (state.takeSnapshot 3) ∧
      ¬state.DeletionsTakeEffect state 3 := by
  have shown : ∀ state, runActions RowState.step insertedRow deletionAfterLock = some state →
      state.visible 3 (state.takeSnapshot 3) := by
    rintro _ ⟨⟩
    decide +kernel
  have committed : ∀ state, runActions RowState.step insertedRow
      deletionAfterLock = some state → state.LastDeleterCommitted := by
    rintro _ ⟨⟩
    exact ⟨5, rfl, rfl⟩
  refine ⟨_, rfl, committed _ rfl, shown _ rfl, ?_⟩
  intro effective
  have hidden := effective.1 (committed _ rfl) rfl
  exact absurd ((shown _ rfl).symm.trans hidden) (by decide)

end Pgcpp.Transaction
