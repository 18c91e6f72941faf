import Pgcpp.Lib.Transition
import Pgcpp.Transaction.Transam

/-!
# One commit log, many caches

Several backends write to and look up one commit log.  Each has a private
one-entry cache, which only its own writes invalidate, and the log drops what is
recorded for XIDs beyond its capacity.
-/

namespace Pgcpp.Transaction

open Lib Function LogCache

abbrev NormalXid := { xid : TransactionId // transactionIdIsNormal xid = true }

theorem transactionIdGetStatus_normal (log : CommitLog) (cache : LogCache) (xid : NormalXid) :
    (transactionIdGetStatus log cache xid).1 =
      if cache.cachedXid = xid then cache.cachedStatus else fetchFromCommitLog log xid := by
  simp only [transactionIdGetStatus, transactionLogFetch, xid.2]
  by_cases cached : cache.cachedXid = xid
  · simp [cached]
  · simp [cached, Ne.symm cached]

theorem transactionIdGetStatus_invalidate (cache : LogCache) (xid other : NormalXid) :
    (transactionIdGetStatus log (cache.invalidate xid) other).1 =
      if other = xid then fetchFromCommitLog log other
      else (transactionIdGetStatus log cache other).1 := by
  have notZero : kInvalidTransactionId ≠ (other : TransactionId) := by
    have valid := transactionIdIsValid_of_normal other.2
    rw [transactionIdIsValid_iff] at valid
    exact valid.symm
  rw [transactionIdGetStatus_normal, transactionIdGetStatus_normal]
  by_cases hit : (xid : TransactionId) = cache.cachedXid
  · by_cases same : other = xid
    · subst same
      rw [hit] at notZero
      simp [invalidate, hit, notZero]
    have apart : cache.cachedXid ≠ other := by
      rw [← hit]
      exact fun equal => same (Subtype.ext equal.symm)
    simp [invalidate, hit, notZero, apart]
  · have unchanged : cache.invalidate xid = cache := by simp [invalidate, hit]
    rw [unchanged]
    by_cases same : other = xid
    · subst same
      simp [Ne.symm hit]
    · simp [same]

theorem fetch_setCommitLog_self : fetchFromCommitLog (setCommitLog log xid status) xid =
      if kMaxXids ≤ xid.toNat then .inProgress else status := by
  rw [fetchFromCommitLog_setCommitLog]
  by_cases inside : xid.toNat < kMaxXids
  · rw [if_pos ⟨rfl, inside⟩, if_neg (not_le.2 inside)]
  · rw [fetchFromCommitLog]
    simp [not_lt.1 inside]

inductive LogCall where
  | commit (xid : NormalXid)
  | abort (xid : NormalXid)
  | setInProgress (xid : NormalXid)
  | getStatus (xid : NormalXid)

/-- The shared log, the private caches, and a ghost record of the status most
recently recorded for every XID. -/
structure SharedLog (ι : Type) where
  log : CommitLog
  caches : ι → LogCache
  recorded : TransactionId → XidStatus

namespace SharedLog

variable {ι : Type}

def initial : SharedLog ι :=
  { log := fun _ => .inProgress, caches := fun _ => .empty, recorded := fun _ => .inProgress }

/-- `TransactionIdGetStatus` in a backend. -/
def statusIn (state : SharedLog ι) (backend : ι) (xid : TransactionId) : XidStatus :=
  (transactionIdGetStatus state.log (state.caches backend) xid).1

/-- Every backend gets the status recorded last. -/
def Agrees (state : SharedLog ι) : Prop :=
  ∀ backend (xid : NormalXid), state.statusIn backend xid = state.recorded xid

variable [DecidableEq ι]

/-- The state after a call has returned a log and a cache. -/
def written (state : SharedLog ι) (backend : ι) (xid : TransactionId)
    (status : XidStatus) (result : CommitLog × LogCache) : SharedLog ι :=
  { log := result.1, caches := update state.caches backend result.2
    recorded := update state.recorded xid status }

def step (state : SharedLog ι) : ι × LogCall → Option (SharedLog ι)
  | (backend, .commit xid) =>
    match transactionIdCommit state.log (state.caches backend) xid with
    | .error _ => none
    | .ok result => some (state.written backend xid .committed result)
  | (backend, .abort xid) =>
    match transactionIdAbort state.log (state.caches backend) xid with
    | .error _ => none
    | .ok result => some (state.written backend xid .aborted result)
  | (backend, .setInProgress xid) =>
    some (state.written backend xid .inProgress
      (transactionIdSetInProgress state.log (state.caches backend) xid))
  | (backend, .getStatus xid) =>
    some { state with
      caches := update state.caches backend
        (transactionIdGetStatus state.log (state.caches backend) xid).2 }

/-- A status can be recorded if the log holds the XID, or the status is the one
it reports anyway, and no other backend has another status in its cache. -/
def Recordable (state : SharedLog ι) (backend : ι) (xid : TransactionId)
    (status : XidStatus) : Prop :=
  (kMaxXids ≤ xid.toNat → status = .inProgress) ∧
    ∀ other, other ≠ backend → (state.caches other).cachedXid = xid →
      (state.caches other).cachedStatus = status

def CallSafe (state : SharedLog ι) : ι × LogCall → Prop
  | (backend, .commit xid) => state.Recordable backend xid .committed
  | (backend, .abort xid) => state.Recordable backend xid .aborted
  | (backend, .setInProgress xid) => state.Recordable backend xid .inProgress
  | (_, .getStatus _) => True

/-- The log holds what was recorded within its capacity, and caches never
learn of anything beyond it. -/
structure Faithful (state : SharedLog ι) : Prop where
  stored : ∀ xid : NormalXid, xid.1.toNat < kMaxXids → state.log xid = state.recorded xid
  dropped : ∀ backend,
    kMaxXids ≤ (state.caches backend).cachedXid.toNat →
      (state.caches backend).cachedStatus = .inProgress

omit [DecidableEq ι] in
theorem statusIn_eq (state : SharedLog ι) (backend : ι) (xid : NormalXid) :
    state.statusIn backend xid =
      if (state.caches backend).cachedXid = xid then (state.caches backend).cachedStatus
      else fetchFromCommitLog state.log xid :=
  transactionIdGetStatus_normal state.log (state.caches backend) xid

variable {state : SharedLog ι}

omit [DecidableEq ι] in
theorem Faithful.fetch_eq (faithful : state.Faithful) {backend : ι} {xid : NormalXid}
    (agrees : state.statusIn backend xid = state.recorded xid) :
    fetchFromCommitLog state.log xid = state.recorded xid := by
  by_cases inside : xid.1.toNat < kMaxXids
  · rw [fetchFromCommitLog, if_neg (not_le.2 inside)]
    exact faithful.stored xid inside
  have outside : kMaxXids ≤ xid.1.toNat := not_lt.1 inside
  rw [statusIn_eq] at agrees
  by_cases cached : (state.caches backend).cachedXid = xid
  · rw [if_pos cached, faithful.dropped backend (by rwa [cached])] at agrees
    rw [fetchFromCommitLog, if_pos outside]
    exact agrees
  · rwa [if_neg cached] at agrees

/-- What the three writing calls do for a normal XID. -/
def record (state : SharedLog ι) (backend : ι) (xid : NormalXid)
    (status : XidStatus) : SharedLog ι :=
  state.written backend xid status
    (setCommitLog state.log xid status, (state.caches backend).invalidate xid)

section

variable (backend : ι) (xid : NormalXid)

theorem step_commit :
    state.step (backend, .commit xid) = some (state.record backend xid .committed) := by
  simp [step, transactionIdCommit, xid.2, record]

theorem step_abort :
    state.step (backend, .abort xid) = some (state.record backend xid .aborted) := by
  simp [step, transactionIdAbort, xid.2, record]

theorem step_setInProgress :
    state.step (backend, .setInProgress xid) = some (state.record backend xid .inProgress) := by
  simp [step, transactionIdSetInProgress, xid.2, record]

theorem record_caches_writer :
    (state.record backend xid status).caches backend = (state.caches backend).invalidate xid :=
  update_self ..

end

theorem record_caches_reader (apart : reader ≠ backend) :
    (state.record backend xid status).caches reader = state.caches reader :=
  update_of_ne apart ..

theorem record_log : (state.record backend xid status).log = setCommitLog state.log xid status :=
  rfl

theorem record_statusIn_other (apart : other ≠ xid) :
    (state.record backend xid status).statusIn reader other = state.statusIn reader other := by
  have fetched : fetchFromCommitLog (setCommitLog state.log xid status)
      other = fetchFromCommitLog state.log other := by
    rw [fetchFromCommitLog_setCommitLog, if_neg (fun both => apart (Subtype.ext both.1))]
  have answer : ∀ cache, (transactionIdGetStatus (setCommitLog state.log xid status) cache
        other).1 = (transactionIdGetStatus state.log cache other).1 := by
    intro cache
    rw [transactionIdGetStatus_normal, transactionIdGetStatus_normal, fetched]
  unfold statusIn
  rw [record_log, answer]
  by_cases isWriter : reader = backend
  · subst isWriter
    rw [record_caches_writer, transactionIdGetStatus_invalidate, if_neg apart]
  · rw [record_caches_reader isWriter]

theorem record_statusIn_writer : (state.record backend xid status).statusIn backend xid =
      if kMaxXids ≤ xid.1.toNat then .inProgress else status := by
  unfold statusIn
  rw [record_log, record_caches_writer, transactionIdGetStatus_invalidate,
    if_pos rfl, fetch_setCommitLog_self]

theorem record_statusIn_reader (apart : reader ≠ backend) :
    (state.record backend xid status).statusIn reader xid =
      if (state.caches reader).cachedXid = xid then (state.caches reader).cachedStatus
      else if kMaxXids ≤ xid.1.toNat then .inProgress else status := by
  unfold statusIn
  rw [record_log, record_caches_reader apart, transactionIdGetStatus_normal,
    fetch_setCommitLog_self]

theorem record_agrees_iff (agrees : state.Agrees) :
    (state.record backend xid status).Agrees ↔ state.Recordable backend xid status := by
  have isRecorded : (state.record backend xid status).recorded xid =
      status := update_self ..
  constructor
  · intro after
    have atWriter := after backend xid
    rw [isRecorded, record_statusIn_writer] at atWriter
    refine ⟨?_, ?_⟩
    · intro outside
      rw [if_pos outside] at atWriter
      exact atWriter.symm
    intro other apart cached
    have atReader := after other xid
    rw [isRecorded, record_statusIn_reader apart, if_pos cached] at atReader
    exact atReader
  rintro ⟨inLog, upToDate⟩ reader other
  by_cases same : other = xid
  · subst same
    have fetched : (if kMaxXids ≤ other.1.toNat then XidStatus.inProgress
        else status) = status := by
      split
      next outside => exact (inLog outside).symm
      · rfl
    rw [isRecorded]
    by_cases isWriter : reader = backend
    · subst isWriter
      rw [record_statusIn_writer, fetched]
    rw [record_statusIn_reader isWriter, fetched]
    split
    next cached => exact upToDate reader isWriter cached
    · rfl
  · have kept : (state.record backend xid status).recorded other = state.recorded other :=
      update_of_ne (fun equal => same (Subtype.ext equal)) ..
    rw [record_statusIn_other same, kept]
    exact agrees reader other

theorem record_faithful (faithful : state.Faithful) :
    (state.record backend xid status).Faithful := by
  constructor
  · intro other inside
    have stored := faithful.stored other inside
    simp only [record, written, setCommitLog]
    by_cases same : other = xid
    · subst same
      simp [inside]
    have apart : (other : TransactionId) ≠ xid := fun equal => same (Subtype.ext equal)
    rw [update_of_ne apart]
    split
    · rw [update_of_ne apart]
      exact stored
    · exact stored
  · intro reader
    have dropped := faithful.dropped reader
    by_cases isWriter : reader = backend
    · subst isWriter
      rw [record_caches_writer]
      unfold invalidate
      split
      · intro outside
        simp [kMaxXids, kInvalidTransactionId] at outside
      · exact dropped
    · rw [record_caches_reader isWriter]
      exact dropped

def lookedUp (state : SharedLog ι) (backend : ι) (xid : NormalXid) : SharedLog ι :=
  { state with
    caches := update state.caches backend
      (transactionIdGetStatus state.log (state.caches backend) xid).2 }

theorem lookedUp_cache (state : SharedLog ι) (backend : ι) :
    (state.lookedUp backend xid).caches backend = state.caches backend ∨
    (state.lookedUp backend xid).caches backend =
      { cachedXid := xid, cachedStatus := fetchFromCommitLog state.log xid } := by
  simp only [lookedUp, update_self, transactionIdGetStatus,
    transactionLogFetch, xid.2, Bool.not_true, Bool.false_eq_true, if_false]
  split
  · exact .inl rfl
  · exact .inr rfl

theorem lookedUp_agrees (faithful : state.Faithful) (agrees : state.Agrees) :
    (state.lookedUp backend xid).Agrees := by
  intro reader other
  have before := agrees reader other
  have fetched := faithful.fetch_eq before
  unfold statusIn at before ⊢
  by_cases isReader : reader = backend
  · subst isReader
    rcases state.lookedUp_cache reader with same | entered
    · rw [same]
      exact before
    rw [entered, transactionIdGetStatus_normal]
    split
    next isXid =>
      obtain rfl : xid = other := Subtype.ext isXid
      exact fetched
    · exact fetched
  · have same : (state.lookedUp backend xid).caches reader =
        state.caches reader := update_of_ne isReader ..
    rw [same]
    exact before

theorem lookedUp_faithful (faithful : state.Faithful) : (state.lookedUp backend xid).Faithful := by
  refine ⟨faithful.stored, ?_⟩
  intro reader
  by_cases isReader : reader = backend
  · subst isReader
    rcases state.lookedUp_cache reader with same | entered
    · rw [same]
      exact faithful.dropped reader
    rw [entered]
    intro outside
    rw [fetchFromCommitLog, if_pos outside]
  · have same : (state.lookedUp backend xid).caches reader =
        state.caches reader := update_of_ne isReader ..
    rw [same]
    exact faithful.dropped reader

/-- From an agreement, a call leads to an agreement exactly if it meets the
condition. -/
theorem step_agrees_iff (faithful : state.Faithful) (agrees : state.Agrees) :
    ∃ after, state.step event = some after ∧ after.Faithful ∧
      (after.Agrees ↔ state.CallSafe event) := by
  obtain ⟨backend, call⟩ := event
  cases call with
  | commit xid =>
    exact ⟨_, step_commit backend xid, record_faithful faithful, record_agrees_iff agrees⟩
  | abort xid =>
    exact ⟨_, step_abort backend xid, record_faithful faithful, record_agrees_iff agrees⟩
  | setInProgress xid =>
    exact ⟨_, step_setInProgress backend xid, record_faithful faithful, record_agrees_iff agrees⟩
  | getStatus xid =>
    exact ⟨state.lookedUp backend xid, rfl, lookedUp_faithful faithful,
      iff_of_true (lookedUp_agrees faithful agrees) trivial⟩

end SharedLog

/-- In every state of an interleaving all backends agree, exactly if every call
meets the condition. -/
theorem interleaving_agrees_iff {ι : Type} [DecidableEq ι] (calls : List (ι × LogCall)) :
    Throughout SharedLog.step SharedLog.Agrees SharedLog.initial calls ↔
      AllAllowed SharedLog.step SharedLog.CallSafe SharedLog.initial calls := by
  apply throughout_iff_allAllowed
  · intro _ event
    exact SharedLog.step_agrees_iff
  · refine ⟨fun _ _ => rfl, ?_⟩
    intro backend outside
    simp [SharedLog.initial, empty, kMaxXids, kInvalidTransactionId] at outside
  · intro backend _
    rw [SharedLog.statusIn_eq]
    simp [SharedLog.initial, empty, fetchFromCommitLog]

/-- One backend has looked up an XID when another commits it. -/
theorem staleCache_disagrees : ¬ Throughout SharedLog.step SharedLog.Agrees SharedLog.initial
      [(false, .getStatus ⟨3#32, by decide⟩), (true, .commit ⟨3#32, by decide⟩)] := by
  rintro ⟨_, _, agrees⟩
  have answer := agrees false ⟨3#32, by decide⟩
  revert answer
  decide +kernel

end Pgcpp.Transaction
