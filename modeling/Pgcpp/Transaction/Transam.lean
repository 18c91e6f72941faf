import Mathlib.Data.BitVec

/-!
# Transaction ids and the commit log

An XID is a 32-bit counter compared modulo `2 ^ 32`.  The commit log records
one status for every XID below `kMaxXids`; each backend reads it through a
private one-entry cache.  The log itself is shared, so the functions below take
the log and the reading backend's cache as separate arguments.
-/

namespace Pgcpp.Transaction

/-- `uint32_t`. -/
abbrev TransactionId := BitVec 32

abbrev CommandId := BitVec 32

def kMaxXids : Nat := 2 ^ 24

def kInvalidTransactionId : TransactionId := 0#32

def kBootstrapTransactionId : TransactionId := 1#32

def kFrozenTransactionId : TransactionId := 2#32

def kFirstNormalTransactionId : TransactionId := 3#32

/-- `static_cast<int32_t>(id1 - id2) < 0`. -/
def transactionIdPrecedes (id1 id2 : TransactionId) : Bool := (id1 - id2).toInt < 0

/-- `static_cast<int32_t>(id1 - id2) >= 0`. -/
def transactionIdFollowsOrEquals (id1 id2 : TransactionId) : Bool := 0 ≤ (id1 - id2).toInt

def transactionIdIsValid (xid : TransactionId) : Bool := xid != kInvalidTransactionId

def transactionIdIsNormal (xid : TransactionId) : Bool := kFirstNormalTransactionId ≤ xid

theorem transactionIdFollowsOrEquals_eq_not :
    transactionIdFollowsOrEquals id1 id2 = !transactionIdPrecedes id1 id2 := by
  rw [transactionIdFollowsOrEquals, transactionIdPrecedes, Bool.eq_iff_iff]
  simp

/-- Two XIDs less than half the XID circle apart compare as numbers. -/
theorem transactionIdPrecedes_eq_lt
    (near : id1.toNat < id2.toNat + 2 ^ 31) (near' : id2.toNat ≤ id1.toNat + 2 ^ 31) :
    transactionIdPrecedes id1 id2 = decide (id1.toNat < id2.toNat) := by
  rw [transactionIdPrecedes, decide_eq_decide, BitVec.toInt_eq_toNat_cond, BitVec.toNat_sub]
  split <;> omega

theorem transactionIdIsNormal_iff : transactionIdIsNormal xid ↔ 3 ≤ xid.toNat := by
  simp [transactionIdIsNormal, kFirstNormalTransactionId, BitVec.le_def]

theorem transactionIdIsValid_iff : transactionIdIsValid xid ↔ xid ≠ 0#32 := by
  simp [transactionIdIsValid, kInvalidTransactionId]

theorem transactionIdIsValid_of_normal (normal : transactionIdIsNormal xid) :
    transactionIdIsValid xid := by
  rw [transactionIdIsNormal_iff] at normal
  rw [transactionIdIsValid_iff]
  rintro rfl
  simp at normal

/-- `XidStatus`: the state of a transaction in the commit log. -/
inductive XidStatus where
  | inProgress
  | committed
  | aborted
  | subCommitted
  deriving DecidableEq

/-- The shared array `g_clog_base`, indexed by XID.  Only the entries below
`kMaxXids` exist; the functions below never read or write the others. -/
abbrev CommitLog := TransactionId → XidStatus

/-- The per-backend pair `cached_xid`, `cached_status`. -/
structure LogCache where
  cachedXid : TransactionId
  cachedStatus : XidStatus
  deriving DecidableEq

/-- The cache as `InitializeCommitLog` leaves it. -/
def LogCache.empty : LogCache := { cachedXid := kInvalidTransactionId, cachedStatus := .inProgress }

def fetchFromCommitLog (log : CommitLog) (xid : TransactionId) : XidStatus :=
  if kMaxXids ≤ xid.toNat then .inProgress else log xid

section

variable (log : CommitLog) (cache : LogCache) (xid : TransactionId)

/-- The status of `xid` and the cache after the call. -/
def transactionLogFetch : XidStatus × LogCache :=
  if !transactionIdIsNormal xid then (.committed, cache)
  else if xid == cache.cachedXid then (cache.cachedStatus, cache)
  else
    let status := fetchFromCommitLog log xid
    (status, { cachedXid := xid, cachedStatus := status })

def transactionIdGetStatus : XidStatus × LogCache :=
  transactionLogFetch log cache xid

def transactionIdDidCommit : Bool × LogCache :=
  let (status, cache) := transactionIdGetStatus log cache xid
  (status == .committed, cache)

def transactionIdDidAbort : Bool × LogCache :=
  if !transactionIdIsNormal xid then (false, cache)
  else
    let (status, cache) := transactionIdGetStatus log cache xid
    (status == .aborted, cache)

/-- The shared part of `TransactionIdCommit`, `TransactionIdAbort` and
`TransactionIdSetInProgress`: entries past the array are dropped. -/
def setCommitLog (log : CommitLog) (xid : TransactionId) (status : XidStatus) : CommitLog :=
  if xid.toNat < kMaxXids then Function.update log xid status else log

/-- The writing backend forgets its cached entry for `xid`. -/
def LogCache.invalidate (cache : LogCache) (xid : TransactionId) : LogCache :=
  if xid == cache.cachedXid then { cache with cachedXid := kInvalidTransactionId } else cache

def transactionIdCommit : Except String (CommitLog × LogCache) :=
  if !transactionIdIsNormal xid then
    .error ("cannot commit special transaction id " ++ toString xid.toNat)
  else .ok (setCommitLog log xid .committed, cache.invalidate xid)

def transactionIdAbort : Except String (CommitLog × LogCache) :=
  if !transactionIdIsNormal xid then
    .error ("cannot abort special transaction id " ++ toString xid.toNat)
  else .ok (setCommitLog log xid .aborted, cache.invalidate xid)

/-- The type of `TransactionIdCommit` and `TransactionIdAbort`. -/
abbrev LogWriter := CommitLog → LogCache → TransactionId → Except String (CommitLog × LogCache)

/-- The writer records `status` for normal XIDs. -/
def Records (write : LogWriter) (status : XidStatus) : Prop :=
  ∀ log cache xid, transactionIdIsNormal xid →
    write log cache xid = .ok (setCommitLog log xid status, cache.invalidate xid)

theorem records_transactionIdCommit : Records transactionIdCommit .committed := by
  intro _ _ _ normal
  simp [transactionIdCommit, normal]

theorem records_transactionIdAbort : Records transactionIdAbort .aborted := by
  intro _ _ _ normal
  simp [transactionIdAbort, normal]

def transactionIdSetInProgress : CommitLog × LogCache :=
  if !transactionIdIsNormal xid then (log, cache)
  else (setCommitLog log xid .inProgress, cache.invalidate xid)

end

/-- `AllocateNextTransactionId` over `VariableCache.nextXid`.  The counter
moves on even when the call then fails because it had wrapped to zero. -/
def allocateNextTransactionId (nextXid : TransactionId) (log : CommitLog) (cache : LogCache) :
    Except String TransactionId × TransactionId × CommitLog × LogCache :=
  let xid := nextXid
  let nextXid := xid + 1
  if xid == kInvalidTransactionId then
    (.error "variable cache not initialized", nextXid, log, cache)
  else
    let (log, cache) := transactionIdSetInProgress log cache xid
    (.ok xid, nextXid, log, cache)

/-- `GetNextTransactionId` returns the last allocated XID. -/
def getNextTransactionId (nextXid : TransactionId) : TransactionId := nextXid - 1

/-! ## What the log records -/

/-- The status the commit log gives an XID, special XIDs included. -/
def logStatus (log : CommitLog) (xid : TransactionId) : XidStatus :=
  if transactionIdIsNormal xid then fetchFromCommitLog log xid else .committed

theorem logStatus_of_special (special : transactionIdIsNormal xid = false) :
    logStatus log xid = .committed := by
  simp [logStatus, special]

theorem normal_of_logStatus_ne_committed (notCommitted : logStatus log xid ≠ .committed) :
    transactionIdIsNormal xid := by
  by_contra special
  exact notCommitted (logStatus_of_special (by simpa using special))

/-- The cached entry, if it is for a normal XID, agrees with the log. -/
def LogCache.Coherent (cache : LogCache) (log : CommitLog) : Prop :=
  transactionIdIsNormal cache.cachedXid →
    cache.cachedStatus = fetchFromCommitLog log cache.cachedXid

theorem LogCache.coherent_empty : LogCache.empty.Coherent log := by
  intro normal
  simp [LogCache.empty, transactionIdIsNormal, kInvalidTransactionId,
    kFirstNormalTransactionId] at normal

theorem transactionLogFetch_coherent (coherent : cache.Coherent log) :
    (transactionLogFetch log cache xid).1 = logStatus log xid ∧
      (transactionLogFetch log cache xid).2.Coherent log := by
  unfold transactionLogFetch logStatus
  by_cases normal : transactionIdIsNormal xid
  · by_cases hit : xid = cache.cachedXid
    · subst hit
      exact ⟨by simp [normal, coherent normal], by simpa [normal] using coherent⟩
    · simp [normal, hit, LogCache.Coherent]
  · exact ⟨by simp [normal], by simpa [normal] using coherent⟩

theorem transactionIdDidCommit_coherent (coherent : cache.Coherent log) (xid : TransactionId) :
    (transactionIdDidCommit log cache xid).1 = decide (logStatus log xid = .committed) ∧
      (transactionIdDidCommit log cache xid).2.Coherent log := by
  obtain ⟨status, coherent'⟩ := transactionLogFetch_coherent coherent
  refine ⟨?_, coherent'⟩
  simp [transactionIdDidCommit, transactionIdGetStatus, status, beq_eq_decide]

theorem transactionIdDidAbort_coherent (coherent : cache.Coherent log) (xid : TransactionId) :
    (transactionIdDidAbort log cache xid).1 = decide (logStatus log xid = .aborted) ∧
      (transactionIdDidAbort log cache xid).2.Coherent log := by
  obtain ⟨status, coherent'⟩ := transactionLogFetch_coherent coherent
  by_cases normal : transactionIdIsNormal xid
  · refine ⟨?_, by
      simpa [transactionIdDidAbort, normal, transactionIdGetStatus] using coherent'⟩
    simp [transactionIdDidAbort, normal, transactionIdGetStatus, status, beq_eq_decide]
  · have special : transactionIdIsNormal xid = false := by simpa using normal
    refine ⟨?_, by simpa [transactionIdDidAbort, special] using coherent⟩
    simp [transactionIdDidAbort, special, logStatus_of_special special]

/-! ## Updates of the log -/

theorem fetchFromCommitLog_setCommitLog (log : CommitLog)
    (xid other : TransactionId) (status : XidStatus) :
    fetchFromCommitLog (setCommitLog log xid status) other =
      if other = xid ∧ xid.toNat < kMaxXids then status else fetchFromCommitLog log other := by
  unfold fetchFromCommitLog setCommitLog
  by_cases same : other = xid
  · subst same
    by_cases inside : other.toNat < kMaxXids
    · simp [inside]
    · simp [inside]
  · by_cases inside : xid.toNat < kMaxXids <;> simp [inside, same]

theorem LogCache.coherent_setCommitLog {cache : LogCache} (coherent : cache.Coherent log) :
    (cache.invalidate xid).Coherent (setCommitLog log xid status) := by
  intro normal
  by_cases hit : xid = cache.cachedXid
  · simp [LogCache.invalidate, hit, transactionIdIsNormal,
      kInvalidTransactionId, kFirstNormalTransactionId] at normal
  have unchanged : cache.invalidate xid = cache := by simp [LogCache.invalidate, hit]
  rw [unchanged] at normal ⊢
  rw [fetchFromCommitLog_setCommitLog, if_neg (by
    rintro ⟨same, _⟩
    exact hit same.symm)]
  exact coherent normal

/-! ## Caches that may lag behind

Only the writing backend forgets its entry, so another backend's cache may
still say that a finished XID is in progress. -/

def LogCache.Sound (cache : LogCache) (log : CommitLog) : Prop :=
  transactionIdIsNormal cache.cachedXid → cache.cachedStatus ≠ .inProgress →
    fetchFromCommitLog log cache.cachedXid = cache.cachedStatus

/-- The cache does not hold an outdated status for `xid`. -/
def LogCache.AgreesAt (cache : LogCache) (log : CommitLog) (xid : TransactionId) : Prop :=
  cache.cachedXid = xid → cache.cachedStatus = fetchFromCommitLog log xid

/-- `log'` keeps every outcome that `log` records. -/
def KeepsOutcomes (log log' : CommitLog) : Prop :=
  ∀ xid, fetchFromCommitLog log xid ≠ .inProgress →
    fetchFromCommitLog log' xid = fetchFromCommitLog log xid

theorem KeepsOutcomes.refl (log : CommitLog) : KeepsOutcomes log log := fun _ _ => rfl

theorem KeepsOutcomes.trans (left : KeepsOutcomes first second)
    (right : KeepsOutcomes second third) : KeepsOutcomes first third := by
  intro xid final
  have same := left xid final
  rw [right xid (by rw [same]; exact final), same]

theorem KeepsOutcomes.logStatus (kept : KeepsOutcomes log log')
    (final : logStatus log xid ≠ .inProgress) :
    Transaction.logStatus log' xid = Transaction.logStatus log xid := by
  unfold Transaction.logStatus at final ⊢
  cases normal : transactionIdIsNormal xid with
  | false => simp
  | true =>
    simp only [normal] at final ⊢
    exact kept xid final

namespace LogCache

variable {cache : LogCache}

theorem sound_empty (log : CommitLog) : LogCache.empty.Sound log := by
  intro normal
  simp [LogCache.empty, transactionIdIsNormal, kInvalidTransactionId,
    kFirstNormalTransactionId] at normal

theorem Coherent.sound (coherent : cache.Coherent log) : cache.Sound log :=
  fun normal _ => (coherent normal).symm

section

variable (sound : cache.Sound log)

include sound

theorem Sound.mono (kept : KeepsOutcomes log log') : cache.Sound log' := by
  intro normal final
  have agreed := sound normal final
  rw [kept _ (by rw [agreed]; exact final), agreed]

theorem Sound.invalidate (xid : TransactionId) : (cache.invalidate xid).Sound log := by
  unfold LogCache.invalidate
  split
  · intro normal
    simp [transactionIdIsNormal, kInvalidTransactionId, kFirstNormalTransactionId] at normal
  · exact sound

theorem Sound.fetch (xid : TransactionId) : (transactionLogFetch log cache xid).2.Sound log := by
  unfold transactionLogFetch
  split
  · exact sound
  split
  · exact sound
  · intro _ _
    rfl

theorem Sound.fetch_final (answer : (transactionLogFetch log cache xid).1 = status)
    (final : status ≠ .inProgress) : logStatus log xid = status := by
  unfold transactionLogFetch at answer
  unfold logStatus
  split at answer
  · next special =>
      simp only [Bool.not_eq_true'] at special
      simpa [special] using answer
  next normal =>
    simp only [Bool.not_eq_true', Bool.not_eq_false] at normal
    split at answer
    · next hit =>
        simp only [beq_iff_eq] at hit
        subst hit
        have cached : cache.cachedStatus = status := answer
        rw [if_pos normal, sound normal (cached ▸ final), cached]
    · rw [if_pos normal]
      exact answer

theorem Sound.didCommit (committed : (transactionIdDidCommit log cache xid).1) :
    logStatus log xid = .committed := by
  apply sound.fetch_final _ (by decide)
  simpa [transactionIdDidCommit, transactionIdGetStatus] using committed

theorem Sound.didAbort (aborted : (transactionIdDidAbort log cache xid).1) :
    logStatus log xid = .aborted := by
  unfold transactionIdDidAbort at aborted
  split at aborted
  · contradiction
  · apply sound.fetch_final _ (by decide)
    simpa [transactionIdGetStatus] using aborted

end

theorem AgreesAt.fetch (agrees : cache.AgreesAt log xid) (other : TransactionId) :
    (transactionLogFetch log cache other).2.AgreesAt log xid := by
  unfold transactionLogFetch
  split
  · exact agrees
  split
  · exact agrees
  · rintro rfl
    rfl

theorem AgreesAt.fetch_eq (agrees : cache.AgreesAt log xid) :
    (transactionLogFetch log cache xid).1 = logStatus log xid := by
  unfold transactionLogFetch logStatus
  split
  · next special =>
      simp only [Bool.not_eq_true'] at special
      simp [special]
  next normal =>
    simp only [Bool.not_eq_true', Bool.not_eq_false] at normal
    split
    · next hit =>
        simp only [beq_iff_eq] at hit
        exact agrees hit.symm
    · rfl

/-- The cache after any number of lookups and invalidations by its backend. -/
inductive Moves (log : CommitLog) (cache : LogCache) : LogCache → Prop
  | refl : Moves log cache cache
  | fetch (xid : TransactionId) (moves : Moves log cache later) :
      Moves log cache (transactionLogFetch log later xid).2
  | invalidate (xid : TransactionId) (moves : Moves log cache later) :
      Moves log cache (later.invalidate xid)

section

variable (moves : Moves log cache later)

include moves

theorem Moves.didCommit (xid : TransactionId) :
    Moves log cache (transactionIdDidCommit log later xid).2 :=
  moves.fetch xid

theorem Moves.sound (sound : cache.Sound log) : later.Sound log := by
  induction moves with
  | refl => exact sound
  | fetch xid _ ih => exact ih.fetch xid
  | invalidate xid _ ih => exact ih.invalidate xid

theorem Moves.agreesAt (normal : transactionIdIsNormal xid)
    (agrees : cache.AgreesAt log xid) : later.AgreesAt log xid := by
  induction moves with
  | refl => exact agrees
  | fetch other _ ih => exact ih.fetch other
  | @invalidate later other _ ih =>
    unfold LogCache.invalidate
    split
    · rintro rfl
      simp [transactionIdIsNormal, kInvalidTransactionId, kFirstNormalTransactionId] at normal
    · exact ih

theorem Moves.didCommit_eq_true (agrees : cache.AgreesAt log xid)
    (committed : logStatus log xid = .committed) : (transactionIdDidCommit log later xid).1 := by
  have answer : (transactionLogFetch log later xid).1 = .committed := by
    cases normal : transactionIdIsNormal xid with
    | true => rw [(moves.agreesAt normal agrees).fetch_eq, committed]
    | false => simp [transactionLogFetch, normal]
  simp [transactionIdDidCommit, transactionIdGetStatus, answer]

end

end LogCache

end Pgcpp.Transaction
