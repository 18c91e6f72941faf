import Pgcpp.Transaction.HeapTuple
import Pgcpp.Transaction.Snapshot

/-!
# The MVCC visibility check

`heapTupleSatisfiesMVCC` follows the source's two steps.  Every commit-log
lookup goes through the calling backend's one-entry cache, and the hint bits it
sets are part of the result.  When the cache agrees with the log, the call is
the pure function of `Visibility.verdict`.
-/

namespace Pgcpp.Transaction

open Lib

/-- One entry of the backend's transaction state stack: the fields that
visibility checks and snapshots read. -/
structure TransactionStateData where
  transactionId : TransactionId
  commandId : CommandId
  deriving DecidableEq

/-- `GetCurrentTransactionIdIfAny` on the stack, innermost entry first. -/
def getCurrentTransactionIdIfAny (stack : List TransactionStateData) : TransactionId :=
  match stack with
  | [] => kInvalidTransactionId
  | state :: _ => state.transactionId

def transactionIdIsCurrentTransactionId (stack : List TransactionStateData)
    (xid : TransactionId) : Bool :=
  match stack with
  | [] => false
  | _ :: _ =>
    if stack.any (fun state => state.transactionId == xid) then true
    else getCurrentTransactionIdIfAny stack == xid

/-- Result of `XidVisibleInSnapshot`: the verdict, `*hint_committed` and the
cache after the call. -/
def xidVisibleInSnapshot (log : CommitLog) (snapshot : SnapshotData)
    (cache : LogCache) (xid : TransactionId) : Bool × Bool × LogCache :=
  if !transactionIdIsNormal xid then (true, true, cache)
  else if snapshot.xidGeXmax xid then (false, false, cache)
  else if snapshot.xidLtXmin xid then
    let (committed, cache) := transactionIdDidCommit log cache xid
    if committed then (true, true, cache) else (false, false, cache)
  else if snapshot.xidInSnapshot xid then (false, false, cache)
  else
    let (committed, cache) := transactionIdDidCommit log cache xid
    if committed then (true, true, cache) else (false, false, cache)

/-- What a visibility check leaves behind. -/
structure CheckResult where
  visible : Bool
  tup : HeapTupleHeaderData
  cache : LogCache

section

variable (log : CommitLog) (stack : List TransactionStateData) (snapshot : SnapshotData)

/-- Step 1 of `HeapTupleSatisfiesMVCC`: the inserting transaction.
`visible = false` is the source's `return false`. -/
def checkXmin (cache : LogCache) (tup : HeapTupleHeaderData) : CheckResult :=
  let xmin := tup.tXmin
  match tup.getXminStatus with
  | .committed => ⟨true, tup, cache⟩
  | .aborted => ⟨false, tup, cache⟩
  | .frozen => ⟨true, tup, cache⟩
  | .inProgress =>
    if !transactionIdIsValid xmin then ⟨false, tup, cache⟩
    else if transactionIdIsCurrentTransactionId stack xmin then
      if snapshot.curcid < tup.tCid then ⟨false, tup, cache⟩
      else if hasFlag tup.tInfomask kHeapUpdated && xmin == tup.tXmax then
        ⟨false, tup, cache⟩
      else ⟨true, tup, cache⟩
    else
      let (visible, hintCommitted, cache) := xidVisibleInSnapshot log snapshot cache xmin
      if hintCommitted then ⟨visible, tup.setXminCommitted, cache⟩
      else if !visible then
        let (aborted, cache) := transactionIdDidAbort log cache xmin
        if aborted then ⟨visible, tup.setXminInvalid, cache⟩
        else ⟨visible, tup, cache⟩
      else ⟨visible, tup, cache⟩

/-- Step 2 of `HeapTupleSatisfiesMVCC`: the deleting transaction. -/
def checkXmax (cache : LogCache) (tup : HeapTupleHeaderData) : CheckResult :=
  let xmax := tup.tXmax
  if !transactionIdIsValid xmax then ⟨true, tup, cache⟩
  else if hasFlag tup.tInfomask kHeapXmaxLocked then ⟨true, tup, cache⟩
  else
    match tup.getXmaxStatus with
    | .committed =>
      if snapshot.xidLtXmin xmax then ⟨false, tup, cache⟩
      else if snapshot.xidGeXmax xmax then ⟨true, tup, cache⟩
      else if snapshot.xidInSnapshot xmax then ⟨true, tup, cache⟩
      else ⟨false, tup, cache⟩
    | .aborted => ⟨true, tup, cache⟩
    | .inProgress =>
      if transactionIdIsCurrentTransactionId stack xmax then
        if snapshot.curcid < tup.tCid then ⟨true, tup, cache⟩
        else ⟨false, tup, cache⟩
      else if snapshot.xidLtXmin xmax then
        let (committed, cache) := transactionIdDidCommit log cache xmax
        if committed then ⟨false, tup.setXmaxCommitted, cache⟩
        else ⟨true, tup.setXmaxInvalid, cache⟩
      else if snapshot.xidGeXmax xmax then ⟨true, tup, cache⟩
      else if snapshot.xidInSnapshot xmax then
        let (committed, cache) := transactionIdDidCommit log cache xmax
        if committed then ⟨true, tup, cache⟩
        else ⟨true, tup.setXmaxInvalid, cache⟩
      else
        let (committed, cache) := transactionIdDidCommit log cache xmax
        if committed then ⟨false, tup.setXmaxCommitted, cache⟩
        else ⟨true, tup.setXmaxInvalid, cache⟩
    | .frozen => ⟨true, tup, cache⟩

def heapTupleSatisfiesMVCC (cache : LogCache) (tup : HeapTupleHeaderData) : CheckResult :=
  let first := checkXmin log stack snapshot cache tup
  if !first.visible then ⟨false, first.tup, first.cache⟩
  else checkXmax log stack snapshot first.cache first.tup

end

/-- `HeapTupleIsSurelyDead`: VACUUM's test, against a snapshot of which only
`xmin` is read. -/
def heapTupleIsSurelyDead (log : CommitLog) (cache : LogCache)
    (snapshot : SnapshotData) (tup : HeapTupleHeaderData) : Bool × LogCache :=
  if !transactionIdIsValid tup.tXmax then (false, cache)
  else
    let (committed, cache) := transactionIdDidCommit log cache tup.tXmax
    if !committed then (false, cache) else (transactionIdPrecedes tup.tXmax snapshot.xmin, cache)

/-! ## What the check leaves in the cache -/

section

variable {log : CommitLog} (stack : List TransactionStateData)
  (snapshot : SnapshotData) {cache later : LogCache}

variable {Keeps : LogCache → Prop}

section

variable (closed : ∀ cache, Keeps cache → Keeps (transactionLogFetch log cache xid).2)

include closed

theorem xidVisibleInSnapshot_cache (initially : Keeps cache) :
    Keeps (xidVisibleInSnapshot log snapshot cache xid).2.2 := by
  have looked := closed cache initially
  unfold xidVisibleInSnapshot
  split
  · exact initially
  split
  · exact initially
  split
  · dsimp only
    split <;> exact looked
  split
  · exact initially
  · dsimp only
    split <;> exact looked

theorem transactionIdDidAbort_cache (initially : Keeps cache) :
    Keeps (transactionIdDidAbort log cache xid).2 := by
  unfold transactionIdDidAbort
  split
  · exact initially
  · exact closed cache initially

end

theorem checkXmin_cache
    (closed : ∀ cache, Keeps cache → Keeps (transactionLogFetch log cache tup.tXmin).2)
    (initially : Keeps cache) : Keeps (checkXmin log stack snapshot cache tup).cache := by
  have looked := xidVisibleInSnapshot_cache snapshot closed initially
  have aborted := transactionIdDidAbort_cache closed looked
  unfold checkXmin
  dsimp only
  split
  · exact initially
  · exact initially
  · exact initially
  split
  · exact initially
  split
  · split
    · exact initially
    · split <;> exact initially
  split
  · exact looked
  split
  · split <;> exact aborted
  · exact looked

section

variable (moves : cache.Moves log later)

include moves

theorem xidVisibleInSnapshot_moves (xid : TransactionId) :
    cache.Moves log (xidVisibleInSnapshot log snapshot later xid).2.2 :=
  xidVisibleInSnapshot_cache snapshot (fun _ moved => moved.fetch xid) moves

section

variable (tup : HeapTupleHeaderData)

include tup

theorem checkXmin_moves : cache.Moves log (checkXmin log stack snapshot later tup).cache :=
  checkXmin_cache stack snapshot (fun _ moved => moved.fetch tup.tXmin) moves

theorem checkXmax_moves : cache.Moves log (checkXmax log stack snapshot later tup).cache := by
  have looked := moves.didCommit tup.tXmax
  unfold checkXmax
  dsimp only
  repeat' split
  all_goals first | exact moves | exact looked

theorem heapTupleSatisfiesMVCC_moves :
    cache.Moves log (heapTupleSatisfiesMVCC log stack snapshot later tup).cache := by
  have first := checkXmin_moves stack snapshot moves tup
  unfold heapTupleSatisfiesMVCC
  dsimp only
  split
  · exact first
  · exact checkXmax_moves stack snapshot first _

end

end

end

/-! ## The check as a pure function of the log

With a cache that agrees with the log, the verdict is a conjunction: the
inserter is shown and the deleter does not hide the tuple. -/

namespace Visibility

variable (log : CommitLog) (stack : List TransactionStateData) (snapshot : SnapshotData)

/-- The region test both steps apply to an XID that has committed. -/
def inFinishedRegion (xid : TransactionId) : Bool :=
  snapshot.xidLtXmin xid || (!snapshot.xidGeXmax xid && !snapshot.xidInSnapshot xid)

/-- `XidVisibleInSnapshot` read off the log. -/
def xidVisible (xid : TransactionId) : Bool :=
  !transactionIdIsNormal xid ||
    (!snapshot.xidGeXmax xid && (snapshot.xidLtXmin xid || !snapshot.xidInSnapshot xid) &&
      logStatus log xid = .committed)

section

variable (tup : HeapTupleHeaderData)

/-- The inserter test made when no `t_xmin` hint is set. -/
def inserterTest : Bool :=
  transactionIdIsValid tup.tXmin && (if transactionIdIsCurrentTransactionId stack tup.tXmin then
      !decide (snapshot.curcid < tup.tCid) &&
        !(hasFlag tup.tInfomask kHeapUpdated && tup.tXmin == tup.tXmax)
    else xidVisible log snapshot tup.tXmin)

/-- The deleter test made when no `t_xmax` hint is set. -/
def deleterTest : Bool :=
  if transactionIdIsCurrentTransactionId stack tup.tXmax then !decide (snapshot.curcid < tup.tCid)
  else inFinishedRegion snapshot tup.tXmax && logStatus log tup.tXmax = .committed

def inserterShown : Bool :=
  match tup.getXminStatus with
  | .committed => true
  | .aborted => false
  | .frozen => true
  | .inProgress => inserterTest log stack snapshot tup

def deleterHides : Bool :=
  transactionIdIsValid tup.tXmax && !hasFlag tup.tInfomask kHeapXmaxLocked &&
    match tup.getXmaxStatus with
    | .committed => inFinishedRegion snapshot tup.tXmax
    | .aborted => false
    | .inProgress => deleterTest log stack snapshot tup
    | .frozen => false

def verdict : Bool :=
  inserterShown log stack snapshot tup && !deleterHides log stack snapshot tup

end

variable {log}

theorem xidVisibleInSnapshot_coherent (coherent : cache.Coherent log) (xid : TransactionId) :
    ∃ cache', cache'.Coherent log ∧ xidVisibleInSnapshot log snapshot cache xid =
        (xidVisible log snapshot xid, xidVisible log snapshot xid, cache') := by
  obtain ⟨committed, coherent'⟩ := transactionIdDidCommit_coherent coherent xid
  unfold xidVisibleInSnapshot xidVisible
  by_cases normal : transactionIdIsNormal xid
  · by_cases future : snapshot.xidGeXmax xid
    · exact ⟨cache, coherent, by simp [normal, future]⟩
    by_cases old : snapshot.xidLtXmin xid
    · refine ⟨_, coherent', ?_⟩
      by_cases done : logStatus log xid = .committed <;> simp [normal, future, old, committed, done]
    by_cases running : snapshot.xidInSnapshot xid
    · exact ⟨cache, coherent, by simp [normal, old, running]⟩
    refine ⟨_, coherent', ?_⟩
    by_cases done : logStatus log xid = .committed
    all_goals simp [normal, future, running, committed, done]
  · exact ⟨cache, coherent, by simp [normal]⟩

theorem checkXmin_coherent (coherent : cache.Coherent log) (tup : HeapTupleHeaderData) :
    (checkXmin log stack snapshot cache tup).visible = inserterShown log stack snapshot tup ∧
      (checkXmin log stack snapshot cache tup).cache.Coherent log := by
  unfold checkXmin inserterShown
  cases status : tup.getXminStatus with
  | inProgress =>
    unfold inserterTest
    by_cases valid : transactionIdIsValid tup.tXmin
    · by_cases current : transactionIdIsCurrentTransactionId stack tup.tXmin
      · by_cases later : snapshot.curcid < tup.tCid
        · exact ⟨by simp [current, later], by simpa [current, later] using coherent⟩
        · cases updated : hasFlag tup.tInfomask kHeapUpdated && tup.tXmin == tup.tXmax <;>
            simp [valid, current, later, updated, coherent]
      obtain ⟨cache', coherent', looked⟩ :=
        xidVisibleInSnapshot_coherent snapshot coherent tup.tXmin
      obtain ⟨-, coherent''⟩ := transactionIdDidAbort_coherent coherent' tup.tXmin
      cases shown : xidVisible log snapshot tup.tXmin with
      | true => simp [valid, current, looked, shown, coherent']
      | false =>
        by_cases aborted : (transactionIdDidAbort log cache' tup.tXmin).1 = true <;>
          simp [valid, current, looked, shown, aborted, coherent'']
    · exact ⟨by simp [valid], by simpa [valid] using coherent⟩
  | _ => exact ⟨rfl, coherent⟩

theorem checkXmax_coherent (coherent : cache.Coherent log) (tup : HeapTupleHeaderData) :
    (checkXmax log stack snapshot cache tup).visible = !deleterHides log stack snapshot tup ∧
      (checkXmax log stack snapshot cache tup).cache.Coherent log := by
  obtain ⟨committed, coherent'⟩ := transactionIdDidCommit_coherent coherent tup.tXmax
  unfold checkXmax deleterHides
  by_cases valid : transactionIdIsValid tup.tXmax
  · by_cases locked : hasFlag tup.tInfomask kHeapXmaxLocked
    · simp [locked, coherent]
    cases status : tup.getXmaxStatus with
    | committed =>
      cases old : snapshot.xidLtXmin tup.tXmax <;>
        cases future : snapshot.xidGeXmax tup.tXmax <;>
        cases running : snapshot.xidInSnapshot tup.tXmax <;>
        simp [valid, locked, old, future, running, inFinishedRegion, coherent]
    | inProgress =>
      unfold deleterTest
      by_cases current : transactionIdIsCurrentTransactionId stack tup.tXmax
      · by_cases later : snapshot.curcid < tup.tCid <;>
          simp [valid, locked, current, later, coherent]
      by_cases done : logStatus log tup.tXmax = .committed <;>
        cases old : snapshot.xidLtXmin tup.tXmax <;>
        cases future : snapshot.xidGeXmax tup.tXmax <;>
        cases running : snapshot.xidInSnapshot tup.tXmax <;>
        simp [valid, locked, current, committed, done, old, future,
          running, inFinishedRegion, coherent, coherent']
    | _ => simp [coherent]
  · simp [valid, coherent]

end Visibility

section

variable (log : CommitLog) (stack : List TransactionStateData) (snapshot : SnapshotData)
  (cache : LogCache) (tup : HeapTupleHeaderData)

theorem checkXmin_tup : (checkXmin log stack snapshot cache tup).tup = tup ∨
      (checkXmin log stack snapshot cache tup).tup = tup.setXminCommitted ∨
      (checkXmin log stack snapshot cache tup).tup = tup.setXminInvalid := by
  unfold checkXmin
  cases tup.getXminStatus with
  | inProgress =>
    simp only
    split_ifs <;> simp
  | _ => exact .inl rfl

theorem heapTupleSatisfiesMVCC_keeps {α : Type} {read : HeapTupleHeaderData → α}
    (xminCommitted : ∀ tup, read tup.setXminCommitted = read tup)
    (xminInvalid : ∀ tup, read tup.setXminInvalid = read tup)
    (xmaxCommitted : ∀ tup, read tup.setXmaxCommitted = read tup)
    (xmaxInvalid : ∀ tup, read tup.setXmaxInvalid = read tup) :
    read (heapTupleSatisfiesMVCC log stack snapshot cache tup).tup = read tup := by
  have second : ∀ cache tup, read (checkXmax log stack snapshot cache tup).tup = read tup := by
    intro cache tup
    unfold checkXmax
    dsimp only
    repeat' split
    all_goals first | rfl | exact xmaxCommitted tup | exact xmaxInvalid tup
  have first : read (checkXmin log stack snapshot cache tup).tup = read tup := by
    rcases checkXmin_tup log stack snapshot cache tup with same | same | same
    · rw [same]
    · rw [same, xminCommitted]
    · rw [same, xminInvalid]
  unfold heapTupleSatisfiesMVCC
  dsimp only
  split
  · exact first
  · exact (second ..).trans first

theorem heapTupleSatisfiesMVCC_xids :
    (heapTupleSatisfiesMVCC log stack snapshot cache tup).tup.tXmin = tup.tXmin ∧
      (heapTupleSatisfiesMVCC log stack snapshot cache tup).tup.tXmax = tup.tXmax := by
  constructor
  all_goals apply heapTupleSatisfiesMVCC_keeps <;> exact fun _ => rfl

theorem heapTupleSatisfiesMVCC_locked :
    hasFlag (heapTupleSatisfiesMVCC log stack snapshot cache tup).tup.tInfomask kHeapXmaxLocked =
      hasFlag tup.tInfomask kHeapXmaxLocked := by
  apply @heapTupleSatisfiesMVCC_keeps _ _ _ _ _ Bool fun tup =>
    hasFlag tup.tInfomask kHeapXmaxLocked
  all_goals
    intro tup
    exact tup.hasFlag_setHint_of_disjoint (by decide) (by decide)

namespace Visibility

theorem checkXmin_deleterHides :
    deleterHides log stack snapshot (checkXmin log stack snapshot cache tup).tup =
      deleterHides log stack snapshot tup := by
  rcases checkXmin_tup log stack snapshot cache tup with
    same | committed | invalid
  · rw [same]
  · rw [committed, deleterHides, tup.setXminCommitted_locked, tup.setXminCommitted_getXmaxStatus]
    rfl
  · rw [invalid, deleterHides, tup.setXminInvalid_locked, tup.setXminInvalid_getXmaxStatus]
    rfl

variable {log cache}

theorem heapTupleSatisfiesMVCC_coherent (coherent : cache.Coherent log)
    (tup : HeapTupleHeaderData) :
    (heapTupleSatisfiesMVCC log stack snapshot cache tup).visible = verdict log stack snapshot tup ∧
      (heapTupleSatisfiesMVCC log stack snapshot cache tup).cache.Coherent log := by
  obtain ⟨shown, coherent'⟩ := checkXmin_coherent stack snapshot coherent tup
  obtain ⟨spared, coherent''⟩ := checkXmax_coherent stack snapshot coherent'
      (checkXmin log stack snapshot cache tup).tup
  unfold heapTupleSatisfiesMVCC verdict
  by_cases passed : inserterShown log stack snapshot tup
  · simp [shown, passed, spared, coherent'', checkXmin_deleterHides]
  · simp [shown, passed, coherent']

end Visibility

end

end Pgcpp.Transaction
