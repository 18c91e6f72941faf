import Pgcpp.Transaction.System

/-!
# Stability of snapshots

`XidVisibleInSnapshot` looks into the commit log only for XIDs that the
snapshot takes for finished.  Its answers stay as they are when those XIDs
really are finished while the snapshot is built: no XID may be open outside
the list of running XIDs that was read, be it allocated and not yet published,
published after the list was read, or prepared; and the owner's cache must not
lag behind on one of them.
-/

namespace Pgcpp.Transaction

open Lib

theorem oldestRunning_le (half : bound ≤ 2 ^ 31)
    (small : ∀ xid ∈ xips, xid ≠ 0#32 ∧ xid.toNat < bound) (smallOldest : oldest.toNat < bound) :
    (oldest ≠ 0#32 → (oldestRunning xips oldest).toNat ≤ oldest.toNat) ∧
    (∀ xid ∈ xips, (oldestRunning xips oldest).toNat ≤ xid.toNat) ∧
    (oldestRunning xips oldest).toNat < bound := by
  induction xips generalizing oldest with
  | nil => exact ⟨fun _ => le_rfl, by simp, smallOldest⟩
  | cons first rest ih =>
    obtain ⟨nonzero, bounded⟩ := small first (by simp)
    have smallRest : ∀ xid ∈ rest, xid ≠ 0#32 ∧ xid.toNat < bound :=
      fun xid mem => small xid (by simp [mem])
    have numeric : transactionIdPrecedes first oldest = decide (first.toNat < oldest.toNat) :=
      transactionIdPrecedes_eq_lt (by omega) (by omega)
    unfold oldestRunning
    split
    · next chosen =>
        obtain ⟨below, least, inside⟩ := ih smallRest bounded
        have lower := below nonzero
        refine ⟨?_, ?_, inside⟩
        · intro present
          simp only [Bool.or_eq_true, beq_iff_eq, numeric, decide_eq_true_eq] at chosen
          rcases chosen with absent | _
          · exact absurd absent present
          · omega
        · exact List.forall_mem_cons.2 ⟨lower, least⟩
    · next kept =>
        obtain ⟨below, least, inside⟩ := ih smallRest smallOldest
        simp only [Bool.or_eq_true, beq_iff_eq, numeric, decide_eq_true_eq, not_or, not_lt] at kept
        refine ⟨below, ?_, inside⟩
        exact List.forall_mem_cons.2 ⟨(below kept.1).trans kept.2, least⟩

namespace SystemState

/-- `XidVisibleInSnapshot` as the backend `me` would answer it now. -/
def visibleInSnapshot (state : SystemState) (me : Nat)
    (snapshot : SnapshotData) (xid : TransactionId) : Bool :=
  (xidVisibleInSnapshot state.log snapshot (state.backends me).cache xid).1

/-- XIDs are allocated from the lower half of the XID space only. -/
def LowerHalf (state : SystemState) (event : Event) : Prop :=
  event.action = .allocate → state.nextXid.toNat < 2 ^ 31

/-- Nothing is open outside the list of running XIDs that `me` has read, as
far as the commit log can record it, and the cache of `me` is up to date. -/
structure ScanComplete (state : SystemState) (me : Nat) (xip : List TransactionId) : Prop where
  listed : ∀ owner, ∀ xid ∈ (state.backends owner).openXids, xid ∈ xip ∨ kMaxXids ≤ xid.toNat
  current : (state.backends me).cache.cachedXid ∈ xip ∨ (state.backends me).cache.Coherent state.log

/-- What the snapshot scan relies on: published and scanned XIDs are XIDs that
have been allocated, all from the lower half. -/
structure ScansBounded (state : SystemState) : Prop where
  half : state.nextXid.toNat ≤ 2 ^ 31
  published : ∀ owner, (state.pgxact owner).toNat < state.nextXid.toNat
  scanned : ∀ owner xip, (state.backends owner).runningXids = some xip →
    ∀ xid ∈ xip, xid ≠ 0#32 ∧ xid.toNat < state.nextXid.toNat

theorem initial_scansBounded (pgprocnos : List Nat) : (initial pgprocnos).ScansBounded := by
  constructor
  · exact (by decide : (3#32).toNat ≤ 2 ^ 31)
  · intro owner
    exact (by decide : (0#32).toNat < (3#32).toNat)
  · intro owner _ running
    simp [initial, Backend.initial] at running

variable {state : SystemState}

section

variable (taken : state.step event = some next)

include taken

theorem step_other (other : owner ≠ event.backend) :
    next.backends owner = state.backends owner := by
  rcases step_cases taken with ⟨_, _, _, rfl⟩ | ⟨_, _, _, rfl⟩ | ⟨_, _, rfl⟩ | acted
  · simp [readNextXid, setBackend, other]
  · simp [publish, setBackend, other]
  · simp [clearPgxact, setBackend, other]
  · exact (act_frame acted).others owner other

theorem step_nextXid : next.nextXid = state.nextXid ∨ event.action = .allocate := by
  rcases step_cases taken with ⟨_, _, _, rfl⟩ | ⟨_, _, _, rfl⟩ | ⟨_, _, rfl⟩ | acted
  · exact .inl rfl
  · exact .inl rfl
  · exact .inl rfl
  · exact (act_frame acted).nextXid

theorem step_pgxact : next.pgxact owner = state.pgxact owner ∨ next.pgxact owner = 0#32 ∨
      next.pgxact owner ∈ (state.backends owner).openXids := by
  rcases step_cases taken with ⟨_, _, _, rfl⟩ | ⟨_, phase, _, rfl⟩ | ⟨_, _, rfl⟩ | acted
  · exact .inl rfl
  · by_cases same : owner = event.backend
    · subst same
      exact .inr (.inr (by simp [publish, setBackend, Backend.openXids, phase]))
    · exact .inl (by simp [publish, setBackend, same])
  · by_cases same : owner = event.backend
    · exact .inr (.inl (by simp [clearPgxact, setBackend, same, kInvalidTransactionId]))
    · exact .inl (by simp [clearPgxact, setBackend, same])
  rcases (act_frame acted).pgxact with same | cleared
  · exact .inl (by rw [same])
  by_cases same : owner = event.backend
  · exact .inr (.inl (by simp [cleared, same, kInvalidTransactionId]))
  · exact .inl (by simp [cleared, same])

theorem step_runningXids : (next.backends owner).runningXids = (state.backends owner).runningXids ∨
      (next.backends owner).runningXids = none ∨ (next.backends owner).runningXids =
        some (collectRunningXids state.pgxact state.pgprocnos) := by
  by_cases same : owner = event.backend
  · subst same
    rcases step_cases taken with ⟨_, _, _, rfl⟩ | ⟨_, _, _, rfl⟩ | ⟨_, _, rfl⟩ | acted
    · exact .inr (.inl (by simp [readNextXid, setBackend]))
    · exact .inl (by simp [publish, setBackend])
    · exact .inl (by simp [clearPgxact, setBackend])
    rcases (act_frame acted).runningXids with same | scanned
    · exact .inl same
    · exact .inr (.inr scanned)
  · exact .inl (by rw [step_other taken same])

end

theorem LowerHalf.room (lower : state.LowerHalf event) (allocates : event.action = .allocate) :
    state.nextXid.toNat + 1 < 2 ^ 32 := by
  have := lower allocates
  omega

theorem ScansBounded.step (bounded : state.ScansBounded) (valid : state.ledger.Valid)
    (lower : state.LowerHalf event) (taken : state.step event = some next) : next.ScansBounded := by
  have effect := step_effect valid lower.room taken
  have grows : state.nextXid.toNat ≤ next.nextXid.toNat ∧
      next.nextXid.toNat ≤ state.nextXid.toNat + 1 := effect.ledger.nextXid_le
  constructor
  · rcases step_nextXid taken with same | allocates
    · rw [same]
      exact bounded.half
    · have := lower allocates
      omega
  · intro owner
    rcases step_pgxact taken with same | cleared | opened
    · rw [same]
      have := bounded.published owner
      omega
    · rw [cleared]
      have := transactionIdIsNormal_iff.1 valid.counter
      have : state.ledger.nextXid.toNat = state.nextXid.toNat := rfl
      simp only [BitVec.toNat_ofNat]
      omega
    · have : (next.pgxact owner).toNat < state.nextXid.toNat := valid.below owner _ opened
      omega
  intro owner xip running xid mem
  rcases step_runningXids taken with same | stopped | scanned
  · rw [same] at running
    obtain ⟨nonzero, below⟩ := bounded.scanned owner xip running xid mem
    exact ⟨nonzero, by omega⟩
  · rw [stopped] at running
    contradiction
  rw [scanned, Option.some.injEq] at running
  subst running
  simp only [collectRunningXids, List.mem_filter, List.mem_map] at mem
  obtain ⟨⟨process, _, rfl⟩, present⟩ := mem
  have := bounded.published process
  exact ⟨transactionIdIsValid_iff.1 present, by omega⟩

theorem sound_and_bounded {pgprocnos : List Nat}
    (run : Reaches SystemState.step LowerHalf (initial pgprocnos) state) :
    state.Sound ∧ state.ScansBounded := by
  apply run.invariant (fun reached => reached.Sound ∧ reached.ScansBounded)
  · intro _ _ _ known lower taken
    obtain ⟨sound, bounded⟩ := known
    exact ⟨sound.step (step_effect sound.ledger lower.room taken),
      bounded.step sound.ledger lower taken⟩
  · exact ⟨initial_sound pgprocnos, initial_scansBounded pgprocnos⟩

/-- What holds from the moment a snapshot with running list `xip` is built
over `log`: outcomes recorded then are kept, and the owner's cache is up to
date on those outside the list. -/
structure Holds (log : CommitLog) (me : Nat) (xip : List TransactionId)
    (state : SystemState) : Prop where
  sound : state.Sound
  kept : KeepsOutcomes log state.log
  agrees : ∀ xid, transactionIdIsNormal xid → xid ∉ xip →
    fetchFromCommitLog log xid ≠ .inProgress →
    (state.backends me).cache.AgreesAt state.log xid

variable {log : CommitLog} {me : Nat} {xip : List TransactionId}

theorem Holds.step (holds : Holds log me xip state) (lower : state.LowerHalf event)
    (taken : state.step event = some next) : Holds log me xip next := by
  have effect := step_effect holds.sound.ledger lower.room taken
  have outcomes := effect.keepsOutcomes holds.sound.ledger
  refine ⟨holds.sound.step effect, holds.kept.trans outcomes, ?_⟩
  intro xid normal unlisted final
  have agreed := (effect.caches me).agreesAt normal (holds.agrees xid normal unlisted final)
  intro hit
  rw [outcomes xid (by rw [holds.kept xid final]; exact final)]
  exact agreed hit

variable {xid : TransactionId}

/-- The owner's lookup of an XID outside the running list is settled: the log
had its outcome, or never will. -/
theorem Holds.didCommit (holds : Holds log me xip state)
    (normal : transactionIdIsNormal xid) (unlisted : xid ∉ xip)
    (settled : fetchFromCommitLog log xid ≠ .inProgress ∨ kMaxXids ≤ xid.toNat) :
    (transactionIdDidCommit state.log (state.backends me).cache xid).1 =
      decide (fetchFromCommitLog log xid = .committed) := by
  have status : logStatus state.log xid = fetchFromCommitLog state.log xid := by
    simp [logStatus, normal]
  rcases settled with final | unrecorded
  · have answer := (holds.agrees xid normal unlisted final).fetch_eq
    rw [status, holds.kept xid final] at answer
    simp [transactionIdDidCommit, transactionIdGetStatus, answer, beq_eq_decide]
  have never : ∀ log : CommitLog, fetchFromCommitLog log xid = .inProgress := by
    intro log
    simp [fetchFromCommitLog, unrecorded]
  rw [never log]
  by_contra answered
  have committed : (transactionIdDidCommit state.log (state.backends me).cache xid).1 := by
    simpa using answered
  have recorded := (holds.sound.caches me).didCommit committed
  rw [status, never state.log] at recorded
  contradiction

theorem readNextXid_eq_of_step (running : (state.backends me).runningXids = some xip)
    (built : state.step ⟨me, .readNextXid⟩ = some next) : next = state.readNextXid me xip := by
  rcases step_cases built with ⟨_, found, _, same⟩ | ⟨_, _, other, _⟩ | ⟨_, other, _⟩ | acted
  · obtain rfl := Option.some.inj (found.symm.trans running)
    exact same
  · contradiction
  · contradiction
  · simp [act] at acted

theorem holds_of_scanComplete (sound : state.Sound) (complete : state.ScanComplete me xip) :
    Holds state.log me xip (state.readNextXid me xip) := by
  have effect : Effect state (state.readNextXid me xip) :=
    Effect.quiet rfl rfl rfl (.refl _) LogCache.Moves.refl
  refine ⟨sound.step effect, .refl _, ?_⟩
  intro _ normal unlisted _ hit
  have sameCache : ((state.readNextXid me xip).backends me).cache = (state.backends me).cache := by
    simp [readNextXid, setBackend]
  rw [sameCache] at hit ⊢
  rcases complete.current with listed | coherent
  · exact absurd (hit ▸ listed) unlisted
  · subst hit
    exact coherent normal

theorem not_xidLtXmin_of_listed {nextXid : TransactionId} (half : nextXid.toNat ≤ 2 ^ 31)
    (small : ∀ xid ∈ xip, xid ≠ 0#32 ∧ xid.toNat < nextXid.toNat)
    (normal : transactionIdIsNormal xid) (listed : xid ∈ xip) :
    (finishSnapshot xip nextXid currentXid curcid).xidLtXmin xid = false := by
  have above := transactionIdIsNormal_iff.1 normal
  have below := (small xid listed).2
  have start : kInvalidTransactionId.toNat < nextXid.toNat := by
    have : kInvalidTransactionId.toNat = 0 := rfl
    omega
  obtain ⟨_, least, _⟩ := oldestRunning_le half small start
  have lower := least xid listed
  unfold SnapshotData.xidLtXmin finishSnapshot
  dsimp only
  rw [Bool.and_eq_false_iff]
  right
  split
  · have frozen : kFrozenTransactionId.toNat = 2 := rfl
    rw [transactionIdPrecedes_eq_lt (by omega) (by omega)]
    exact decide_eq_false (by omega)
  · rw [transactionIdPrecedes_eq_lt (by omega) (by omega)]
    exact decide_eq_false (by omega)

theorem lt_nextXid_of_not_xidGeXmax {nextXid : TransactionId} (half : nextXid.toNat ≤ 2 ^ 31)
    (counter : transactionIdIsNormal nextXid) (recordable : xid.toNat < kMaxXids)
    (past : (finishSnapshot xip nextXid currentXid curcid).xidGeXmax xid =
      false) : xid.toNat < nextXid.toNat := by
  have xmax : (finishSnapshot xip nextXid currentXid curcid).xmax = nextXid := by
    simp [finishSnapshot, getNextTransactionId]
  have room : kMaxXids = 2 ^ 24 := rfl
  rw [SnapshotData.xidGeXmax, xmax, transactionIdIsValid_of_normal counter,
    transactionIdFollowsOrEquals_eq_not, transactionIdPrecedes_eq_lt (by omega) (by omega)] at past
  simpa using past

theorem lookedUp_settled (sound : state.Sound) (bounded : state.ScansBounded)
    (running : (state.backends me).runningXids = some xip) (complete : state.ScanComplete me xip)
    (built : snapshot = finishSnapshot xip state.nextXid currentXid curcid)
    (normal : transactionIdIsNormal xid) (past : snapshot.xidGeXmax xid = false)
    (looked : snapshot.xidLtXmin xid ∨ snapshot.xidInSnapshot xid = false) :
    xid ∉ xip ∧ (fetchFromCommitLog state.log xid ≠ .inProgress ∨ kMaxXids ≤ xid.toNat) := by
  subst built
  have unlisted : xid ∉ xip := by
    intro listed
    rcases looked with older | absent
    · rw [not_xidLtXmin_of_listed bounded.half
        (bounded.scanned me xip running) normal listed] at older
      contradiction
    · rw [← Bool.not_eq_true, SnapshotData.xidInSnapshot_iff] at absent
      exact absent listed
  refine ⟨unlisted, ?_⟩
  by_contra unsettled
  obtain ⟨inProgress, recordable⟩ : fetchFromCommitLog state.log xid = .inProgress ∧
        xid.toNat < kMaxXids := by
    simpa using unsettled
  have below := lt_nextXid_of_not_xidGeXmax bounded.half sound.ledger.counter recordable past
  obtain ⟨owner, opened⟩ := sound.ledger.accounted xid normal below recordable inProgress
  rcases complete.listed owner xid opened with listed | _
  · exact unlisted listed
  · omega

theorem Holds.visibleInSnapshot_eq (holdsFirst : Holds log me xip first)
    (holdsSecond : Holds log me xip second)
    (settled : ∀ xid, transactionIdIsNormal xid → snapshot.xidGeXmax xid = false →
      (snapshot.xidLtXmin xid ∨ snapshot.xidInSnapshot xid = false) →
      xid ∉ xip ∧ (fetchFromCommitLog log xid ≠ .inProgress ∨ kMaxXids ≤ xid.toNat)) :
    first.visibleInSnapshot me snapshot xid = second.visibleInSnapshot me snapshot xid := by
  unfold visibleInSnapshot xidVisibleInSnapshot
  cases normal : transactionIdIsNormal xid with
  | false => simp
  | true =>
    cases past : snapshot.xidGeXmax xid with
    | true => simp
    | false =>
      have same : snapshot.xidLtXmin xid ∨ snapshot.xidInSnapshot xid = false →
          (transactionIdDidCommit first.log (first.backends me).cache xid).1 =
          (transactionIdDidCommit second.log (second.backends me).cache xid).1 := by
        intro looked
        obtain ⟨unlisted, final⟩ := settled xid normal past looked
        rw [holdsFirst.didCommit normal unlisted final, holdsSecond.didCommit normal unlisted final]
      cases older : snapshot.xidLtXmin xid with
      | true =>
        simp only [Bool.not_true, Bool.false_eq_true, if_false, if_true, same (.inl older)]
        split <;> rfl
      | false =>
        cases listed : snapshot.xidInSnapshot xid with
        | true => simp
        | false =>
          simp only [Bool.not_true, Bool.false_eq_true, if_false, same (.inr listed)]
          split <;> rfl

end SystemState

open SystemState

/-- Once a snapshot is built from a complete scan, the owner's answer about
any XID never changes in the rest of the run. -/
theorem snapshot_stable_of_scanComplete {pgprocnos : List Nat} {before taken later : SystemState}
    {me : Nat} {xip : List TransactionId} {snapshot : SnapshotData}
    (run : Reaches step LowerHalf (initial pgprocnos) before)
    (running : (before.backends me).runningXids = some xip) (complete : before.ScanComplete me xip)
    (built : before.step ⟨me, .readNextXid⟩ = some taken)
    (held : (taken.backends me).activeSnapshot = some snapshot)
    (rest : Reaches step LowerHalf taken later) (xid : TransactionId) :
    later.visibleInSnapshot me snapshot xid = taken.visibleInSnapshot me snapshot xid := by
  obtain ⟨sound, bounded⟩ := sound_and_bounded run
  obtain rfl := readNextXid_eq_of_step running built
  have start := holds_of_scanComplete sound complete
  have finish := rest.invariant (Holds before.log me xip)
    (fun _ _ _ holds lower taken => holds.step lower taken) start
  refine finish.visibleInSnapshot_eq start ?_
  have fields : snapshot = finishSnapshot xip before.nextXid
      (before.backends me).currentXid (before.backends me).commandId := by
    simpa [readNextXid, setBackend] using held.symm
  intro xid normal past looked
  exact lookedUp_settled sound bounded running complete fields normal past looked

/-- Backend 0 has an XID that is not yet published when backend 1 builds its
snapshot. -/
def snapshotBeforePublish : List Event :=
  [⟨0, .startTransaction⟩, ⟨0, .allocate⟩, ⟨1, .startTransaction⟩,
    ⟨1, .readRunning⟩, ⟨1, .readNextXid⟩]

/-- Backend 1 looks the XID up, backend 0 commits it, and a lookup of another
XID evicts the first answer from the cache. -/
def commitAfterSnapshot : List Event :=
  [⟨1, .lookup 3⟩, ⟨0, .publish⟩, ⟨0, .logCommit⟩, ⟨0, .clearPgxact⟩, ⟨1, .lookup 4⟩]

theorem unpublished_xid_becomes_visible : ∃ taken later snapshot,
      Reaches step (fun _ _ => True) (initial [0, 1]) taken ∧
      (taken.backends 1).activeSnapshot = some snapshot ∧
      (taken.backends 1).currentXid = kInvalidTransactionId ∧
      Reaches step (fun _ _ => True) taken later ∧ taken.visibleInSnapshot 1 snapshot 3 = false ∧
      later.visibleInSnapshot 1 snapshot 3 := by
  refine ⟨_, _, ⟨2, 4, [], 0, 0⟩, .of_unguarded snapshotBeforePublish rfl, ?_, ?_,
    .of_unguarded commitAfterSnapshot rfl, ?_, ?_⟩
  all_goals decide

theorem listed_xid_keeps_its_answer : ∃ (taken later : SystemState) (snapshot : SnapshotData),
      (taken.backends 1).activeSnapshot = some snapshot ∧ logStatus later.log 3#32 = .committed ∧
      later.visibleInSnapshot 1 snapshot 3#32 = taken.visibleInSnapshot 1 snapshot 3#32 := by
  have run : Reaches step LowerHalf (initial [0, 1]) _ :=
    .head ⟨⟨0, .startTransaction⟩, nofun, rfl⟩ (.head ⟨⟨0, .allocate⟩, fun _ => by decide, rfl⟩
      (.head ⟨⟨0, .publish⟩, nofun, rfl⟩ (.head ⟨⟨1, .startTransaction⟩, nofun, rfl⟩
      (.single ⟨⟨1, .readRunning⟩, nofun, rfl⟩))))
  refine ⟨_, _, _, ?_, ?_, snapshot_stable_of_scanComplete run rfl ⟨?_, .inr ?_⟩ rfl rfl
    (.single ⟨⟨0, .logCommit⟩, nofun, rfl⟩) 3#32⟩
  · rfl
  · decide
  on_goal 2 => exact LogCache.coherent_empty
  intro owner _ opened
  by_cases first : owner = 0
  · subst first
    exact .inl opened
  by_cases second : owner = 1
  · subst second
    simp [readRunning, setBackend, publish, initial, Backend.initial, Backend.openXids] at opened
  · simp [readRunning, setBackend, publish, initial, Backend.initial,
      Backend.openXids, first, second] at opened

end Pgcpp.Transaction
