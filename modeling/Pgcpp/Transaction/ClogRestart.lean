import Pgcpp.Lib.Transition
import Pgcpp.Transaction.Transam

/-!
# The commit log across restarts

The commit log is written to files at a clean shutdown and read back at the next
start.  The counter of XIDs is not: it starts again, and so XIDs are used again.
A process writes only the pages that it has made dirty itself.
-/

namespace Pgcpp.Transaction

open Lib Function

def kClogXidsPerPage : Nat := 32768

def XidStatus.code : XidStatus → BitVec 8
  | .inProgress => 0
  | .committed => 1
  | .aborted => 2
  | .subCommitted => 3

def XidStatus.ofCode (code : BitVec 8) : XidStatus :=
  if code = 0 then .inProgress else if code = 1 then .committed
  else if code = 2 then .aborted else .subCommitted

/-- Four entries in a byte. -/
def packByte (status : Nat → XidStatus) : BitVec 8 :=
  (status 0).code ||| (status 1).code <<< 2 ||| (status 2).code <<< 4 ||| (status 3).code <<< 6

def unpackByte (byte : BitVec 8) (entry : Nat) : XidStatus := .ofCode (byte >>> (entry * 2) &&& 3)

theorem unpackByte_packByte (inside : entry < 4) :
    unpackByte (packByte status) entry = status entry := by
  have all : ∀ first second third fourth : XidStatus,
      let byte := first.code ||| second.code <<< 2 ||| third.code <<< 4 ||| fourth.code <<< 6
      unpackByte byte 0 = first ∧ unpackByte byte 1 = second ∧
        unpackByte byte 2 = third ∧ unpackByte byte 3 = fourth := by
    intro first second third fourth
    cases first <;> cases second <;> cases third <;> cases fourth <;> decide
  obtain ⟨first, second, third, fourth⟩ := all (status 0) (status 1) (status 2) (status 3)
  match entry, inside with
  | 0, _ => exact first
  | 1, _ => exact second
  | 2, _ => exact third
  | 3, _ => exact fourth

abbrev ClogPage := Nat → BitVec 8

def encodePage (log : CommitLog) (pageno : Nat) : ClogPage := fun index =>
  packByte fun entry =>
    fetchFromCommitLog log (.ofNat 32 (pageno * kClogXidsPerPage + index * 4 + entry))

/-- `LoadClogFiles` into the log. -/
def loadClogFiles (files : Nat → Option ClogPage) (log : CommitLog) : CommitLog := fun xid =>
  match files (xid.toNat / kClogXidsPerPage) with
  | none => log xid
  | some page =>
    if kMaxXids ≤ xid.toNat then log xid
    else unpackByte (page (xid.toNat % kClogXidsPerPage / 4)) (xid.toNat % 4)

/-- The log as `InitializeCommitLog` leaves it. -/
def initialCommitLog : CommitLog := fun xid =>
  if transactionIdIsNormal xid then .inProgress else .committed

theorem loadClogFiles_encodePage (inside : xid.toNat < kMaxXids)
    (written : files (xid.toNat / kClogXidsPerPage) =
      some (encodePage log (xid.toNat / kClogXidsPerPage))) :
    loadClogFiles files initial xid = log xid := by
  have place : xid.toNat / kClogXidsPerPage * kClogXidsPerPage +
      xid.toNat % kClogXidsPerPage / 4 * 4 + xid.toNat % 4 = xid.toNat := by
    unfold kClogXidsPerPage
    omega
  rw [loadClogFiles, written]
  simp only [not_le.2 inside, if_false]
  rw [encodePage, unpackByte_packByte (Nat.mod_lt _ (by decide)), place, BitVec.ofNat_toNat,
    BitVec.setWidth_eq, fetchFromCommitLog, if_neg (not_le.2 inside)]

/-- The shared memory, the files, and `DirtyClogPages` of each process; with the XIDs
allocated before the last restart and since. -/
structure ClogServer where
  log : CommitLog
  nextXid : TransactionId
  dirty : Nat → List Nat
  files : Nat → Option ClogPage
  earlier : List TransactionId
  current : List TransactionId

/-- The process that shuts the server down. -/
def postmaster : Nat := 0

inductive ClogEvent where
  | allocate (process : Nat)
  | commit (process : Nat) (xid : TransactionId)
  | abort (process : Nat) (xid : TransactionId)
  | flush (process : Nat)
  | restart

namespace ClogServer

def initial : ClogServer where
  log := initialCommitLog
  nextXid := kFirstNormalTransactionId
  dirty _ := []
  files _ := none
  earlier := []
  current := []

section

variable (server : ClogServer)

/-- The change of an entry with `MarkDirty`; special XIDs are refused. -/
def setStatus (process : Nat) (xid : TransactionId) (status : XidStatus) : ClogServer :=
  if transactionIdIsNormal xid then
    { server with
      log := setCommitLog server.log xid status, dirty := if xid.toNat < kMaxXids then
          update server.dirty process (xid.toNat / kClogXidsPerPage :: server.dirty process)
        else server.dirty }
  else server

def flushClogFiles (process : Nat) : ClogServer :=
  { server with
    dirty := update server.dirty process [], files := fun pageno =>
      if pageno ∈ server.dirty process then some (encodePage server.log pageno)
      else server.files pageno }

/-- `AllocateNextTransactionId`. -/
def allocate (process : Nat) : ClogServer :=
  let xid := server.nextXid
  if xid = kInvalidTransactionId then { server with nextXid := xid + 1 }
  else
    { server with nextXid := xid + 1, current := xid :: server.current }.setStatus process xid
      .inProgress

/-- `ShutdownClog`, then `InitializeCommitLog` in fresh memory and `LoadClogFiles`. -/
def restart : ClogServer :=
  let files := (server.flushClogFiles postmaster).files
  { initial with
    log := loadClogFiles files initialCommitLog
    files
    earlier := server.current ++ server.earlier }

def step : ClogEvent → Option ClogServer
  | .allocate process => server.allocate process
  | .commit process xid => server.setStatus process xid .committed
  | .abort process xid => server.setStatus process xid .aborted
  | .flush process => server.flushClogFiles process
  | .restart => server.restart

/-- No XID is allocated after a restart if one was allocated before it, and at a
restart the other processes have no dirty pages but those of the postmaster. -/
def Safe : ClogEvent → Prop
  | .allocate _ => server.earlier = []
  | .restart => ∀ process, server.dirty process ⊆ server.dirty postmaster
  | _ => True

end

/-- A page that no process has to write is in the files as it is in memory. -/
structure Invariant (server : ClogServer) : Prop where
  once : server.current = [] ∨ server.earlier = []
  stored : ∀ xid, xid.toNat < kMaxXids →
    (∃ process, xid.toNat / kClogXidsPerPage ∈ server.dirty process) ∨
      loadClogFiles server.files initialCommitLog xid = server.log xid

variable {server : ClogServer}

theorem Invariant.setStatus (invariant : server.Invariant) (process : Nat)
    (xid : TransactionId) (status : XidStatus) :
    (server.setStatus process xid status).Invariant := by
  rw [ClogServer.setStatus]
  split
  · refine ⟨invariant.once, ?_⟩
    intro other inside
    by_cases same : other = xid
    · left
      exact ⟨process, by simp [← same, inside]⟩
    rcases invariant.stored other inside with ⟨writer, dirty⟩ | stored
    · left
      refine ⟨writer, ?_⟩
      dsimp only
      split
      · by_cases own : writer = process
        · subst own
          simp [dirty]
        · rwa [update_of_ne own]
      · exact dirty
    · right
      rw [stored, setCommitLog]
      dsimp only
      split
      · rw [update_of_ne same]
      · rfl
  · exact invariant

theorem flushClogFiles_dirty (other : writer ≠ process) :
    (server.flushClogFiles process).dirty writer = server.dirty writer :=
  update_of_ne other ..

section

variable (invariant : server.Invariant)

include invariant

theorem Invariant.flushClogFiles (process : Nat) : (server.flushClogFiles process).Invariant := by
  refine ⟨invariant.once, ?_⟩
  intro xid inside
  by_cases own : xid.toNat / kClogXidsPerPage ∈ server.dirty process
  · right
    exact loadClogFiles_encodePage inside (if_pos own)
  rcases invariant.stored xid inside with ⟨writer, dirty⟩ | stored
  · left
    refine ⟨writer, ?_⟩
    rwa [flushClogFiles_dirty]
    rintro rfl
    exact own dirty
  · right
    refine Eq.trans ?_ stored
    simp [loadClogFiles, ClogServer.flushClogFiles, if_neg own]

theorem Invariant.step (safe : server.Safe event)
    (taken : server.step event = some after) : after.Invariant := by
  cases event with
  | allocate process =>
    cases taken
    rw [allocate]
    split
    · exact ⟨invariant.once, invariant.stored⟩
    · apply Invariant.setStatus
      exact ⟨.inr safe, invariant.stored⟩
  | commit process xid | abort process xid =>
    cases taken
    exact invariant.setStatus process xid _
  | flush process =>
    cases taken
    exact invariant.flushClogFiles process
  | restart =>
    cases taken
    exact ⟨.inl rfl, fun _ _ => Or.inr rfl⟩

theorem Invariant.restart_log (safe : server.Safe .restart) (xid : TransactionId) :
    fetchFromCommitLog server.restart.log xid = fetchFromCommitLog server.log xid := by
  rw [fetchFromCommitLog, fetchFromCommitLog]
  split
  · rfl
  next inside =>
    have below := not_le.1 inside
    by_cases own : xid.toNat / kClogXidsPerPage ∈ server.dirty postmaster
    · exact loadClogFiles_encodePage below (if_pos own)
    rcases (invariant.flushClogFiles postmaster).stored xid below with ⟨writer, dirty⟩ | stored
    · by_cases isPostmaster : writer = postmaster
      · simp [isPostmaster, ClogServer.flushClogFiles] at dirty
      · rw [flushClogFiles_dirty isPostmaster] at dirty
        exact absurd (safe writer dirty) own
    · exact stored

end

theorem initial_invariant : initial.Invariant := ⟨.inl rfl, fun _ _ => Or.inr rfl⟩

/-- In every run that allocates in one incarnation only, no XID is used again, and a
restart keeps the status of every XID. -/
theorem restart_keeps (run : Reaches step Safe initial server) :
    (∀ xid ∈ server.current, xid ∉ server.earlier) ∧ (server.Safe .restart → ∀ xid,
        fetchFromCommitLog server.restart.log xid = fetchFromCommitLog server.log xid) := by
  have invariant : server.Invariant := by
    apply run.invariant Invariant _ initial_invariant
    intro _ _ _ holds safe taken
    exact holds.step safe taken
  refine ⟨?_, invariant.restart_log⟩
  intro xid member
  rcases invariant.once with none | none
  · simp [none] at member
  · simp [none]

theorem restart_keeps_committed : ∃ server, Reaches step Safe initial server ∧
    server.Safe .restart ∧ fetchFromCommitLog server.log 3 = .committed ∧
    fetchFromCommitLog server.restart.log 3 = .committed := by
  have run : Reaches step Safe initial ((initial.allocate 0).setStatus 0 3 .committed) := by
    refine .tail (.tail .refl ⟨.allocate 0, rfl, rfl⟩) ⟨.commit 0 3, trivial, rfl⟩
  have safe : Safe ((initial.allocate 0).setStatus 0 3 .committed) .restart := by
    intro process
    by_cases own : process = 0
    · rw [own]
      exact List.Subset.refl _
    have clean : ((initial.allocate 0).setStatus 0 3 .committed).dirty process = [] :=
      (update_of_ne own ..).trans (update_of_ne own ..)
    rw [clean]
    exact List.nil_subset _
  refine ⟨_, run, safe, by decide, ?_⟩
  rw [(restart_keeps run).2 safe]
  decide

/-- After a restart the XID 3 is allocated again, and is no longer committed. -/
theorem restart_allocates_again :
    ∃ server, runActions step initial [.allocate 0, .commit 0 3, .restart, .allocate 0] =
        some server ∧ 3 ∈ server.earlier ∧ 3 ∈ server.current ∧
      fetchFromCommitLog server.log 3 = .inProgress := by
  refine ⟨_, rfl, by decide, by decide, by decide⟩

/-! ## One process -/

inductive Write where
  | set (xid : TransactionId) (status : XidStatus)
  | flush

def write (process : Nat) (server : ClogServer) : Write → ClogServer
  | .set xid status => server.setStatus process xid status
  | .flush => server.flushClogFiles process

/-- The writes change an entry of the page. -/
def ChangesPage (writes : List Write) (pageno : Nat) : Prop :=
  ∃ xid status, .set xid status ∈ writes ∧ transactionIdIsNormal xid ∧
    xid.toNat < kMaxXids ∧ xid.toNat / kClogXidsPerPage = pageno

/-- The state after the writes of the only process. -/
structure Written (process : Nat) (writes : List Write) (server : ClogServer) : Prop where
  invariant : server.Invariant
  alone : ∀ writer, writer ≠ process → server.dirty writer = []
  pages : ∀ pageno, pageno ∈ server.dirty process ∨ server.files pageno ≠ none ↔
    ChangesPage writes pageno

theorem changesPage_flush :
    ChangesPage (writes ++ [.flush]) pageno ↔ ChangesPage writes pageno := by
  simp [ChangesPage]

theorem written (process : Nat) (writes : List Write) :
    Written process writes (writes.foldl (write process) initial) := by
  induction writes using List.reverseRecOn with
  | nil =>
    refine ⟨⟨.inl rfl, fun _ _ => Or.inr rfl⟩, fun _ _ => rfl, ?_⟩
    simp [ChangesPage, initial]
  | append_singleton writes last ih =>
    rw [List.foldl_append]
    obtain ⟨invariant, alone, pages⟩ := ih
    cases last with
    | set xid status =>
      refine ⟨invariant.setStatus process xid status, ?_, ?_⟩
      · intro writer other
        simp only [List.foldl, write, setStatus]
        split_ifs
        · exact (update_of_ne other ..).trans (alone writer other)
        all_goals exact alone writer other
      intro pageno
      have more : ChangesPage (writes ++ [.set xid status]) pageno ↔ ChangesPage writes pageno ∨
          transactionIdIsNormal xid ∧ xid.toNat < kMaxXids ∧
            xid.toNat / kClogXidsPerPage = pageno := by
        simp only [ChangesPage, List.mem_append, or_and_right, exists_or]
        simp
      rw [more, ← pages pageno]
      simp only [List.foldl, write, setStatus]
      split_ifs with normal inside
      · simp [normal, inside, or_assoc, or_comm, eq_comm]
      · simp [inside]
      · simp [normal]
    | flush =>
      refine ⟨invariant.flushClogFiles process, ?_, ?_⟩
      · intro writer other
        exact (flushClogFiles_dirty other).trans (alone writer other)
      intro pageno
      rw [changesPage_flush, ← pages pageno]
      simp only [List.foldl, write, flushClogFiles]
      split_ifs with dirty
      · simp [dirty]
      · simp [dirty]

theorem write_log (server : ClogServer) {later : List Write}
    (unchanged : ∀ status, .set xid status ∉ later) :
    (later.foldl (write process) server).log xid = server.log xid := by
  induction later generalizing server with
  | nil => rfl
  | cons first later ih =>
    rw [List.foldl_cons, ih _ fun status mem => unchanged status (List.mem_cons_of_mem _ mem)]
    cases first with
    | set other status =>
      have differs : xid ≠ other := fun same => unchanged status (same ▸ List.mem_cons_self)
      simp only [write, setStatus, setCommitLog]
      split_ifs <;> simp [differs]
    | flush => rfl

/-- After a last flush, a cleared log gets back from the files what was written last;
an XID of a page that was never written is in progress. -/
theorem clogPages_roundTrip (process : Nat) (writes : List Write) (xid : TransactionId) :
    let server := (writes.foldl (write process) initial).flushClogFiles process
    let loaded := loadClogFiles server.files fun _ => .inProgress
    (∀ status, .set xid status ∈ writes → transactionIdIsNormal xid →
      xid.toNat < kMaxXids → loaded xid = server.log xid ∧
        ∀ before later, writes = before ++ .set xid status :: later →
          (∀ other, .set xid other ∉ later) → loaded xid = status) ∧
    (¬ChangesPage writes (xid.toNat / kClogXidsPerPage) → loaded xid = .inProgress) := by
  intro server loaded
  obtain ⟨invariant, alone, pages⟩ : Written process (writes ++ [.flush]) server := by
    have last := written process (writes ++ [.flush])
    rwa [List.foldl_append] at last
  have clean (writer : Nat) : server.dirty writer = [] := by
    by_cases own : writer = process
    · rw [own]
      exact update_self ..
    · exact alone writer own
  have changed := pages (xid.toNat / kClogXidsPerPage)
  simp only [clean, List.not_mem_nil, false_or, changesPage_flush] at changed
  constructor
  · intro status member normal inside
    obtain ⟨_, file⟩ := Option.ne_none_iff_exists'.1
      (changed.2 ⟨xid, status, member, normal, inside, rfl⟩)
    rcases invariant.stored xid inside with ⟨writer, dirty⟩ | stored
    · rw [clean] at dirty
      contradiction
    · have restored : loaded xid = server.log xid := by
        rw [← stored]
        simp [loaded, loadClogFiles, file, if_neg (not_le.2 inside)]
      refine ⟨restored, fun before later split last => restored.trans ?_⟩
      change (writes.foldl (write process) initial).log xid = status
      rw [split, List.foldl_append, List.foldl_cons, write_log _ last]
      simp [write, setStatus, setCommitLog, normal, inside]
  · intro unchanged
    have missing := not_not.1 (mt changed.1 unchanged)
    simp [loaded, loadClogFiles, missing]

theorem clogPages_roundTrip_twice :
    let server := ([.set 3 .aborted, .flush, .set 3 .committed, .set 4 .aborted].foldl (write 0)
      initial).flushClogFiles 0
    loadClogFiles server.files (fun _ => .inProgress) 3 = .committed :=
  ((clogPages_roundTrip 0 _ 3).1 .committed (by simp) (by decide) (by decide)).2
    [.set 3 .aborted, .flush] [.set 4 .aborted] rfl (by simp)

end ClogServer

end Pgcpp.Transaction
