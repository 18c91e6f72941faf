import Pgcpp.Lib.Transition
import Pgcpp.Transaction.XlogRoundTrip

/-!
# Crashes and recovery

A server appends records to the WAL file, crashes in the middle of a write and
starts again from the file.  The reader rejects an incomplete record at the end
of the file, but nothing removes it: what is appended behind it is not reached.
-/

namespace Pgcpp.Transaction

open Lib List DecodedRecord XLogRecord

/-! ## Runs of a server -/

/-- `InitializeWal` in a new process. -/
def initializeWal (file : List UInt8) : Wal :=
  { buffer := List.replicate kSizeofXlogRecord 0 ++ file, prevRecordLsn := 0 }

/-- The file `wal.log`, the process if it is running, and a ghost list of the
records whose insertion was completed. -/
structure WalServer where
  file : List UInt8
  process : Option Wal
  completed : List InsertCall
  deriving DecidableEq

inductive ServerEvent where
  | insert (record : InsertCall)
  /-- A crash after the given number of bytes of a record. -/
  | crash (record : InsertCall) (written : Nat)
  | restart
  deriving DecidableEq

variable (server : WalServer)

namespace WalServer

def initial : WalServer := { file := [], process := some (initializeWal []), completed := [] }

def step : ServerEvent → Option WalServer
  | .insert record =>
    match server.process with
    | none => none
    | some wal =>
      some
        { file := server.file ++ record.bytes wal.prevRecordLsn, process := some (wal.insert record)
          completed := server.completed ++ [record] }
  | .crash record written =>
    match server.process with
    | none => none
    | some wal =>
      if written < (record.bytes wal.prevRecordLsn).length then
        some
          { server with
            file := server.file ++ (record.bytes wal.prevRecordLsn).take written, process := none }
      else none
  | .restart =>
    match server.process with
    | none => some { server with process := some (initializeWal server.file) }
    | some _ => none

end WalServer

/-- What a redo function gets to see of a record. -/
structure RedoContent where
  rmid : UInt8
  info : UInt8
  mainData : List UInt8
  deriving DecidableEq

def WalContent.redo (content : WalContent) : RedoContent :=
  { rmid := content.rmid, info := content.info, mainData := content.mainData }

def RedoCall.content (call : RedoCall) : RedoContent :=
  { rmid := call.record.xlRmid, info := call.record.xlInfo &&& ~~~kXlrBkpBlockImage
    mainData := call.mainData }

/-- The records a recovery has to replay. -/
def WalServer.toReplay (registered : UInt8 → Bool) : List RedoContent :=
  (server.completed.filter fun record => registered record.rmid).map
    fun record => record.content.redo

/-- A recovery after a restart replays every completed record once, in order. -/
def WalServer.Recovers : Prop :=
  ∀ registered : UInt8 → Bool,
    (performCrashRecovery registered (initializeWal server.file).buffer).2.map RedoCall.content =
      server.toReplay registered

/-- The WAL ends where the last complete record does. -/
def EndsClean (wal : Wal) : Prop := (readWal wal.buffer kSizeofXlogRecord).2 = some .endOfWal

instance (wal : Wal) : Decidable (EndsClean wal) := inferInstanceAs (Decidable (_ = _))

/-- The condition on an event: a record is written behind the last complete
record only, and within the limits of the reader. -/
def EventSafe : ServerEvent → Prop
  | .insert record => record.Readable ∧ ∀ wal ∈ server.process, EndsClean wal
  | .crash record written =>
    written ≠ 0 → kSizeofXlogRecord + record.assembly.payload.length < 2 ^ 32 ∧
      ∀ wal ∈ server.process, EndsClean wal
  | .restart => True

instance (server : WalServer) (event : ServerEvent) : Decidable (EventSafe server event) := by
  cases event <;> dsimp only [EventSafe] <;> infer_instance

theorem foldl_redoRecord (records : List DecodedRecord) (stats : RecoveryStats) :
    (records.foldl (redoRecord registered) (stats, calls)).2 =
      calls ++ (records.filter (registered ·.record.xlRmid)).map redoCall := by
  induction records generalizing stats calls with
  | nil => simp
  | cons decoded _ ih =>
    by_cases known : registered decoded.record.xlRmid = true <;> simp [redoRecord, known, ih]

variable {records : List InsertCall}

/-- The file of completed records, each with some back link. -/
inductive Framed : List InsertCall → List UInt8 → Prop where
  | nil : Framed [] []
  | snoc {records : List InsertCall} {bytes : List UInt8}
      (framed : Framed records bytes) {record : InsertCall}
      (readable : record.Readable) (prevRecordLsn : Nat) :
      Framed (records ++ [record]) (bytes ++ record.bytes prevRecordLsn)

theorem Framed.frameChain {bytes : List UInt8}
    (framed : Framed records bytes) (before tail : List UInt8) :
    ∃ decoded, decoded.map content = records.map InsertCall.content ∧
      FrameChain (xlogReadRecord (before ++ (bytes ++ tail)))
        before.length decoded (before.length + bytes.length) := by
  induction framed generalizing tail with
  | nil => exact ⟨[], rfl, .nil _⟩
  | @snoc records bytes framed record readable prevRecordLsn ih =>
    obtain ⟨decoded, same, chain⟩ := ih (record.bytes prevRecordLsn ++ tail)
    have stands : (before ++ (bytes ++ (record.bytes prevRecordLsn ++
        tail))).drop (before.length + bytes.length) = record.bytes prevRecordLsn ++ tail := by
      rw [← append_assoc, drop_left' length_append]
    obtain ⟨last, sameLast, read⟩ := xlogReadRecord_of_readable stands readable
    refine ⟨decoded ++ [last], ?_, ?_⟩
    · rw [map_append, map_append, same, map_singleton, map_singleton, sameLast]
    · rw [append_assoc, length_append, ← add_assoc]
      exact chain.append (.cons read (.nil _))

/-- What a crash leaves of a record. -/
def Torn (tail : List UInt8) : Prop :=
  tail = [] ∨ ∃ record : InsertCall, ∃ prevRecordLsn written,
    tail = (record.bytes prevRecordLsn).take written ∧
    written < (record.bytes prevRecordLsn).length ∧
    kSizeofXlogRecord + record.assembly.payload.length < 2 ^ 32

theorem Torn.stop {tail buffer : List UInt8} (torn : Torn tail) (stands : buffer.drop lsn = tail) :
    xlogReadRecord buffer lsn = .stop (if tail = [] then .endOfWal else .truncated) := by
  have front : xlogReadRaw buffer lsn kSizeofXlogRecord = tail.take kSizeofXlogRecord := by
    rw [xlogReadRaw, stands]
  by_cases empty : tail = []
  · rw [xlogReadRecord, front, empty, if_pos take_nil, if_pos rfl]
  have notEmpty : tail.take kSizeofXlogRecord ≠ [] := by simp [kSizeofXlogRecord, empty]
  obtain ⟨record, prevRecordLsn, written, isTail, _, length⟩ := torn.resolve_left empty
  have cut : readAndDecodeRecord buffer lsn = .error .truncated := by
    have tailLength : tail.length = written := by
      rw [isTail, length_take]
      omega
    simp only [readAndDecodeRecord, front]
    by_cases short : written < kSizeofXlogRecord
    · rw [if_pos]
      rw [length_take]
      omega
    -- the header is complete and tells how much is missing
    have header : tail.take kSizeofXlogRecord = (record.header prevRecordLsn).bytes := by
      rw [isTail, take_take, min_eq_left (Nat.le_of_not_lt short),
        InsertCall.bytes, take_left' (length_bytes _)]
    have size : (record.bytes prevRecordLsn).length =
        kSizeofXlogRecord + record.assembly.payload.length := by
      rw [InsertCall.bytes, length_append, length_bytes]
    have totLen : (record.header prevRecordLsn).xlTotLen.toNat =
        (record.bytes prevRecordLsn).length := by
      rw [InsertCall.header_totLen, Nat.mod_eq_of_lt (by omega)]
    have missing : (xlogReadRaw buffer (lsn + kSizeofXlogRecord)
        ((record.bytes prevRecordLsn).length - kSizeofXlogRecord)).length <
        (record.bytes prevRecordLsn).length - kSizeofXlogRecord := by
      rw [xlogReadRaw, ← drop_drop, stands, length_take, length_drop, tailLength]
      omega
    rw [header, ofBytes_bytes, length_bytes, totLen, if_neg (by omega), if_pos missing]
  rw [xlogReadRecord, front, if_neg notEmpty, cut, if_neg empty]

/-- The file holds the completed records and possibly a part of one more. -/
structure ServerInvariant (server : WalServer) : Prop where
  file : ∃ bytes tail, server.file = bytes ++ tail ∧ Framed server.completed bytes ∧ Torn tail
  loaded : ∀ wal, server.process = some wal → wal.buffer = (initializeWal server.file).buffer

theorem readWal_framed {bytes tail : List UInt8}
    (framed : Framed records bytes) (torn : Torn tail) :
    ∃ decoded, decoded.map content = records.map InsertCall.content ∧
      readWal (initializeWal (bytes ++ tail)).buffer kSizeofXlogRecord =
        (decoded, some (if tail = [] then .endOfWal else .truncated)) := by
  obtain ⟨decoded, same, chain⟩ := framed.frameChain (List.replicate kSizeofXlogRecord 0) tail
  refine ⟨decoded, same, ?_⟩
  have short := chain.length_le fun _ _ _ read => (xlogReadRecord_forward read).1
  have stands : (initializeWal (bytes ++ tail)).buffer.drop
      (kSizeofXlogRecord + bytes.length) = tail := by
    rw [initializeWal, ← append_assoc, drop_left' (by simp)]
  apply chain.scan_eq (torn.stop stands)
  simp only [initializeWal, length_append, length_replicate]
  omega

namespace ServerInvariant

variable {server : WalServer} (invariant : ServerInvariant server)

include invariant

theorem recovers : server.Recovers := by
  intro registered
  obtain ⟨_, _, isFile, framed, torn⟩ := invariant.file
  obtain ⟨_, same, read⟩ := readWal_framed framed torn
  rw [performCrashRecovery, performCrashRecoveryFrom, isFile, read, foldl_redoRecord, nil_append,
    map_map, WalServer.toReplay]
  have redone := congrArg (fun contents => (contents.filter (registered ·.rmid)).map
    WalContent.redo) same
  rw [filter_map, map_map, filter_map, map_map] at redone
  exact redone

theorem framed_of_endsClean (running : server.process = some wal)
    (clean : EndsClean wal) : Framed server.completed server.file := by
  obtain ⟨_, tail, isFile, framed, torn⟩ := invariant.file
  obtain ⟨_, _, read⟩ := readWal_framed framed torn
  unfold EndsClean at clean
  rw [invariant.loaded wal running, isFile, read] at clean
  have empty : tail = [] := by
    by_contra notEmpty
    simp [notEmpty] at clean
  rw [isFile, empty, append_nil]
  exact framed

theorem step {event : ServerEvent} {after : WalServer}
    (safe : EventSafe server event) (taken : server.step event = some after) :
    ServerInvariant after := by
  cases event with
  | insert record =>
    cases running : server.process with
    | none => simp [WalServer.step, running] at taken
    | some wal =>
      simp only [WalServer.step, running] at taken
      cases taken
      have framed := invariant.framed_of_endsClean running (safe.2 wal running)
      refine ⟨⟨_, [], (append_nil _).symm, framed.snoc safe.1 wal.prevRecordLsn, .inl rfl⟩, ?_⟩
      intro later isLater
      cases isLater
      rw [Wal.insert_buffer, invariant.loaded wal running]
      exact append_assoc ..
  | crash record written =>
    cases running : server.process with
    | none => simp [WalServer.step, running] at taken
    | some wal =>
      simp only [WalServer.step, running, Option.ite_none_right_eq_some, Option.some.injEq] at taken
      obtain ⟨inside, rfl⟩ := taken
      refine ⟨?_, fun later isLater => absurd isLater (by simp)⟩
      by_cases nothing : written = 0
      · subst nothing
        rw [take_zero, append_nil]
        exact invariant.file
      obtain ⟨length, clean⟩ := safe nothing
      have framed := invariant.framed_of_endsClean running (clean wal running)
      exact ⟨server.file, _, rfl, framed, .inr ⟨record,
        wal.prevRecordLsn, written, rfl, inside, length⟩⟩
  | restart =>
    cases running : server.process with
    | some wal => simp [WalServer.step, running] at taken
    | none =>
      simp only [WalServer.step, running] at taken
      cases taken
      refine ⟨invariant.file, ?_⟩
      intro wal isWal
      rw [← Option.some.inj isWal]

end ServerInvariant

def ServerRun : Prop :=
  Reaches WalServer.step EventSafe WalServer.initial server

/-- In every state of a run a recovery replays all completed records. -/
theorem serverRun_recovers {server : WalServer} (run : ServerRun server) : server.Recovers := by
  apply ServerInvariant.recovers
  apply Reaches.invariant run ServerInvariant
  · intro _ _ _ invariant safe taken
    exact invariant.step safe taken
  refine ⟨⟨[], [], rfl, .nil, .inl rfl⟩, ?_⟩
  intro _ isWal
  rw [← Option.some.inj isWal]
  rfl

def sampleRecord : InsertCall := { calls := [.data [1]], xid := 3, rmid := 8, info := 0 }

/-- A record that was completed behind a torn one is not replayed. -/
theorem insertBehindTornRecord_lost : ∃ server, runActions WalServer.step WalServer.initial
        [.crash sampleRecord 10, .restart, .insert sampleRecord,
          .crash sampleRecord 0, .restart] = some server ∧ ¬ server.Recovers := by
  refine ⟨_, rfl, ?_⟩
  intro recovers
  have replayed := recovers fun _ => true
  revert replayed
  decide +kernel

/-- Two completed records and a crash inside the third. -/
def crashInThirdRecord : List ServerEvent :=
  [.insert sampleRecord, .insert sampleRecord, .crash sampleRecord 10, .restart]

theorem serverRun_recovers_crashInThirdRecord : ∃ server, ServerRun server ∧
      server.completed = [sampleRecord, sampleRecord] ∧
      server.file.length = 60 ∧ server.Recovers := by
  have allowed : AllAllowed WalServer.step EventSafe WalServer.initial
      crashInThirdRecord := by
    decide +kernel
  have run := Reaches.of_runActions allowed rfl
  exact ⟨_, run, rfl, by decide +kernel, serverRun_recovers run⟩

/-! ## The chain of `xl_prev` -/

/-- The WAL of the running process, and where its records start, the last one
first. -/
structure LinkedWal where
  wal : Wal
  starts : List Nat

inductive LinkedEvent where
  | insert (record : InsertCall)
  | restart

def recordAt (buffer : List UInt8) (lsn : Nat) : XLogRecord :=
  .ofBytes (xlogReadRaw buffer lsn kSizeofXlogRecord)

/-- `xl_prev` of every record is the start of the record before, and 0 in the
first record. -/
def PrevLinked (buffer : List UInt8) : List Nat → Prop
  | [] => True
  | lsn :: older => (recordAt buffer lsn).xlPrev = .ofNat 64 (older.headD 0) ∧
      PrevLinked buffer older

theorem PrevLinked.append (linked : PrevLinked buffer starts)
    (inside : ∀ lsn ∈ starts, lsn + kSizeofXlogRecord ≤ buffer.length) (more : List UInt8) :
    PrevLinked (buffer ++ more) starts := by
  induction starts with
  | nil => trivial
  | cons lsn _ ih =>
    obtain ⟨here, earlier⟩ := linked
    have room := inside lsn mem_cons_self
    refine ⟨?_, ih earlier fun other mem => inside other (mem_cons_of_mem _ mem)⟩
    rw [← here, recordAt, recordAt, xlogReadRaw, xlogReadRaw,
      drop_append_of_le_length (by omega), take_append_of_le_length]
    rw [length_drop]
    omega

namespace LinkedWal

def initial : LinkedWal := { wal := initializeWal [], starts := [] }

def step (state : LinkedWal) : LinkedEvent → Option LinkedWal
  | .insert record => some
      { wal := state.wal.insert record, starts := state.wal.buffer.length :: state.starts }
  | .restart => some { state with wal := initializeWal (state.wal.buffer.drop kSizeofXlogRecord) }

/-- A process that has inserted no record does not insert into a WAL that holds
one. -/
def Safe (state : LinkedWal) : LinkedEvent → Prop
  | .insert _ => state.starts = [] ∨ state.wal.prevRecordLsn ≠ 0
  | .restart => True

structure Invariant (state : LinkedWal) : Prop where
  front : state.wal.buffer.take kSizeofXlogRecord = replicate kSizeofXlogRecord 0
  inside : ∀ lsn ∈ state.starts, lsn + kSizeofXlogRecord ≤ state.wal.buffer.length
  prev : state.wal.prevRecordLsn = 0 ∨ state.wal.prevRecordLsn = state.starts.headD 0
  linked : PrevLinked state.wal.buffer state.starts

theorem Invariant.step {state after : LinkedWal} (invariant : state.Invariant)
    (safe : state.Safe event) (taken : state.step event = some after) : after.Invariant := by
  obtain ⟨front, inside, prev, linked⟩ := invariant
  obtain ⟨wal, starts⟩ := state
  cases event with
  | insert record =>
    cases taken
    rw [wal.insert_eq]
    have stands : (wal.buffer ++ record.bytes wal.prevRecordLsn).drop wal.buffer.length =
        record.bytes wal.prevRecordLsn ++ [] := by
      rw [drop_left, append_nil]
    have size : kSizeofXlogRecord ≤ (record.bytes wal.prevRecordLsn).length := by
      rw [InsertCall.bytes, length_append]
      exact Nat.le_add_right ..
    have last : wal.prevRecordLsn = starts.headD 0 := by
      rcases safe with rfl | own
      · exact prev.elim id id
      · exact prev.resolve_left own
    have long : kSizeofXlogRecord ≤ wal.buffer.length := by
      simpa using congrArg length front
    refine ⟨?_, ?_, .inr rfl, ?_, linked.append inside _⟩
    · exact (take_append_of_le_length long).trans front
    · intro lsn mem
      rw [length_append]
      rcases mem_cons.1 mem with rfl | older
      · exact Nat.add_le_add_left size _
      · exact (inside lsn older).trans (Nat.le_add_right ..)
    · rw [recordAt, header_there stands, ofBytes_bytes, ← last]
      rfl
  | restart =>
    cases taken
    have same : (initializeWal (wal.buffer.drop kSizeofXlogRecord)).buffer = wal.buffer := by
      rw [initializeWal, ← front, take_append_drop]
    exact ⟨same ▸ front, same ▸ inside, .inl rfl, same ▸ linked⟩

/-- In every run that does not insert behind the records of an earlier process
first, the records are linked. -/
theorem prevChain_intact {state : LinkedWal} (run : Reaches step Safe initial state) :
    PrevLinked state.wal.buffer state.starts := by
  have invariant : state.Invariant := by
    apply run.invariant Invariant
    · intro _ _ _ holds safe taken
      exact holds.step safe taken
    · exact ⟨rfl, fun _ _ => by contradiction, .inl rfl, trivial⟩
  exact invariant.linked

theorem prevChain_intact_two : ∃ state, Reaches step Safe initial state ∧
    state.starts.length = 2 ∧ PrevLinked state.wal.buffer state.starts := by
  have run : Reaches step Safe initial _ := .tail (.tail (.tail .refl
    ⟨.insert sampleRecord, .inl rfl, rfl⟩) ⟨.insert sampleRecord, .inr nofun, rfl⟩)
    ⟨.restart, trivial, rfl⟩
  exact ⟨_, run, rfl, prevChain_intact run⟩

/-- The first record behind a restart has no link. -/
theorem prevChain_broken_by_restart : ∃ state, runActions step initial
      [.insert sampleRecord, .restart, .insert sampleRecord] = some state ∧
    ¬PrevLinked state.wal.buffer state.starts := by
  refine ⟨_, rfl, ?_⟩
  rintro ⟨broken, _⟩
  revert broken
  decide

end LinkedWal

end Pgcpp.Transaction
