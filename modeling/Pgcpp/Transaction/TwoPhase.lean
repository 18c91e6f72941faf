import Pgcpp.Lib.TextLines
import Pgcpp.Transaction.Transam

/-!
# Prepared transactions

The state of a prepared transaction is kept in a list and in a file of
`pg_twophase`, one `key=value` a line.  After a restart the list is read from
the files.
-/

namespace Pgcpp.Transaction

open Lib
open List hiding all count

inductive IsolationLevel where
  | readUncommitted
  | readCommitted
  | repeatableRead
  | serializable
  deriving DecidableEq

def isolationLevelName : IsolationLevel → Text
  | .readUncommitted => "read uncommitted".toList
  | .readCommitted => "read committed".toList
  | .repeatableRead => "repeatable read".toList
  | .serializable => "serializable".toList

def parseIsolationLevelName (name : Text) : IsolationLevel :=
  if name = "serializable".toList then .serializable
  else if name = "repeatable read".toList then .repeatableRead
  else if name = "read uncommitted".toList then .readUncommitted
  else .readCommitted

theorem parseIsolationLevelName_name :
    parseIsolationLevelName (isolationLevelName level) = level := by
  cases level <;> decide

/-- `TwoPhaseState`, the record of a prepared transaction. -/
structure TwoPhaseRecord where
  gid : Text := []
  xid : TransactionId := kInvalidTransactionId
  isolationLevel : IsolationLevel := .readCommitted
  readOnly : Bool := false
  deferrable : Bool := false
  deriving DecidableEq

def hexDigit (digit : Nat) : Char := "0123456789ABCDEF".toList.getD digit '0'

/-- The last `count` hexadecimal digits of a number. -/
def hexDigits : Nat → Nat → Text
  | 0, _ => []
  | count + 1, number => hexDigits count (number / 16) ++ [hexDigit (number % 16)]

def formatXidHex (xid : TransactionId) : Text := hexDigits 16 xid.toNat

def stateLine (key : String) (value : Text) : Text := key.toList ++ '=' :: value

def flagText (flag : Bool) : Text := if flag then ['1'] else ['0']

def stateFile (state : TwoPhaseRecord) : Text :=
  stateLine "gid" state.gid ++ '\n' ::
  (stateLine "xid" (Nat.toDigits 10 state.xid.toNat) ++ '\n' ::
  (stateLine "isolation" (isolationLevelName state.isolationLevel) ++ '\n' ::
  (stateLine "read_only" (flagText state.readOnly) ++ '\n' ::
  (stateLine "deferrable" (flagText state.deferrable) ++ '\n' :: []))))

def parseLine (state : TwoPhaseRecord) (line : Text) : TwoPhaseRecord :=
  match keyValue line with
  | none => state
  | some (key, val) =>
    if key = "gid".toList then { state with gid := val }
    else if key = "xid".toList then { state with xid := BitVec.ofNat 32 (strtoul val) }
    else if key = "isolation".toList then
      { state with isolationLevel := parseIsolationLevelName val }
    else if key = "read_only".toList then { state with readOnly := val = ['1'] }
    else if key = "deferrable".toList then { state with deferrable := val = ['1'] }
    else state

/-- `ReadStateFile` into a new record. -/
def readStateFile (content : Text) : TwoPhaseRecord := (lines content).foldl parseLine {}

/-! ## The store -/

/-- The list in memory and the files of the directory, by name. -/
structure TwoPhaseStore where
  stateList : List TwoPhaseRecord
  files : List (Text × Text)
  deriving DecidableEq

/-- Creates the file or replaces what is in it. -/
def writeFile (files : List (Text × Text)) (name content : Text) : List (Text × Text) :=
  files.filter (fun file => file.1 ≠ name) ++ [(name, content)]

/-- The message is cut to the buffer it is printed to. -/
def duplicateGidMessage (gid : Text) : Text :=
  ("transaction identifier \"".toList ++ gid.takeWhile (· ≠ '\x00') ++
    "\" is already in use".toList).take 255

def saveTwoPhaseState (store : TwoPhaseStore) (state : TwoPhaseRecord) :
    Except Text TwoPhaseStore :=
  if store.stateList.any fun other => other.gid = state.gid then
    .error (duplicateGidMessage state.gid)
  else
    .ok
      { stateList := store.stateList ++ [state]
        files := writeFile store.files (formatXidHex state.xid) (stateFile state) }

/-- `LoadTwoPhaseFiles`, with the files in the order of the directory. -/
def loadTwoPhaseFiles (entries : List (Text × Text)) : List TwoPhaseRecord :=
  entries.filterMap fun entry =>
    let state := readStateFile entry.2
    if state.gid.isEmpty then none else some state

/-- The records are saved into an empty directory and, whatever the order in
which the directory lists its files, exactly they are loaded. -/
def SurvivesRestart (records : List TwoPhaseRecord) : Prop :=
  ∃ store, records.foldlM saveTwoPhaseState { stateList := [], files := [] } = .ok store ∧
      ∀ entries, entries.Perm store.files → (loadTwoPhaseFiles entries).Perm records

/-! ## Round trip -/

theorem stateLine_oneLine (plainKey : '\n' ∉ key.toList) (plain : '\n' ∉ value) :
    '\n' ∉ stateLine key value := by
  intro mem
  rcases mem_append.1 mem with inKey | inRest
  · exact plainKey inKey
  rcases mem_cons.1 inRest with isSign | inValue
  · cases isSign
  · exact plain inValue

theorem parseLine_stateLine (plain : '=' ∉ key.toList) : parseLine state (stateLine key value) =
      if key.toList = "gid".toList then { state with gid := value }
      else if key.toList = "xid".toList then { state with xid := BitVec.ofNat 32 (strtoul value) }
      else if key.toList = "isolation".toList then
        { state with isolationLevel := parseIsolationLevelName value }
      else if key.toList = "read_only".toList then { state with readOnly := value = ['1'] }
      else if key.toList = "deferrable".toList then { state with deferrable := value = ['1'] }
      else state := by
  rw [parseLine, stateLine, keyValue_append plain]

variable {state : TwoPhaseRecord}

theorem lines_stateFile (plain : '\n' ∉ state.gid) : lines (stateFile state) =
      [stateLine "gid" state.gid, stateLine "xid" (Nat.toDigits 10 state.xid.toNat),
        stateLine "isolation" (isolationLevelName state.isolationLevel),
        stateLine "read_only" (flagText state.readOnly),
        stateLine "deferrable" (flagText state.deferrable)] := by
  have digits : '\n' ∉ Nat.toDigits 10 state.xid.toNat := by
    intro mem
    exact absurd (Nat.isDigit_of_mem_toDigits (by decide) le_rfl mem) (by decide)
  have level : '\n' ∉ isolationLevelName state.isolationLevel := by
    cases state.isolationLevel <;> decide
  have flags (flag : Bool) : '\n' ∉ flagText flag := by cases flag <;> decide
  rw [stateFile, lines_append (stateLine_oneLine (by decide) plain),
    lines_append (stateLine_oneLine (by decide) digits),
    lines_append (stateLine_oneLine (by decide) level),
    lines_append (stateLine_oneLine (by decide) (flags _)),
    lines_append (stateLine_oneLine (by decide) (flags _)), lines]

theorem flagText_eq : decide (flagText flag = ['1']) = flag := by
  cases flag <;> decide

theorem readStateFile_stateFile (plain : '\n' ∉ state.gid) :
    readStateFile (stateFile state) = state := by
  have small : state.xid.toNat < 2 ^ 64 := state.xid.isLt.trans (by decide)
  rw [readStateFile, lines_stateFile plain]
  simp only [foldl_cons, foldl_nil]
  rw [parseLine_stateLine (by decide), parseLine_stateLine (by decide),
    parseLine_stateLine (by decide), parseLine_stateLine (by decide),
    parseLine_stateLine (by decide)]
  simp [strtoul_toDigits small, parseIsolationLevelName_name, flagText_eq]

theorem newline_not_mem_gid : '\n' ∉ (readStateFile content).gid := by
  have kept (start : TwoPhaseRecord) (plain : '\n' ∉ start.gid)
      (read : List Text) (each : ∀ line ∈ read, '\n' ∉ line) :
      '\n' ∉ (read.foldl parseLine start).gid := by
    induction read generalizing start with
    | nil => exact plain
    | cons line _ ih =>
      apply ih
      · rw [parseLine]
        cases cut : keyValue line with
        | none => exact plain
        | some _ =>
          have oneLine := each line mem_cons_self
          dsimp only
          split_ifs
          · exact fun mem => oneLine (mem_of_keyValue cut mem)
          all_goals exact plain
      · exact fun later mem => each later (mem_cons_of_mem line mem)
  apply kept {} not_mem_nil
  exact fun line => not_mem_of_mem_lines

theorem gid_of_mem_load (mem : state ∈ loadTwoPhaseFiles entries) :
    state.gid ≠ [] ∧ '\n' ∉ state.gid := by
  obtain ⟨entry, -, loaded⟩ := mem_filterMap.1 mem
  obtain ⟨named, isState⟩ := Option.ite_none_left_eq_some.1 loaded
  cases isState
  exact ⟨fun empty => named (List.isEmpty_iff.2 empty), newline_not_mem_gid⟩

/-! ## Names of files -/

theorem hexDigit_injective (leftSmall : left < 16) (rightSmall : right < 16)
    (same : hexDigit left = hexDigit right) : left = right := by
  have all : ∀ left right : Fin 16, hexDigit left = hexDigit right → left = right := by decide
  exact congrArg Fin.val (all ⟨left, leftSmall⟩ ⟨right, rightSmall⟩ same)

theorem hexDigits_injective (leftSmall : left < 16 ^ count) (rightSmall : right < 16 ^ count)
    (same : hexDigits count left = hexDigits count right) : left = right := by
  induction count generalizing left right with
  | zero => omega
  | succ count ih =>
    obtain ⟨front, last⟩ := append_inj' same rfl
    have digit := hexDigit_injective (Nat.mod_lt _ (by decide))
      (Nat.mod_lt _ (by decide)) (List.cons.inj last).1
    have rest := ih (Nat.div_lt_of_lt_mul (by omega)) (Nat.div_lt_of_lt_mul (by omega)) front
    omega

theorem formatXidHex_injective : Function.Injective formatXidHex := by
  intro left right same
  apply BitVec.eq_of_toNat_eq
  exact hexDigits_injective (left.isLt.trans (by decide)) (right.isLt.trans (by decide)) same

def fileOf (state : TwoPhaseRecord) : Text × Text := (formatXidHex state.xid, stateFile state)

theorem saveTwoPhaseState_of_fresh (newGid : ∀ other ∈ saved, other.gid ≠ state.gid)
    (newXid : ∀ other ∈ saved, other.xid ≠ state.xid) :
    saveTwoPhaseState { stateList := saved, files := saved.map fileOf } state =
      .ok { stateList := saved ++ [state], files := (saved ++ [state]).map fileOf } := by
  have notUsed : ¬(saved.any fun other => other.gid = state.gid) := by
    rw [any_eq_true]
    rintro ⟨other, mem, same⟩
    exact newGid other mem (of_decide_eq_true same)
  have others : (saved.map fileOf).filter
      (fun file => file.1 ≠ formatXidHex state.xid) = saved.map fileOf := by
    apply filter_eq_self.2
    intro file mem
    obtain ⟨other, isSaved, rfl⟩ := mem_map.1 mem
    apply decide_eq_true
    intro same
    exact newXid other isSaved (formatXidHex_injective same)
  rw [saveTwoPhaseState, if_neg notUsed, writeFile, others, map_append]
  rfl

theorem foldlM_save {saved records : List TwoPhaseRecord}
    (gids : ((saved ++ records).map TwoPhaseRecord.gid).Nodup)
    (xids : ((saved ++ records).map TwoPhaseRecord.xid).Nodup) :
    records.foldlM saveTwoPhaseState { stateList := saved, files := saved.map fileOf } =
      .ok { stateList := saved ++ records, files := (saved ++ records).map fileOf } := by
  induction records generalizing saved with
  | nil =>
    rw [append_nil]
    rfl
  | cons state rest ih =>
    have shifted := append_cons saved state rest
    have newGid : ∀ other ∈ saved, other.gid ≠ state.gid := by
      intro other mem same
      rw [map_append] at gids
      exact disjoint_of_nodup_append gids (mem_map_of_mem mem) (same ▸ mem_cons_self)
    have newXid : ∀ other ∈ saved, other.xid ≠ state.xid := by
      intro other mem same
      rw [map_append] at xids
      exact disjoint_of_nodup_append xids (mem_map_of_mem mem) (same ▸ mem_cons_self)
    rw [foldlM_cons, saveTwoPhaseState_of_fresh newGid newXid]
    rw [shifted] at gids xids ⊢
    exact ih gids xids

theorem load_files (readable : ∀ state ∈ records, state.gid ≠ [] ∧ '\n' ∉ state.gid) :
    loadTwoPhaseFiles (records.map fileOf) = records := by
  rw [loadTwoPhaseFiles, filterMap_map]
  apply (filterMap_congr _).trans filterMap_some
  intro state mem
  obtain ⟨named, plain⟩ := readable state mem
  have readBack := readStateFile_stateFile plain
  simp [fileOf, readBack, named]

/-- Prepared transactions with distinct identifiers and XIDs survive a restart
exactly if no identifier is empty and none has a line break. -/
theorem survivesRestart_iff (records : List TwoPhaseRecord)
    (gids : (records.map TwoPhaseRecord.gid).Nodup)
    (xids : (records.map TwoPhaseRecord.xid).Nodup) :
    SurvivesRestart records ↔ ∀ state ∈ records, state.gid ≠ [] ∧ '\n' ∉ state.gid := by
  have saved : records.foldlM saveTwoPhaseState
      { stateList := [], files := [] } =
        .ok { stateList := records, files := records.map fileOf } :=
    @foldlM_save [] records gids xids
  constructor
  · rintro ⟨_, -, loaded⟩ state member
    exact gid_of_mem_load ((loaded _ (.refl _)).mem_iff.2 member)
  intro readable
  refine ⟨_, saved, ?_⟩
  intro entries order
  have loaded : (loadTwoPhaseFiles entries).Perm
      (loadTwoPhaseFiles (records.map fileOf)) := order.filterMap _
  rwa [load_files readable] at loaded

/-- Two records, one of which has an equals sign in its identifier. -/
def twoPrepared : List TwoPhaseRecord :=
  [{ gid := "order=7".toList, xid := 700#32, isolationLevel := .serializable
     readOnly := true }, { gid := "b".toList, xid := 4000000000#32, deferrable := true }]

theorem twoPrepared_survivesRestart :
    SurvivesRestart twoPrepared ↔ ∀ state ∈ twoPrepared, state.gid ≠ [] ∧ '\n' ∉ state.gid :=
  survivesRestart_iff twoPrepared (by decide) (by decide)

/-- Of an identifier with a line break the first line is left, and a record with
an empty identifier is not loaded at all. -/
theorem not_survivesRestart_of_gid : (∃ store, saveTwoPhaseState { stateList := [], files := [] }
          { gid := "a\nb".toList, xid := 700#32 } = .ok store ∧
        loadTwoPhaseFiles store.files = [{ gid := "a".toList, xid := 700#32 }]) ∧
    (∃ store, saveTwoPhaseState { stateList := [], files := [] }
          { gid := [], xid := 700#32 } = .ok store ∧ loadTwoPhaseFiles store.files = []) ∧
    ¬SurvivesRestart [{ gid := "a\nb".toList, xid := 700#32 }] ∧
      ¬SurvivesRestart [{ gid := [], xid := 700#32 }] := by
  refine ⟨⟨_, rfl, by decide⟩, ⟨_, rfl, by decide⟩, ?_, ?_⟩
  · rintro ⟨store, -, loaded⟩
    have restored := (loaded _ (.refl _)).mem_iff.2 mem_cons_self
    exact (gid_of_mem_load restored).2 (by decide)
  · rintro ⟨store, -, loaded⟩
    have restored := (loaded _ (.refl _)).mem_iff.2 mem_cons_self
    exact (gid_of_mem_load restored).1 rfl

end Pgcpp.Transaction
