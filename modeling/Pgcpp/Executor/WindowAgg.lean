import Mathlib.Data.List.Sublists
import Pgcpp.Executor.IntArith
import Pgcpp.Executor.MergeJoin

/-!
# Window aggregates

The WindowAgg node buffers the rows of its child.  Without ORDER BY it folds a
whole partition when it comes to the first row of it, and otherwise each row
when it returns the row.
-/

namespace Pgcpp.Executor

open List

abbrev Datum := BitVec 64

inductive WindowAggKind where
  | count
  | sum
  | min
  | max

/-- An aggregate over an integer expression, which COUNT(*) does not have. -/
structure WindowAggInfo (natts : Nat) where
  kind : WindowAggKind
  argtype : IntType
  arg : Option (ScanSlot Datum natts → Option Datum)

/-- The part of `wa_running` for one aggregate. -/
structure RunningAgg where
  count : Nat := 0
  sumInt : Datum := 0
  minVal : Datum := 0
  maxVal : Datum := 0
  minmaxInit : Bool := false
  minmaxNull : Bool := true

structure WindowAgg (natts n : Nat) where
  partColIdx : List Nat
  ordColIdx : List Nat
  atttypid : Nat → IntType
  infos : Fin n → WindowAggInfo natts

/-- The accumulators, and the key of the current partition. -/
structure WindowPart (n : Nat) where
  running : Fin n → RunningAgg := fun _ => {}
  hasLastPart : Bool := false
  lastPart : List (Option Datum)

/-- The node; `child` has the rows that the child will return. -/
structure WindowAggState (natts n : Nat) where
  child : List (ScanSlot Datum natts)
  tuples : List (ScanSlot Datum natts) := []
  drained : Bool := false
  outputIndex : Nat := 0
  part : WindowPart n

/-- What the target list is evaluated on. -/
abbrev WindowOutput (natts n : Nat) := ScanSlot Datum natts × (Fin n → Option Datum)

variable {natts n : Nat}

namespace WindowAggInfo

variable (info : WindowAggInfo natts) (running : RunningAgg) (row : ScanSlot Datum natts)
  (rows : List (ScanSlot Datum natts))

def argument : Option Datum :=
  match info.arg with
  | some arg => arg row
  | none => some 0

def advance (val : Datum) : RunningAgg :=
  let counted := { running with count := running.count + 1 }
  let value := info.argtype.value
  match info.kind with
  | .count => counted
  | .sum => { counted with sumInt := running.sumInt + .ofInt 64 (value val) }
  | .min =>
    if ¬running.minmaxInit ∨ value val < value running.minVal then
      { counted with minVal := val, minmaxInit := true, minmaxNull := false }
    else counted
  | .max =>
    if ¬running.minmaxInit ∨ value val > value running.maxVal then
      { counted with maxVal := val, minmaxInit := true, minmaxNull := false }
    else counted

def accumulate : RunningAgg :=
  match info.argument row with
  | some val => info.advance running val
  | none => running

def stored : Option Datum :=
  match info.kind with
  | .count => some (.ofNat 64 running.count)
  | .sum => if running.count = 0 then none else some running.sumInt
  | .min => if running.minmaxNull then none else some running.minVal
  | .max => if running.minmaxNull then none else some running.maxVal

/-- One argument for MIN or MAX. -/
def better (take : Int → Int → Bool) : Option Datum → Datum → Option Datum
  | none, val => some val
  | some best, val =>
    if take (info.argtype.value val) (info.argtype.value best) then some val else some best

/-- The aggregate of the rows whose argument is not NULL. -/
def reference : Option Datum :=
  let args := rows.filterMap info.argument
  match info.kind with
  | .count => some (.ofNat 64 args.length)
  | .sum => if args = [] then none else some (.ofInt 64 (args.map info.argtype.value).sum)
  | .min => args.foldl (info.better (· < ·)) none
  | .max => args.foldl (info.better (· > ·)) none

theorem foldl_accumulate : rows.foldl info.accumulate running =
    (rows.filterMap info.argument).foldl info.advance running := by
  rw [foldl_filterMap]
  congr
  funext running row
  rw [accumulate]
  cases info.argument row <;> rfl

/-- `wa_running` after the arguments `args`. -/
theorem foldl_advance (args : List Datum) : let folded := args.foldl info.advance {}
    folded.count = args.length ∧ folded.minmaxNull = !folded.minmaxInit ∧
      match info.kind with
      | .count => True
      | .sum => folded.sumInt = .ofInt 64 (args.map info.argtype.value).sum
      | .min => args.foldl (info.better (· < ·)) none =
          if folded.minmaxNull then none else some folded.minVal
      | .max => args.foldl (info.better (· > ·)) none =
          if folded.minmaxNull then none else some folded.maxVal := by
  induction args using List.reverseRecOn with
  | nil => cases info.kind <;> simp
  | append_singleton args val ih =>
    rw [foldl_append, foldl_cons]
    generalize args.foldl info.advance {} = folded at ih
    obtain ⟨counted, null, held⟩ := ih
    cases kind : info.kind with
    | count => simp [advance, kind, counted, null]
    | sum => simp_all [advance, BitVec.ofInt_add]
    | _ =>
      simp only [kind, null] at held
      simp only [foldl_append, held]
      cases init : folded.minmaxInit with
      | false => simp [advance, better, kind, init, counted]
      | true =>
        simp only [advance, kind]
        split <;> simp_all [better]

theorem stored_foldl : info.stored (rows.foldl info.accumulate {}) = info.reference rows := by
  rw [foldl_accumulate, stored, reference]
  obtain ⟨counted, -, held⟩ := info.foldl_advance (rows.filterMap info.argument)
  cases kind : info.kind with
  | count => rw [counted]
  | sum =>
    rw [kind] at held
    simp only [counted, held, length_eq_zero_iff]
  | _ =>
    rw [kind] at held
    exact held.symm

end WindowAggInfo

namespace WindowAgg

variable (agg : WindowAgg natts n) (state : WindowAggState natts n) (part : WindowPart n)
  (running : Fin n → RunningAgg) (outputIndex : Nat) (row : ScanSlot Datum natts)
  (before rows : List (ScanSlot Datum natts))

def fullPartition : Bool :=
  agg.ordColIdx.isEmpty

def accumulateRow : Fin n → RunningAgg :=
  fun i => (agg.infos i).accumulate (running i) row

def samePartition : Bool :=
  part.hasLastPart && (agg.partColIdx.zip part.lastPart).all fun (attno, last) =>
    let value := (agg.atttypid attno).value
    compareDatumValues (fun l r => compare (value l) (value r)) (getSlotAttr row attno) last == .eq

def storeAggregates : Fin n → Option Datum :=
  fun i => (agg.infos i).stored (running i)

/-- The row of the call is the one before `outputIndex`. -/
def accumulateFullPartition : Fin n → RunningAgg :=
  if outputIndex = 0 then part.running
  else match rows.drop (outputIndex - 1) with
    | [] => part.running
    | row :: rows =>
      (row :: rows.takeWhile (agg.samePartition part)).foldl agg.accumulateRow part.running

/-- What `ExecProcNode` does for a row before it stores the aggregates; `rows`
are the buffered rows. -/
def enterRow : WindowPart n :=
  let part :=
    if agg.samePartition part row then part
    else
      let part := { hasLastPart := true, lastPart := groupKey agg.partColIdx row }
      if agg.fullPartition then
        { part with running := agg.accumulateFullPartition part outputIndex rows }
      else part
  if agg.fullPartition then part
  else { part with running := agg.accumulateRow part.running row }

def drainChild (state : WindowAggState natts n) : WindowAggState natts n :=
  if state.drained then state
  else { state with
    child := [], tuples := state.tuples ++ state.child, drained := true, outputIndex := 0 }

def execProcNode : Option (WindowOutput natts n) × WindowAggState natts n :=
  let state := drainChild state
  match state.tuples[state.outputIndex]? with
  | none => (none, state)
  | some row =>
    let outputIndex := state.outputIndex + 1
    let part := agg.enterRow state.part outputIndex row state.tuples
    (some (row, agg.storeAggregates part.running), { state with outputIndex, part })

def execInit : WindowAggState natts n where
  child := rows
  part := { lastPart := agg.partColIdx.map fun _ => none }

/-- The child returns `rows` in the new scan. -/
def execReScan : WindowAggState natts n where
  child := rows
  part := { lastPart := state.part.lastPart }

def drain : Nat → WindowAggState natts n → Option (List (WindowOutput natts n))
  | 0, _ => none
  | fuel + 1, state =>
    match agg.execProcNode state with
    | (none, _) => some []
    | (some row, next) => (drain fuel next).map (row :: ·)

def key : List (Option Int) :=
  agg.partColIdx.map fun attno => (getSlotAttr row attno).map (agg.atttypid attno).value

/-- Rows with equal partition keys are next to each other. -/
def Contiguous : Prop :=
  ∀ first middle last, [first, middle, last] <+ rows → agg.key first = agg.key last →
    agg.key middle = agg.key first

/-- The frame of a row: `before` ends with it and `rows` are those after it. -/
def frame : List (ScanSlot Datum natts) :=
  (if agg.fullPartition then before ++ rows else before).filter (agg.key · = agg.key row)

/-- The rows with the aggregates over their frames. -/
def reference (before : List (ScanSlot Datum natts)) :
    List (ScanSlot Datum natts) → List (WindowOutput natts n)
  | [] => []
  | row :: rows =>
    (row, fun i => (agg.infos i).reference (agg.frame row (before ++ [row]) rows)) ::
      reference (before ++ [row]) rows

theorem foldl_accumulateRow :
    rows.foldl agg.accumulateRow running i = rows.foldl (agg.infos i).accumulate (running i) := by
  induction rows generalizing running with
  | nil => rfl
  | cons row rows ih => exact ih (agg.accumulateRow running row)

theorem compareDatumValues_eq (type : IntType) :
    compareDatumValues (fun l r => compare (type.value l) (type.value r)) left right = .eq ↔
      left.map type.value = right.map type.value := by
  cases left <;> cases right <;> simp [compareDatumValues]

theorem samePartition_started : agg.samePartition ⟨running, true, groupKey agg.partColIdx first⟩ =
      fun row => decide (agg.key row = agg.key first) := by
  funext row
  rw [Bool.eq_iff_iff, samePartition, groupKey, key, key]
  induction agg.partColIdx <;> simp_all [compareDatumValues_eq]

theorem takeWhile_key (contiguous : agg.Contiguous (row :: rows)) :
    rows.takeWhile (agg.key · = agg.key row) = rows.filter (agg.key · = agg.key row) := by
  induction rows with
  | nil => rfl
  | cons middle rows ih =>
    have shorter : agg.Contiguous (row :: rows) := fun first middle last within =>
      contiguous first middle last (within.trans (by simp))
    by_cases same : agg.key middle = agg.key row
    · simp [same, ih shorter]
    · simp only [takeWhile_cons, filter_cons, same]
      refine (filter_eq_nil_iff.2 fun last isRow later => same ?_).symm
      have within : [row, middle, last] <+ row :: middle :: rows := by simpa
      exact contiguous row middle last within (of_decide_eq_true later).symm

theorem filter_before (contiguous : agg.Contiguous (before ++ row :: rows))
    (new : ¬∃ last ∈ before.getLast?, agg.key row = agg.key last) :
    before.filter (agg.key · = agg.key row) = [] := by
  induction before using List.reverseRecOn with
  | nil => rfl
  | append_singleton before last _ =>
    have other : agg.key last ≠ agg.key row := by simpa [eq_comm] using new
    refine filter_eq_nil_iff.2 fun first isRow earlier => other ?_
    have earlier : agg.key first = agg.key row := of_decide_eq_true earlier
    rcases mem_append.1 isRow with inside | isLast
    · have within : [first] ++ [last] ++ [row] <+ before ++ [last] ++ row :: rows :=
        ((singleton_sublist.2 inside).append_right _).append (by simp)
      exact (contiguous first last row within earlier).trans earlier
    · rwa [← mem_singleton.1 isLast]

/-- The accumulators when the rows `before` have been returned. -/
structure Follows : Prop where
  same : ∀ row, agg.samePartition part row ↔ ∃ last ∈ before.getLast?, agg.key row = agg.key last
  running : ∀ last ∈ before.getLast?,
    part.running = (agg.frame last before rows).foldl agg.accumulateRow fun _ => {}

variable {agg part before row rows}

theorem Follows.concat (same : ∀ other, agg.samePartition part other ↔ agg.key other = agg.key row)
    (running : part.running =
      (agg.frame row (before ++ [row]) rows).foldl agg.accumulateRow fun _ => {}) :
    agg.Follows part (before ++ [row]) rows :=
  ⟨by simpa, by simpa⟩

theorem Follows.enterRow (follows : agg.Follows part before (row :: rows))
    (contiguous : agg.Contiguous (before ++ row :: rows)) :
    agg.Follows (agg.enterRow part (before.length + 1) row (before ++ row :: rows))
      (before ++ [row]) rows := by
  by_cases same : agg.samePartition part row
  · obtain ⟨last, isLast, equal⟩ := (follows.same row).1 same
    have running := follows.running last isLast
    have unchanged : ∀ other, agg.samePartition part other ↔ agg.key other = agg.key row := by
      intro other
      rw [follows.same]
      simp_all
    cases full : agg.fullPartition <;> simp only [WindowAgg.enterRow, same, full]
    · exact .concat unchanged (by simp_all [frame])
    · exact .concat unchanged (by simp_all [frame])
  · have new := agg.filter_before row before rows contiguous ((follows.same row).not.1 same)
    have later := agg.takeWhile_key row rows fun first middle last within =>
      contiguous first middle last (within.trans (sublist_append_right ..))
    cases full : agg.fullPartition <;> simp only [WindowAgg.enterRow, same, full]
    · exact .concat (by simp [samePartition_started]) (by simp [frame, full, new])
    · refine .concat (by simp [samePartition_started]) ?_
      simp [accumulateFullPartition, samePartition_started, later, frame, full, new]

theorem drain_follows (follows : agg.Follows part before rows)
    (contiguous : agg.Contiguous (before ++ rows)) (enough : rows.length < fuel) :
    agg.drain fuel ⟨[], before ++ rows, true, before.length, part⟩ =
      some (agg.reference before rows) := by
  induction rows generalizing before part fuel with
  | nil =>
    obtain ⟨fuel, rfl⟩ := Nat.exists_eq_add_of_lt enough
    simp [drain, execProcNode, drainChild, reference]
  | cons row rows ih =>
    obtain _ | fuel := fuel
    · cases enough
    have entered := follows.enterRow contiguous
    have output : agg.storeAggregates
          (agg.enterRow part (before.length + 1) row (before ++ row :: rows)).running =
        fun i => (agg.infos i).reference (agg.frame row (before ++ [row]) rows) := by
      funext i
      rw [storeAggregates, entered.running row (by simp), foldl_accumulateRow,
        WindowAggInfo.stored_foldl]
    have rest := ih entered (by simpa) (Nat.lt_of_succ_lt_succ enough)
    simp_all [drain, execProcNode, drainChild, reference]

/-- The node returns each row once and in order, with the aggregates over its
frame, and does so again after a new scan from any state. -/
theorem drain_eq_reference (contiguous : agg.Contiguous rows) (enough : rows.length < fuel) :
    agg.drain fuel (agg.execInit rows) = some (agg.reference [] rows) ∧
      ∀ state, agg.drain fuel (execReScan state rows) = some (agg.reference [] rows) := by
  obtain _ | fuel := fuel
  · cases enough
  have first (part : WindowPart n) (fresh : part.hasLastPart = false) :
      agg.drain (fuel + 1) { child := rows, part } = some (agg.reference [] rows) := by
    have follows : agg.Follows part [] rows := ⟨by simp [samePartition, fresh], by simp⟩
    exact drain_follows follows contiguous enough
  exact ⟨first _ rfl, fun _ => first _ rfl⟩

/-- COUNT(*) over a partition of three rows and one of one row. -/
theorem drain_two_partitions :
    let agg : WindowAgg 1 1 := ⟨[1], [], fun _ => .int4, fun _ => ⟨.count, .int4, none⟩⟩
    let rows : List (ScanSlot Datum 1) := 
      [fun _ => some 1, fun _ => some 1, fun _ => some 1, fun _ => some 2]
    agg.drain 5 (agg.execInit rows) = some (agg.reference [] rows) := by
  intro agg rows
  have sorted : ∀ keys ∈ (rows.map agg.key).sublists,
      keys[0]? = keys[2]? → keys[1]? = keys[0]? := by
    decide
  have contiguous : agg.Contiguous rows := by
    intro _ _ _ within same
    exact Option.some_inj.1
      (sorted _ (List.mem_sublists.2 (within.map agg.key)) (congrArg some same))
  exact (drain_eq_reference contiguous (by decide)).1

end WindowAgg

end Pgcpp.Executor
