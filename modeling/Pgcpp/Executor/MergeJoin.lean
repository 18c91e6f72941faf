import Pgcpp.Executor.GroupBy

/-!
# Merge join

For each outer row the node scans the inner rows from the start, up to the
first one that agrees with it on the merge keys, and buffers that one only.
-/

namespace Pgcpp.Executor

open List

variable {V : Type} {m n : Nat}

/-- What `CompareDatumValues` reads from two datums. -/
inductive DatumReading where
  | int32
  | int64
  | float8
  | bool
  | text

/-- The `switch` of `CompareDatumValues`.  The values of other types, such as `int2`,
`float4` and `numeric`, are not looked at. -/
def datumReading (typid : Nat) : Option DatumReading :=
  match typid with
  | 23 | 1082 => some .int32
  | 20 | 1114 => some .int64
  | 708 => some .float8
  | 16 => some .bool
  | 25 | 1043 => some .text
  | _ => none

/-- The columns of rows: their types, and how the values read from them compare. -/
structure ColumnOrder (V : Type) (n : Nat) where
  typid : Fin n → Nat
  compare : DatumReading → V → V → Ordering

def ColumnOrder.compareValues (order : ColumnOrder V n) (column : Fin n) (left right : V) :
    Ordering :=
  (datumReading (order.typid column)).elim .eq (order.compare · left right)

/-- NULLs are equal to each other and sort before all values. -/
def compareDatumValues (compareValues : V → V → Ordering) : Option V → Option V → Ordering
  | none, none => .eq
  | none, some _ => .lt
  | some _, none => .gt
  | some left, some right => compareValues left right

/-- An INNER or LEFT join on its merge keys, pairs of an outer and an inner
column, which are compared as the outer column is. -/
structure MergeJoin (V : Type) (m n : Nat) where
  clauses : List (Fin m × Fin n)
  keyed : clauses ≠ []
  isLeft : Bool
  qual : ScanSlot V m → ScanSlot V n → Bool
  order : ColumnOrder V m

structure MergeJoinState (V : Type) (m n : Nat) where
  outerRows : List (ScanSlot V m)
  innerRows : List (ScanSlot V n)
  outerSlot : ScanSlot V m := fun _ => none
  buffer : List (ScanSlot V n) := []
  bufferIndex : Nat := 0
  needNewOuter : Bool := true
  needNewInner : Bool := true
  matchedOuter : Bool := false

namespace MergeJoin

variable (join : MergeJoin V m n)

def tuplesMatch (outer : ScanSlot V m) (inner : ScanSlot V n) : Bool :=
  join.clauses.all fun clause =>
    compareDatumValues (join.order.compareValues clause.1) (outer clause.1) (inner clause.2) == .eq

/-- The inner rows that are read and buffered, and those left to read. -/
def readInner (outer : ScanSlot V m) :
    List (ScanSlot V n) → List (ScanSlot V n) × List (ScanSlot V n)
  | [] => ([], [])
  | inner :: rest => if join.tuplesMatch outer inner then ([inner], rest) else readInner outer rest

def replay (state : MergeJoinState V m n) (inner : ScanSlot V n) :
    Option (ScanSlot V m × ScanSlot V n) × MergeJoinState V m n :=
  let state := { state with bufferIndex := state.bufferIndex + 1 }
  if join.qual state.outerSlot inner then
    (some (state.outerSlot, inner), { state with matchedOuter := true })
  else (none, state)

def finishOuter (state : MergeJoinState V m n) :
    Option (ScanSlot V m × ScanSlot V n) × MergeJoinState V m n :=
  (if join.isLeft && !state.matchedOuter then some (state.outerSlot, fun _ => none) else none,
    { state with needNewOuter := true })

/-- One pass of the loop of `ExecProcNode`: the row it returns, if any. -/
def execProcNode (inner : List (ScanSlot V n)) (state : MergeJoinState V m n) :
    Option (Option (ScanSlot V m × ScanSlot V n) × MergeJoinState V m n) := do
  let state ← if state.needNewOuter then match state.outerRows with
      | [] => none
      | outer :: rest => some {
          outerRows := rest, innerRows := inner, outerSlot := outer,
          needNewOuter := false }
    else some state
  match state.buffer[state.bufferIndex]? with
  | some buffered => some (join.replay state buffered)
  | none =>
    if state.needNewInner then
      let read := join.readInner state.outerSlot state.innerRows
      let state := { state with
        buffer := read.1, innerRows := read.2, bufferIndex := 0,
        needNewInner := false }
      match read.1 with
      | [] => some (join.finishOuter state)
      | buffered :: _ => some (join.replay state buffered)
    else some (join.finishOuter state)

/-- All rows of the node, if `fuel` passes are enough for them. -/
def drain (inner : List (ScanSlot V n)) :
    Nat → MergeJoinState V m n → Option (List (ScanSlot V m × ScanSlot V n))
  | 0, _ => none
  | fuel + 1, state =>
    match join.execProcNode inner state with
    | none => some []
    | some (row, next) => (drain inner fuel next).map (row.toList ++ ·)

/-- An outer row takes two passes at most. -/
def execute (outer : List (ScanSlot V m)) (inner : List (ScanSlot V n)) :
    Option (List (ScanSlot V m × ScanSlot V n)) :=
  join.drain inner (2 * outer.length + 1) { outerRows := outer, innerRows := inner }

/-- The rows a LEFT join has for an outer row without a pair. -/
def unmatched : List (ScanSlot V n) :=
  if join.isLeft then [fun _ => none] else []

section

variable (inner : List (ScanSlot V n))

/-- The inner sides of the rows the node returns for an outer row. -/
def emitted (outer : ScanSlot V m) : List (ScanSlot V n) :=
  match inner.find? (join.tuplesMatch outer) with
  | none => join.unmatched
  | some first => if join.qual outer first then [first] else join.unmatched

theorem readInner_fst :
    (join.readInner outer inner).1 = (inner.find? (join.tuplesMatch outer)).toList := by
  induction inner with
  | nil => rfl
  | cons row _ ih =>
    by_cases agrees : join.tuplesMatch outer row <;>
      simp [readInner, agrees, ih]

theorem drain_eq (state : MergeJoinState V m n) (atOuter : state.needNewOuter)
    (enough : 2 * state.outerRows.length < fuel) :
    join.drain inner fuel state = some (state.outerRows.flatMap fun outer =>
      (join.emitted inner outer).map (outer, ·)) := by
  generalize rows : state.outerRows = outerRows at enough ⊢
  induction outerRows generalizing state fuel with
  | nil =>
    obtain _ | fuel := fuel
    · cases enough
    · simp [drain, execProcNode, atOuter, rows]
  | cons outer rest ih =>
    have reading := join.readInner_fst
    simp only [length_cons] at enough
    obtain _ | _ | fuel := fuel
    · omega
    · omega
    -- A match takes a second pass, which finds the buffer used up.
    have less : 2 * rest.length < fuel := by omega
    have less' : 2 * rest.length < fuel + 1 := by omega
    cases first : inner.find? (join.tuplesMatch outer) with
    | none =>
      rw [drain]
      cases left : join.isLeft <;>
        simp [execProcNode, atOuter, rows, reading, finishOuter, emitted,
          first, unmatched, left, ih, less']
    | some buffered =>
      cases left : join.isLeft <;> cases passes : join.qual outer buffered <;>
        simp [drain, execProcNode, atOuter, rows, reading, finishOuter,
          replay, passes, emitted, first, unmatched, left, ih, less]

/-- The pairs of the reference join: a NULL key matches nothing. -/
def keysEqual (outer : ScanSlot V m) (inner : ScanSlot V n) : Bool :=
  join.clauses.all fun clause =>
    match outer clause.1, inner clause.2 with
    | some left, some right => join.order.compareValues clause.1 left right == .eq
    | _, _ => false

def reference (outer : ScanSlot V m) : List (ScanSlot V n) :=
  match inner.filter fun row => join.keysEqual outer row && join.qual outer row with
  | [] => join.unmatched
  | rows => rows

/-- An outer row for which one inner row is enough.  With a NULL key it has no
first match that passes the qual, but one that looks like no match; without
one, no match after the first passes the qual. -/
def OneMatch (outer : ScanSlot V m) : Prop :=
  if ∃ clause ∈ join.clauses, outer clause.1 = none then
    ∀ first ∈ inner.find? (join.tuplesMatch outer), join.qual outer first →
      join.isLeft ∧ first = fun _ => none
  else ∀ row ∈ (inner.filter (join.tuplesMatch outer)).tail, ¬ join.qual outer row

theorem keysEqual_of_null (null : ∃ clause ∈ join.clauses, outer clause.1 = none)
    (inner : ScanSlot V n) : join.keysEqual outer inner = false := by
  obtain ⟨clause, mem, null⟩ := null
  exact all_eq_false.2 ⟨clause, mem, by simp [null]⟩

theorem keysEqual_eq_tuplesMatch (present : ¬ ∃ clause ∈ join.clauses, outer clause.1 = none) :
    join.keysEqual outer = join.tuplesMatch outer := by
  funext inner
  apply Bool.eq_iff_iff.2
  rw [keysEqual, tuplesMatch, all_eq_true, all_eq_true]
  apply forall₂_congr
  intro clause mem
  cases left : outer clause.1 with
  | none => exact absurd ⟨clause, mem, left⟩ present
  | some left => cases inner clause.2 <;> simp [compareDatumValues]

theorem emitted_perm_reference_iff :
    (join.emitted inner outer).Perm (join.reference inner outer) ↔ join.OneMatch inner outer := by
  unfold OneMatch emitted
  split_ifs with null
  · have pairs : join.reference inner outer = join.unmatched := by
      simp [reference, join.keysEqual_of_null null]
    rw [pairs]
    cases inner.find? (join.tuplesMatch outer) with
    | none => simp
    | some first =>
      cases passes : join.qual outer first <;> cases left : join.isLeft <;>
        simp [unmatched, left]
  have absent : join.tuplesMatch outer (fun _ => none) = false := by
    rw [← join.keysEqual_eq_tuplesMatch null]
    obtain ⟨clause, mem⟩ := exists_mem_of_ne_nil _ join.keyed
    exact all_eq_false.2 ⟨clause, mem, by simp⟩
  have noNullRow : (fun _ => none) ∉ inner.filter (join.tuplesMatch outer) := by simp [absent]
  rw [reference, join.keysEqual_eq_tuplesMatch null, ← head?_filter]
  simp only [Bool.and_comm (join.tuplesMatch outer _)]
  rw [← filter_filter]
  generalize inner.filter (join.tuplesMatch outer) = agreeing at noNullRow ⊢
  cases agreeing with
  | nil => simp
  | cons first rest =>
    rw [mem_cons, not_or] at noNullRow
    have none_iff : (∀ row ∈ rest, ¬ join.qual outer row) ↔ rest.filter (join.qual outer) = [] := by
      simp
    rw [tail_cons, none_iff, filter_cons]
    cases passes : join.qual outer first with
    | true => simp [passes]
    | false =>
      cases later : rest.filter (join.qual outer) with
      | nil => simp [passes]
      | cons row _ =>
        have mem : row ∈ rest := mem_of_mem_filter (later ▸ mem_cons_self)
        have notNull : (fun _ => none) ≠ row := fun same => noNullRow.2 (same ▸ mem)
        cases left : join.isLeft <;>
          simp [unmatched, left, passes, notNull]

end

end MergeJoin

/-- The node joins exactly when one inner row is enough for each outer row. -/
theorem MergeJoin.execute_perm_iff (join : MergeJoin V m n)
    (outer : List (ScanSlot V m)) (inner : List (ScanSlot V n)) :
    (∃ rows, join.execute outer inner = some rows ∧ rows.Perm (outer.flatMap fun row =>
        (join.reference inner row).map (row, ·))) ↔ ∀ row ∈ outer, join.OneMatch inner row := by
  have drained := join.drain_eq inner
    { outerRows := outer, innerRows := inner } rfl (Nat.lt_add_one _)
  simp [execute, drained, Lib.flatMap_keyed_perm_iff, join.emitted_perm_reference_iff]

theorem MergeJoin.execute_loses_second_match : let join : MergeJoin Nat 1 1 :=
      { clauses := [(0, 0)], keyed := cons_ne_nil _ _, isLeft := false
        qual := fun _ _ => true, order := ⟨fun _ => 23, fun _ => compare⟩ }
    let row : ScanSlot Nat 1 := fun _ => some 1
    join.execute [row] [row, row] = some [(row, row)] ∧
      join.reference [row, row] row = [row, row] := by
  exact ⟨rfl, rfl⟩

end Pgcpp.Executor
