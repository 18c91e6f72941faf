import Mathlib.Algebra.Group.Nat.Defs
import Mathlib.Algebra.Ring.Int.Defs
import Pgcpp.Lib.Grouping

/-!
# Grouped aggregation over one table

`MapGroupColIdx` stands for each grouping expression with one column of the
scan, that of the first variable in it.  The Agg node groups by those columns,
and computes the target list on a slot that has them from the group and the
other columns from the last row it has read.
-/

namespace Pgcpp.Executor

open List Lib

section

variable {V : Type} {natts : Nat}

/-- The columns of a row of the scan, `none` for NULL. -/
abbrev ScanSlot (V : Type) (natts : Nat) := Fin natts → Option V

def getSlotAttr (slot : ScanSlot V natts) (attno : Nat) : Option V :=
  if inside : 1 ≤ attno ∧ attno ≤ natts then slot ⟨attno - 1, by omega⟩ else none

def setSlotAttr (slot : ScanSlot V natts) (attno : Nat) (value : Option V) : ScanSlot V natts :=
  fun column => if column.val + 1 = attno then value else slot column

/-- Expressions as `ExtractVars` sees them: it looks into operators and
functions, and finds no variable in any other node. -/
inductive ScanExpr (V : Type) (natts : Nat) where
  | var (varattno : Nat)
  | relabelType (arg : ScanExpr V natts)
  | call (result : List (Option V) → Option V) (args : List (ScanExpr V natts))
  | other (result : ScanSlot V natts → Option V)

mutual

def execEvalScan (slot : ScanSlot V natts) : ScanExpr V natts → Option V
  | .var varattno => getSlotAttr slot varattno
  | .relabelType arg => execEvalScan slot arg
  | .call result args => result (execEvalArgs slot args)
  | .other result => result slot

def execEvalArgs (slot : ScanSlot V natts) : List (ScanExpr V natts) → List (Option V)
  | [] => []
  | arg :: args => execEvalScan slot arg :: execEvalArgs slot args

end

mutual

def extractVars : ScanExpr V natts → List Nat
  | .var varattno => [varattno]
  | .relabelType arg => extractVars arg
  | .call _ args => extractArgVars args
  | .other _ => []

def extractArgVars : List (ScanExpr V natts) → List Nat
  | [] => []
  | arg :: args => extractVars arg ++ extractArgVars args

end

structure GroupTarget (V : Type) (natts : Nat) where
  resno : Nat
  ressortgroupref : Nat
  expr : ScanExpr V natts

/-- An aggregate and the column of its argument. -/
inductive Aggregate where
  | countStar
  | count (attno : Nat)
  | sum (attno : Nat)
  | min (attno : Nat)
  | max (attno : Nat)

/-- A grouped query.  Its clauses name entries of the target list, so the plan
has group columns and `ExecProcNode` takes its branch for groups. -/
structure GroupQuery (V : Type) (natts : Nat) where
  targetlist : List (GroupTarget V natts)
  groupClause : List Nat
  aggs : List Aggregate
  qual : ScanSlot V natts → Bool
  grouped : groupClause ≠ []
  named : ∀ ref ∈ groupClause, ∃ entry ∈ targetlist, entry.ressortgroupref = ref

/-- The entries of the target list that the grouping clauses name. -/
def GroupQuery.entries (query : GroupQuery V natts) : List (GroupTarget V natts) :=
  query.groupClause.filterMap fun ref => query.targetlist.find? (·.ressortgroupref == ref)

def mapGroupColIdx (query : GroupQuery V natts) : List Nat :=
  query.entries.map fun entry => (extractVars entry.expr).head?.getD entry.resno

/-- The values of the grouping expressions. -/
def GroupQuery.tuple (query : GroupQuery V natts) (slot : ScanSlot V natts) : List (Option V) :=
  query.entries.map fun entry => execEvalScan slot entry.expr

/-- The group key of a row: its values in the columns of the plan. -/
def groupKey (columns : List Nat) (slot : ScanSlot V natts) : List (Option V) :=
  columns.map (getSlotAttr slot)

/-- The slot of a group's output row. -/
def writeGroupKey (columns : List Nat) (key : List (Option V))
    (slot : ScanSlot V natts) : ScanSlot V natts :=
  (columns.zip key).foldl (fun slot entry => setSlotAttr slot entry.1 entry.2) slot

/-- The running state of one aggregate: `best` is the least or the greatest
value so far.  The sum of an `int64_t` wraps around. -/
structure AggCell where
  count : Nat := 0
  sumInt : BitVec 64 := 0
  best : Option Int := none

variable (asInt : V → Int) (agg : Aggregate)

def Aggregate.advance (cell : AggCell) (value : Int) : AggCell :=
  let cell := { cell with count := cell.count + 1 }
  match agg with
  | .countStar | .count _ => cell
  | .sum _ => { cell with sumInt := cell.sumInt + .ofInt 64 value }
  | .min _ => { cell with
      best := some (cell.best.elim value fun current =>
        if value < current then value else current) }
  | .max _ => { cell with
      best := some (cell.best.elim value fun current =>
        if value > current then value else current) }

/-- The argument of an aggregate in a row; COUNT(*) has none to be NULL. -/
def Aggregate.argument (slot : ScanSlot V natts) : Aggregate → Option Int
  | .countStar => some 0
  | .count attno | .sum attno | .min attno | .max attno => (getSlotAttr slot attno).map asInt

def accumulate (cell : AggCell) (slot : ScanSlot V natts) : AggCell :=
  match agg.argument asInt slot with
  | some value => agg.advance cell value
  | none => cell

def Aggregate.final (cell : AggCell) : Option Int :=
  match agg with
  | .countStar | .count _ => some cell.count
  | .sum _ => if cell.count = 0 then none else some cell.sumInt.toInt
  | .min _ | .max _ => cell.best

variable [DecidableEq V]

/-- The output rows of the plan: the grouping expressions and the aggregates of
each group.  Every output rewrites all group columns of one slot, which the
last row read has left. -/
def aggExecute (query : GroupQuery V natts) (table : List (ScanSlot V natts)) :
    List (List (Option V) × List (Option Int)) :=
  let rows := table.filter query.qual
  let columns := mapGroupColIdx query
  let groups := groupRows (groupKey columns)
    (fun cells row => cells.map fun cell => (cell.1, accumulate asInt cell.1 cell.2 row))
    (query.aggs.map fun agg => (agg, {})) rows
  match rows.getLast? with
  | none => []
  | some last => groups.map fun group =>
      (query.tuple (writeGroupKey columns group.1 last),
        group.2.map fun cell => cell.1.final cell.2)

variable (rows : List (ScanSlot V natts))

/-- What an aggregate of some rows is, from its arguments in them that are not
NULL; a sum is of 64 bits. -/
def Aggregate.value (agg : Aggregate) : Option Int :=
  let values := rows.filterMap (agg.argument asInt)
  match agg with
  | .countStar => some rows.length
  | .count _ => some values.length
  | .sum _ => if values = [] then none else some (values.sum.bmod (2 ^ 64))
  | .min _ => values.min?
  | .max _ => values.max?

/-- One row for each distinct tuple of the grouping expressions. -/
def groupedRows (query : GroupQuery V natts) (table : List (ScanSlot V natts)) :
    List (List (Option V) × List (Option Int)) :=
  let rows := table.filter query.qual
  (rows.map query.tuple).dedup.map fun tuple =>
    (tuple, query.aggs.map fun agg => agg.value asInt (rows.filter (query.tuple · = tuple)))

theorem foldl_advance_count (values : List Int) :
    (values.foldl agg.advance cell).count = cell.count + values.length := by
  induction values generalizing cell with
  | nil => rfl
  | cons value values ih =>
    have one : (agg.advance cell value).count = cell.count + 1 := by cases agg <;> rfl
    rw [foldl_cons, ih, length_cons]
    omega

theorem foldl_advance_sum (attno : Nat) (values : List Int) :
    (values.foldl (Aggregate.sum attno).advance cell).sumInt =
      cell.sumInt + .ofInt 64 values.sum := by
  induction values generalizing cell with
  | nil => simp
  | cons _ values ih =>
    rw [foldl_cons, ih, sum_cons, BitVec.ofInt_add, ← BitVec.add_assoc]
    rfl

theorem foldl_advance_best {agg : Aggregate} (step : ∀ cell value, (agg.advance cell value).best =
      some (cell.best.elim value (pick · value))) :
    ((value :: values).foldl agg.advance cell).best =
      some (values.foldl pick (cell.best.elim value (pick · value))) := by
  induction values generalizing value cell with
  | nil => exact step cell value
  | cons _ values ih =>
    rw [foldl_cons, ih, step]
    rfl

omit [DecidableEq V] in
theorem final_foldl_accumulate :
    agg.final (rows.foldl (accumulate asInt agg) {}) = agg.value asInt rows := by
  have arguments : rows.foldl (accumulate asInt agg) {} =
      (rows.filterMap (agg.argument asInt)).foldl agg.advance {} := by
    rw [foldl_filterMap]
    congr 1
    funext cell row
    rw [accumulate]
    cases agg.argument asInt row <;> rfl
  rw [arguments]
  cases agg with
  | countStar =>
    have all : (rows.filterMap (Aggregate.argument asInt · .countStar)).length = rows.length := by
      simp only [Aggregate.argument, filterMap_eq_map', length_map]
    rw [Aggregate.final, foldl_advance_count, Nat.zero_add, all]
    rfl
  | count attno =>
    rw [Aggregate.final, foldl_advance_count, Nat.zero_add]
    rfl
  | sum attno =>
    simp only [Aggregate.final, Aggregate.value, foldl_advance_count,
      foldl_advance_sum, Nat.zero_add, length_eq_zero_iff, BitVec.ofNat_eq_ofNat, BitVec.zero_add,
      BitVec.toInt_ofInt]
  | min attno =>
    have step : ∀ (cell : AggCell) (value : Int), ((Aggregate.min attno).advance cell value).best =
          some (cell.best.elim value (min · value)) := by
      intro cell value
      rw [Aggregate.advance]
      cases cell.best with
      | none => rfl
      | some best =>
        simp only [Option.elim_some, Option.some.injEq]
        split <;> omega
    rw [Aggregate.final, Aggregate.value]
    cases rows.filterMap (Aggregate.argument asInt · (.min attno)) with
    | nil => rfl
    | cons value values =>
      rw [foldl_advance_best step, min?_cons']
      rfl
  | max attno =>
    have step : ∀ (cell : AggCell) (value : Int), ((Aggregate.max attno).advance cell value).best =
          some (cell.best.elim value (max · value)) := by
      intro cell value
      rw [Aggregate.advance]
      cases cell.best with
      | none => rfl
      | some best =>
        simp only [Option.elim_some, Option.some.injEq]
        split <;> omega
    rw [Aggregate.final, Aggregate.value]
    cases rows.filterMap (Aggregate.argument asInt · (.max attno)) with
    | nil => rfl
    | cons value values =>
      rw [foldl_advance_best step, max?_cons']
      rfl

omit [DecidableEq V] in
theorem foldl_cells (cells : List (Aggregate × AggCell)) :
    rows.foldl (fun cells row => cells.map fun cell =>
        (cell.1, accumulate asInt cell.1 cell.2 row)) cells =
      cells.map fun cell => (cell.1, rows.foldl (accumulate asInt cell.1) cell.2) := by
  induction rows generalizing cells with
  | nil => exact (map_id cells).symm
  | cons row rows ih =>
    rw [foldl_cons, ih, map_map]
    rfl

omit [DecidableEq V] in
theorem writeGroupKey_groupKey (row slot : ScanSlot V natts) :
    writeGroupKey columns (groupKey columns row) slot = fun column =>
        if column.val + 1 ∈ columns then row column else slot column := by
  induction columns generalizing slot with
  | nil => simp [writeGroupKey]
  | cons attno columns ih =>
    refine (ih _).trans ?_
    funext column
    by_cases first : column.val + 1 = attno
    · subst first
      have inside : column.val + 1 ≤ natts := column.isLt
      simp [setSlotAttr, getSlotAttr, inside]
    · simp [setSlotAttr, first]

theorem aggExecute_eq (query : GroupQuery V natts)
    (ends : (table.filter query.qual).getLast? = some last) :
    aggExecute asInt query table = ((table.filter query.qual).reverse.map
          (groupKey (mapGroupColIdx query))).dedup.map fun key =>
        (query.tuple (writeGroupKey (mapGroupColIdx query) key last),
          query.aggs.map fun agg => agg.value asInt ((table.filter query.qual).filter
              (groupKey (mapGroupColIdx query) · = key))) := by
  simp only [aggExecute, ends, groupRows_eq, map_map, foldl_cells]
  apply map_congr_left
  intro key _
  simp only [Function.comp_apply, map_map]
  congr 1
  apply map_congr_left
  intro agg _
  exact final_foldl_accumulate asInt agg _

/-- The group columns stand for the grouping expressions: rows agree on both or
on neither, and the expressions can be computed from them in place. -/
def GroupQuery.ColumnsStand (query : GroupQuery V natts) : Prop :=
  ∀ row other : ScanSlot V natts, query.qual row → query.qual other →
    (query.tuple row = query.tuple other ↔ groupKey (mapGroupColIdx query) row =
        groupKey (mapGroupColIdx query) other) ∧
    query.tuple (writeGroupKey (mapGroupColIdx query)
      (groupKey (mapGroupColIdx query) row) other) = query.tuple row

theorem GroupQuery.ColumnsStand.perm
    (stand : query.ColumnsStand) (table : List (ScanSlot V natts)) :
    (aggExecute asInt query table).Perm (groupedRows asInt query table) := by
  cases ends : (table.filter query.qual).getLast? with
  | none =>
    have empty := getLast?_eq_none_iff.1 ends
    simp [aggExecute, groupedRows, empty]
  | some last =>
    have passes : ∀ row ∈ table.filter query.qual, query.qual row :=
      fun row mem => (mem_filter.1 mem).2
    have lastPasses := passes last (mem_of_getLast? ends)
    rw [aggExecute_eq asInt query ends, groupedRows]
    generalize table.filter query.qual = rows at passes
    -- what both sides return for the group of a row
    let ofRow (row : ScanSlot V natts) : List (Option V) × List (Option Int) :=
      (query.tuple row, query.aggs.map fun agg =>
        agg.value asInt (rows.filter (query.tuple · = query.tuple row)))
    have code : ∀ row ∈ rows.reverse, (query.tuple (writeGroupKey (mapGroupColIdx query)
            (groupKey (mapGroupColIdx query) row) last), query.aggs.map fun agg => agg.value asInt
            (rows.filter (groupKey (mapGroupColIdx query) · =
              groupKey (mapGroupColIdx query) row))) = ofRow row := by
      intro row mem
      have rowPasses := passes row (mem_reverse.1 mem)
      rw [(stand row last rowPasses lastPasses).2]
      have group : rows.filter (groupKey (mapGroupColIdx query) · =
            groupKey (mapGroupColIdx query) row) =
          rows.filter (query.tuple · = query.tuple row) := by
        apply filter_congr
        intro other otherMember
        exact decide_eq_decide.2 (stand other row (passes other otherMember) rowPasses).1.symm
      rw [group]
    have spec : ∀ row ∈ rows, (fun tuple =>
          (tuple, query.aggs.map fun agg => agg.value asInt (rows.filter (query.tuple · = tuple))))
        (query.tuple row) = ofRow row :=
      fun _ _ => rfl
    apply (perm_ext_iff_of_nodup ?_ ?_).2
    · intro _
      rw [mem_map_dedup_iff code, mem_map_dedup_iff spec]
      simp
    · apply nodup_map_dedup code
      intro row mem other otherMember same
      apply (stand row other (passes row (mem_reverse.1 mem))
        (passes other (mem_reverse.1 otherMember))).1.1
      exact congrArg Prod.fst same
    · apply nodup_map_dedup spec
      intro row _ other _ same
      exact congrArg Prod.fst same

theorem tuples_of_two (right : ∀ table,
      (aggExecute asInt query table).Perm (groupedRows asInt query table)) (passes : query.qual row)
    (otherPasses : query.qual other) : ([groupKey (mapGroupColIdx query) other,
        groupKey (mapGroupColIdx query) row].dedup.map fun key =>
          query.tuple (writeGroupKey (mapGroupColIdx query) key other)).Perm
      [query.tuple row, query.tuple other].dedup := by
  have kept : [row, other].filter query.qual = [row, other] := by simp [passes, otherPasses]
  have ends : ([row, other].filter query.qual).getLast? = some other := by
    rw [kept]
    rfl
  have perm := (right [row, other]).map Prod.fst
  rw [aggExecute_eq asInt query ends, groupedRows, kept, map_map, map_map] at perm
  refine perm.trans (.of_eq ?_)
  exact map_id _

/-- A grouped query gives one row for each distinct tuple, with the aggregates
of its rows, on every table exactly when its group columns stand for the
grouping expressions. -/
theorem aggExecute_perm_iff (query : GroupQuery V natts) : (∀ table,
      (aggExecute asInt query table).Perm (groupedRows asInt query table)) ↔
    query.ColumnsStand := by
  constructor
  · intro right row other passes otherPasses
    have tuples := tuples_of_two asInt right passes otherPasses
    have whole : writeGroupKey (mapGroupColIdx query)
        (groupKey (mapGroupColIdx query) other) other = other := by
      rw [writeGroupKey_groupKey]
      funext column
      exact ite_self _
    by_cases same : groupKey (mapGroupColIdx query) row = groupKey (mapGroupColIdx query) other
    · rw [same, whole]
      have tuple : query.tuple row = query.tuple other := by
        by_contra different
        have lengths := tuples.length_eq
        simp [same, different] at lengths
      exact ⟨iff_of_true tuple rfl, tuple.symm⟩
    have distinct := Ne.symm same
    have tuple : query.tuple row ≠ query.tuple other := by
      intro equal
      have lengths := tuples.length_eq
      simp [distinct, equal] at lengths
    refine ⟨iff_of_false tuple same, ?_⟩
    simp only [dedup_cons_of_notMem, mem_singleton, distinct, tuple, not_false_eq_true, map_cons,
      whole] at tuples
    have swapped := tuples.trans (List.Perm.swap _ _ [])
    exact singleton_perm_singleton.1 swapped.cons_inv
  · exact fun stand table => stand.perm asInt table

/-- `SELECT count(*) FROM t GROUP BY a * 0` returns a row for each `a`. -/
theorem aggExecute_splits_group : ¬∀ (query : GroupQuery Int 1) (table : List (ScanSlot Int 1)),
      (aggExecute id query table).Perm (groupedRows id query table) := by
  intro right
  have lengths := (right
    { targetlist := [⟨1, 1, .call (fun _ => some 0) [.var 1]⟩], groupClause := [1]
      aggs := [.countStar], qual := fun _ => true, grouped := by decide, named := by simp }
    [fun _ => some 1, fun _ => some 2]).length_eq
  cases lengths

end

end Pgcpp.Executor
