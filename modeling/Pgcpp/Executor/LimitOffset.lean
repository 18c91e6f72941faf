import Mathlib.Data.List.Sort

/-!
# LIMIT and OFFSET of a single-table query

`subplanner` hands LIMIT and OFFSET to the Sort node and to nothing else.  The
loop of `ExecuteQuery` counts the rows it has sent, and looks at LIMIT after
each of them.
-/

namespace Pgcpp.Executor

open List hiding after count length reverse

/-- The values of one row, `none` for NULL. -/
abbrev Row := List (Option Int)

/-- The expression of a LIMIT or OFFSET clause. -/
inductive BoundExpr where
  | const (constisnull : Bool) (constvalue : Int)
  | relabelType (arg : BoundExpr)
  | other

/-- A binary coercion around the constant is taken off once. -/
def BoundExpr.unwrapped : BoundExpr → BoundExpr
  | .relabelType arg => arg
  | expr => expr

def extractLimitCount : Option BoundExpr → Int
  | none => -1
  | some expr =>
    match expr.unwrapped with
    | .const false value => value
    | _ => -1

def extractLimitOffset : Option BoundExpr → Int
  | none => 0
  | some expr =>
    match expr.unwrapped with
    | .const false value => value
    | _ => 0

structure TargetEntry where
  resno : Nat
  ressortgroupref : Nat

structure SortGroupClause where
  tleSortGroupRef : Nat
  sortop : Nat
  nullsFirst : Bool

structure SortKey where
  colIdx : Nat
  reverse : Bool
  nullsFirst : Bool

structure SelectQuery where
  targetlist : List TargetEntry
  sortClause : List SortGroupClause
  limitCount : Option BoundExpr
  limitOffset : Option BoundExpr

structure SortPlan where
  keys : List SortKey
  limit : Int
  offset : Int

/-- The clauses that name an entry of the target list. -/
def SelectQuery.sortKeys (query : SelectQuery) : List SortKey :=
  query.sortClause.filterMap fun clause =>
    (query.targetlist.find? (·.ressortgroupref == clause.tleSortGroupRef)).map
      fun entry => ⟨entry.resno, clause.sortop == 1, clause.nullsFirst⟩

/-- The Sort node of a query; there is none without a valid sort column. -/
def buildSortPlan (query : SelectQuery) : Option SortPlan :=
  if query.sortKeys = [] then none
  else some
    { keys := query.sortKeys, limit := extractLimitCount query.limitCount
      offset := extractLimitOffset query.limitOffset }

/-- The plan on top of the scan, with the rows of the child still to come. -/
inductive PlanState where
  | scan (rows : List Row)
  | unsorted (plan : SortPlan) (rows : List Row)
  | sorted (plan : SortPlan) (tuplesort : List Row) (rowsOutput : Int)

/-- A `TupleSort`, whose `std::sort` may put rows with equal keys in any order. -/
structure TupleSort where
  le : List SortKey → Row → Row → Bool
  sort : List SortKey → List Row → List Row
  perm : ∀ keys rows, (sort keys rows).Perm rows
  sorted : ∀ keys rows, (sort keys rows).Pairwise (le keys · ·)

section

variable (sorter : TupleSort)

/-- A Sort node that has read its child and skipped the offset. -/
def sortExecProcNode (plan : SortPlan) (tuplesort : List Row)
    (rowsOutput : Int) : PlanState × Option Row :=
  if 0 ≤ plan.limit ∧ plan.limit ≤ rowsOutput then (.sorted plan tuplesort rowsOutput, none)
  else
    match tuplesort with
    | [] => (.sorted plan [] rowsOutput, none)
    | row :: rest => (.sorted plan rest (rowsOutput + 1), some row)

def executorRun : PlanState → PlanState × Option Row
  | .scan [] => (.scan [], none)
  | .scan (row :: rest) => (.scan rest, some row)
  | .unsorted plan rows =>
    sortExecProcNode plan ((sorter.sort plan.keys rows).drop plan.offset.toNat) 0
  | .sorted plan tuplesort rowsOutput => sortExecProcNode plan tuplesort rowsOutput

/-- The sending loop, for at most `calls` calls of the executor.  The count of the rows
is an `int` in the source and has no bound here. -/
def sendRows (rowLimit : Int) : Nat → Int → PlanState → Option (List Row)
  | 0, _, _ => none
  | calls + 1, rowCount, state =>
    match executorRun sorter state with
    | (_, none) => some []
    | (state, some row) =>
      if 0 ≤ rowLimit ∧ rowLimit ≤ rowCount + 1 then some [row]
      else (sendRows rowLimit calls (rowCount + 1) state).map (row :: ·)

/-- The rows a SELECT sends when its scan delivers `rows`. -/
def executeQuery (query : SelectQuery) (rows : List Row) : Option (List Row) :=
  sendRows sorter (extractLimitCount query.limitCount) (rows.length + 1) 0
    (match buildSortPlan query with
      | none => .scan rows
      | some plan => .unsorted plan rows)

/-- The tuples a Sort node has still to return. -/
def SortPlan.left (plan : SortPlan) (tuplesort : List Row) (rowsOutput : Int) : List Row :=
  if 0 ≤ plan.limit then tuplesort.take (plan.limit - rowsOutput).toNat else tuplesort

def PlanState.remaining : PlanState → List Row
  | .scan rows => rows
  | .unsorted plan rows => plan.left ((sorter.sort plan.keys rows).drop plan.offset.toNat) 0
  | .sorted plan tuplesort rowsOutput => plan.left tuplesort rowsOutput

theorem SortPlan.left_full {plan : SortPlan} (full : 0 ≤ plan.limit ∧ plan.limit ≤ rowsOutput) :
    plan.left tuplesort rowsOutput = [] := by
  have zero : (plan.limit - rowsOutput).toNat = 0 := by omega
  rw [SortPlan.left, if_pos full.1, zero, take_zero]

theorem SortPlan.left_cons {plan : SortPlan} (room : ¬(0 ≤ plan.limit ∧ plan.limit ≤ rowsOutput)) :
    plan.left (row :: rest) rowsOutput = row :: plan.left rest (rowsOutput + 1) := by
  by_cases bounded : 0 ≤ plan.limit
  · have one_more : (plan.limit - rowsOutput).toNat =
        (plan.limit - (rowsOutput + 1)).toNat + 1 := by omega
    simp [SortPlan.left, if_pos bounded, one_more]
  · simp [SortPlan.left, if_neg bounded]

theorem sortExecProcNode_returns : ∃ after, sortExecProcNode plan tuplesort rowsOutput =
          (after, (plan.left tuplesort rowsOutput).head?) ∧
        after.remaining sorter = (plan.left tuplesort rowsOutput).tail := by
  by_cases full : 0 ≤ plan.limit ∧ plan.limit ≤ rowsOutput
  · rw [SortPlan.left_full full]
    simp only [sortExecProcNode, if_pos full]
    exact ⟨_, rfl, SortPlan.left_full full⟩
  simp only [sortExecProcNode, if_neg full]
  cases tuplesort with
  | nil =>
    have empty : plan.left [] rowsOutput = [] := by simp [SortPlan.left]
    rw [empty]
    exact ⟨_, rfl, empty⟩
  | cons _ _ =>
    rw [SortPlan.left_cons full]
    exact ⟨_, rfl, rfl⟩

theorem executorRun_returns : ∃ after,
      executorRun sorter state = (after, (state.remaining sorter).head?) ∧
      after.remaining sorter = (state.remaining sorter).tail := by
  cases state with
  | scan rows => cases rows <;> exact ⟨_, rfl, rfl⟩
  | _ => apply sortExecProcNode_returns

theorem sendRows_eq (enough : (state.remaining sorter).length < calls) :
    sendRows sorter rowLimit calls rowCount state = some (if 0 ≤ rowLimit then
          (state.remaining sorter).take (max 1 (rowLimit - rowCount).toNat)
        else state.remaining sorter) := by
  induction calls generalizing rowCount state with
  | zero => exact absurd enough (Nat.not_lt_zero _)
  | succ calls ih =>
    obtain ⟨after, returned, later⟩ := executorRun_returns sorter
    rw [sendRows, returned]
    cases rows : state.remaining sorter with
    | nil => simp
    | cons _ _ =>
      rw [rows] at later enough
      have short : (after.remaining sorter).length < calls := by
        rw [later]
        exact Nat.lt_of_succ_lt_succ enough
      have sent := @ih (rowCount + 1) after short
      rw [later] at sent
      by_cases bounded : 0 ≤ rowLimit
      · by_cases last : rowLimit ≤ rowCount + 1
        · have one : max 1 (rowLimit - rowCount).toNat = 1 := by omega
          simp [bounded, last, one]
        have more : max 1 (rowLimit - rowCount).toNat =
            max 1 (rowLimit - (rowCount + 1)).toNat + 1 := by omega
        simp [bounded, last, more, sent]
      · simp [bounded, sent]

/-- A constant bound, with or without a coercion around it. -/
def constantBound (relabeled : Bool) (value : Nat) : BoundExpr :=
  if relabeled then .relabelType (.const false value) else .const false value

/-- The query with constant bounds in place of its own. -/
def SelectQuery.withBounds (query : SelectQuery)
    (count offset : Option (Bool × Nat)) : SelectQuery :=
  { query with
    limitCount := count.map fun bound => constantBound bound.1 bound.2
    limitOffset := offset.map fun bound => constantBound bound.1 bound.2 }

/-- The rows that LIMIT and OFFSET leave of `rows`. -/
def window (count offset : Option (Bool × Nat)) (rows : List Row) : List Row :=
  let rows := rows.drop (offset.elim 0 Prod.snd)
  count.elim rows fun bound => rows.take bound.2

theorem extractLimitCount_constant (query : SelectQuery) :
    extractLimitCount (query.withBounds count offset).limitCount =
      count.elim (-1) fun bound => (bound.2 : Int) := by
  cases count with
  | none => rfl
  | some bound => obtain ⟨_ | _, _⟩ := bound <;> rfl

theorem executeQuery_sorted {query : SelectQuery} (keys : query.sortKeys ≠ []) :
    executeQuery sorter (query.withBounds count offset) rows =
      some (window count offset (sorter.sort query.sortKeys rows)) := by
  have built : buildSortPlan (query.withBounds count offset) = some
      { keys := query.sortKeys, limit := count.elim (-1) fun bound => (bound.2 : Int)
        offset := offset.elim 0 fun bound => (bound.2 : Int) } := by
    rw [buildSortPlan, extractLimitCount_constant]
    rcases offset with _ | ⟨_ | _, _⟩ <;> exact if_neg keys
  have skipped : (offset.elim (0 : Int) fun bound => (bound.2 : Int)).toNat =
      offset.elim 0 Prod.snd := by
    cases offset <;> rfl
  rw [executeQuery, built, extractLimitCount_constant, sendRows_eq]
  · cases count with
    | none => simp [PlanState.remaining, SortPlan.left, window, skipped]
    | some bound =>
      simp only [PlanState.remaining, SortPlan.left, skipped, Option.elim_some, Int.natCast_nonneg,
        if_true, Int.sub_zero, Int.toNat_natCast, take_take]
      congr 2
      omega
  · apply Nat.lt_succ_of_le
    rw [← (sorter.perm query.sortKeys rows).length_eq, PlanState.remaining, SortPlan.left]
    split
    · exact ((take_sublist ..).trans (drop_sublist ..)).length_le
    · exact (drop_sublist ..).length_le

/-- Without one the OFFSET is not looked at, and LIMIT 0 sends a row. -/
theorem executeQuery_unsorted {query : SelectQuery} (keys : query.sortKeys = []) :
    executeQuery sorter (query.withBounds count offset) rows =
      some (count.elim rows fun bound => rows.take (max 1 bound.2)) := by
  have built : buildSortPlan (query.withBounds count offset) = none := if_pos keys
  rw [executeQuery, built, extractLimitCount_constant, sendRows_eq]
  · cases count <;> simp [PlanState.remaining]
  · exact Nat.lt_succ_self rows.length

theorem take_eq_take_drop_iff {rows : List Row} : rows.take count = (rows.drop skip).take count ↔
      ∀ index < count, rows[skip + index]? = rows[index]? := by
  constructor
  · intro same index inside
    have entry := congrArg (·[index]?) same
    simp only [getElem?_take, if_pos inside, getElem?_drop] at entry
    exact entry.symm
  intro same
  apply ext_getElem?
  intro index
  simp only [getElem?_take, getElem?_drop]
  split
  · exact (same index ‹_›).symm
  · rfl

theorem unsorted_eq_window_iff :
    (count.elim rows fun bound => rows.take (max 1 bound.2)) = window count offset rows ↔
      rows = [] ∨ (count.elim True fun bound => bound.2 ≠ 0) ∧
        (offset.elim 0 Prod.snd = 0 ∨ count.elim False fun bound => ∀ index < bound.2,
            rows[offset.elim 0 Prod.snd + index]? = rows[index]?) := by
  rw [window]
  generalize offset.elim 0 Prod.snd = skip
  cases count with
  | none =>
    simp only [Option.elim_none, true_and, or_false]
    constructor
    · intro same
      have length := congrArg List.length same
      rw [length_drop] at length
      rw [← length_eq_zero_iff]
      omega
    · rintro (rfl | rfl) <;> simp
  | some bound =>
    obtain ⟨_, count⟩ := bound
    cases count with
    | zero => simp
    | succ count =>
      have more : max 1 (count + 1) = count + 1 := by omega
      simp only [Option.elim_some, more, ne_eq, Nat.add_one_ne_zero,
        not_false_eq_true, true_and, take_eq_take_drop_iff]
      constructor
      · exact fun same => .inr (.inr same)
      rintro (rfl | rfl | same)
      · simp
      · simp
      · exact same

/-- LIMIT and OFFSET are honoured exactly when the plan has a Sort node, or the
scan delivers nothing, or LIMIT is not 0 and OFFSET skips nothing or skips rows
that the next ones repeat. -/
theorem executeQuery_window_iff (query : SelectQuery)
    (count offset : Option (Bool × Nat)) (rows : List Row) :
    (∃ sent, executeQuery sorter (query.withBounds none none) rows = some sent ∧
      executeQuery sorter (query.withBounds count offset) rows = some (window count offset sent)) ↔
    query.sortKeys ≠ [] ∨ rows = [] ∨ (count.elim True fun bound => bound.2 ≠ 0) ∧
        ((offset.elim 0 Prod.snd) = 0 ∨ count.elim False fun bound => ∀ index < bound.2,
            rows[offset.elim 0 Prod.snd + index]? = rows[index]?) := by
  by_cases keys : query.sortKeys = []
  · simp only [executeQuery_unsorted sorter keys, keys, ne_eq, not_true_eq_false, false_or,
      Option.some.injEq, exists_eq_left']
    exact unsorted_eq_window_iff
  · simp only [executeQuery_sorted sorter keys, keys, ne_eq, not_false_eq_true, true_or, iff_true]
    exact ⟨_, rfl, by simp [window]⟩

theorem executeQuery_limit_zero_sends : ¬∀ (sorter : TupleSort) (query : SelectQuery)
    (count offset : Option (Bool × Nat)) (rows sent : List Row),
      executeQuery sorter (query.withBounds none none) rows = some sent →
        executeQuery sorter (query.withBounds count offset) rows =
          some (window count offset sent) := by
  intro honoured
  have sent := honoured ⟨fun _ _ _ => true, fun _ rows => rows, fun _ _ => .refl _,
      fun _ _ => pairwise_of_forall fun _ _ => rfl⟩
    ⟨[], [], none, none⟩ (some (false, 0)) none [[]] [[]]
  exact absurd (sent (by decide)) (by decide)

end

end Pgcpp.Executor
