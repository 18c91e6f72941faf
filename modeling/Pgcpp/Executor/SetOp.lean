import Pgcpp.Executor.MergeJoin

/-!
# INTERSECT and EXCEPT

The SetOp node counts the copies of each group of equal rows on either side.
It learns that a group is complete from the first row of the next one, and
`StartNewGroup` then drops the copies that were not returned yet.
-/

namespace Pgcpp.Executor

open List

variable {V : Type} {m n : Nat}

/-- The first difference on the columns. -/
def compareTuplesOnAttrs (order : ColumnOrder V n) (columns : List (Fin n))
    (left right : ScanSlot V n) : Ordering :=
  columns.foldr (fun column rest =>
    (compareDatumValues (order.compareValues column) (left column) (right column)).then rest) .eq

inductive SetOpCmd where
  | intersect
  | except

/-- The copies of a row in the result, by its copies on either side. -/
def SetOpCmd.copies : SetOpCmd → Bool → Nat → Nat → Nat
  | .intersect, true, left, right => min left right
  | .intersect, false, left, right => min 1 (min left right)
  | .except, true, left, right => left - right
  | .except, false, left, right => if right = 0 then min 1 left else 0

/-- The plan for rows of `n` columns, with the comparison for the type of each;
its results have `m` columns. -/
structure SetOp (V : Type) (n m : Nat) where
  cmd : SetOpCmd
  all : Bool
  colIdx : List (Fin n)
  flagColIdx : Nat
  firstFlag : Int
  order : ColumnOrder V n
  asInt : V → Int

/-- `rows` are still to be read.  The counts are `int`s in the source and have no
bound here. -/
structure SetOpState (V : Type) (n : Nat) where
  rows : List (ScanSlot V n)
  groupFirst : ScanSlot V n := fun _ => none
  hasGroup : Bool := false
  leftCount : Nat := 0
  rightCount : Nat := 0
  remainingOutput : Nat := 0

namespace SetOp

variable (op : SetOp V n m) (first row : ScanSlot V n) (group rows : List (ScanSlot V n))
  (state : SetOpState V n)

/-- Without a flag a row is one of the left side. -/
def isLeft : Bool :=
  match getSlotAttr row op.flagColIdx with
  | some flag => op.asInt flag == op.firstFlag
  | none => true

def compareRows : ScanSlot V n → ScanSlot V n → Ordering :=
  compareTuplesOnAttrs op.order op.colIdx

def inGroup : Bool := op.compareRows first row == .eq

def computeOutputCount (leftCount rightCount : Nat) : Nat :=
  match op.cmd, op.all with
  | .intersect, true => min leftCount rightCount
  | .intersect, false => if 0 < leftCount ∧ 0 < rightCount then 1 else 0
  | .except, true => (max 0 ((leftCount : Int) - rightCount)).toNat
  | .except, false => if 0 < leftCount ∧ rightCount = 0 then 1 else 0

theorem computeOutputCount_eq (leftCount rightCount : Nat) :
    op.computeOutputCount leftCount rightCount = op.cmd.copies op.all leftCount rightCount := by
  rw [computeOutputCount.eq_def]
  split <;> simp_all only [SetOpCmd.copies] <;> grind

def countRow : SetOpState V n :=
  if op.isLeft row then { state with leftCount := state.leftCount + 1 }
  else { state with rightCount := state.rightCount + 1 }

def startNewGroup : SetOpState V n :=
  op.countRow row { rows := rows, groupFirst := row, hasGroup := true }

/-- The columns of `group_first` that the result has. -/
def copyRow (_ : SetOp V n m) : ScanSlot V m :=
  fun column => if inside : column.val < n then first ⟨column, inside⟩ else none

def emit : Option (ScanSlot V m) × SetOpState V n :=
  (op.copyRow state.groupFirst, { state with remainingOutput := state.remainingOutput - 1 })

def execProcNode : Option (Option (ScanSlot V m) × SetOpState V n) :=
  let complete := { state with
    remainingOutput := op.computeOutputCount state.leftCount state.rightCount, hasGroup := false }
  if 0 < state.remainingOutput then some (op.emit state)
  else match state.rows with
    | [] =>
      if state.hasGroup ∧ 0 < complete.remainingOutput then some (op.emit complete) else none
    | row :: rows =>
      if ¬state.hasGroup then some (none, op.startNewGroup row rows)
      else if op.inGroup state.groupFirst row then some (none, op.countRow row { state with rows })
      else
        some (if 0 < complete.remainingOutput then (op.emit complete).1 else none,
          op.startNewGroup row rows)

def drain : Nat → SetOpState V n → Option (List (ScanSlot V m))
  | 0, _ => none
  | fuel + 1, state =>
    match op.execProcNode state with
    | none => some []
    | some (row, next) => (drain fuel next).map (row.toList ++ ·)

/-- The groups of equal rows next to each other, each with its first row. -/
def groupsFrom (first : ScanSlot V n) (group : List (ScanSlot V n)) :
    List (ScanSlot V n) → List (ScanSlot V n × List (ScanSlot V n))
  | [] => [(first, group)]
  | row :: rows =>
    if op.inGroup first row then groupsFrom first (group ++ [row]) rows
    else (first, group) :: groupsFrom row [row] rows

def groups : List (ScanSlot V n) → List (ScanSlot V n × List (ScanSlot V n))
  | [] => []
  | row :: rows => op.groupsFrom row [row] rows

section

variable {op first group rows} [Std.TransCmp op.compareRows]

theorem inGroup_self : op.inGroup row row := by simp [inGroup, Std.ReflCmp.compare_self]

theorem groupsFrom_sorted (own : ∀ row ∈ group, op.inGroup first row)
    (sorted : (first :: rows).Pairwise fun left right => (op.compareRows left right).isLE)
    (mem : part ∈ op.groupsFrom first group rows) :
    part.1 ∈ first :: rows ∧ part.2 = (group ++ rows).filter (op.inGroup part.1) := by
  induction rows generalizing first group with
  | nil =>
    obtain rfl := mem_singleton.1 mem
    exact ⟨mem_cons_self, by rw [append_nil, filter_eq_self.2 own]⟩
  | cons row rows ih =>
    obtain ⟨above, later⟩ := pairwise_cons.1 sorted
    rw [groupsFrom] at mem
    split at mem
    next same =>
      obtain ⟨inside, isClass⟩ := ih (forall_mem_append.2 ⟨own, by simpa using same⟩)
        (sorted.sublist (by simp)) mem
      rw [append_assoc] at isClass
      exact ⟨(cons_sublist_cons.2 (sublist_cons_self ..)).subset inside, isClass⟩
    next other =>
      -- all rows from this one on are larger than the group
      have larger : ∀ next ∈ row :: rows, op.compareRows first next = .lt := by
        have less : op.compareRows first row = .lt := by
          rw [inGroup, beq_iff_eq] at other
          cases result : op.compareRows first row <;> simp_all
        intro next there
        rcases mem_cons.1 there with rfl | behind
        · exact less
        · exact Std.TransCmp.lt_of_lt_of_isLE less ((pairwise_cons.1 later).1 next behind)
      rcases mem_cons.1 mem with rfl | behind
      · refine ⟨mem_cons_self, ?_⟩
        rw [filter_append, filter_eq_self.2 own, filter_eq_nil_iff.2, append_nil]
        intro next there
        simp [inGroup, larger next there]
      · obtain ⟨inside, isClass⟩ := ih (by simp [inGroup_self]) later behind
        refine ⟨mem_cons_of_mem _ inside, ?_⟩
        rw [filter_append, filter_eq_nil_iff.2, nil_append, isClass, singleton_append]
        intro member there same
        have equal := Std.TransCmp.eq_trans (eq_of_beq (own member there))
          (Std.OrientedCmp.eq_symm (eq_of_beq same))
        rw [larger part.1 inside] at equal
        contradiction

/-- The groups of a sorted input are its classes of equal rows. -/
theorem groups_sorted (sorted : rows.Pairwise fun left right => (op.compareRows left right).isLE)
    (mem : part ∈ op.groups rows) : part.2 = rows.filter (op.inGroup part.1) := by
  cases rows with
  | nil => nomatch mem
  | cons row rows => exact (groupsFrom_sorted (by simp [inGroup_self]) sorted mem).2

end

def copies (group : ScanSlot V n × List (ScanSlot V n)) : Nat :=
  op.cmd.copies op.all (group.2.countP op.isLeft) (group.2.countP (!op.isLeft ·))

section

variable (groups : List (ScanSlot V n × List (ScanSlot V n)))

def reference : List (ScanSlot V m) :=
  groups.flatMap fun group => replicate (op.copies group) (op.copyRow group.1)

def emitted : List (ScanSlot V n × List (ScanSlot V n)) → List (ScanSlot V m)
  | [] => []
  | group :: more =>
    replicate (if more = [] then op.copies group else min 1 (op.copies group))
      (op.copyRow group.1) ++ emitted more

/-- The node when it has read the rows of `group`. -/
def counting : SetOpState V n where
  rows := rows
  groupFirst := first
  hasGroup := true
  leftCount := group.countP op.isLeft
  rightCount := group.countP (!op.isLeft ·)

theorem countRow_counting : op.countRow row (op.counting first group rows) =
    op.counting first (group ++ [row]) rows := by
  cases side : op.isLeft row <;> simp [countRow, counting, side]

theorem startNewGroup_eq : op.startNewGroup row rows = op.counting row [row] rows :=
  op.countRow_counting row row [] rows

theorem groupsFrom_ne_nil : op.groupsFrom first group rows ≠ [] := by
  induction rows generalizing group with
  | nil => simp [groupsFrom]
  | cons row rows ih =>
    rw [groupsFrom]
    split
    · exact ih _
    · simp

theorem drain_remaining (atEnd : state.rows = []) (complete : state.hasGroup = false) :
    op.drain (state.remainingOutput + 1) state =
      some (replicate state.remainingOutput (op.copyRow state.groupFirst)) := by
  generalize left : state.remainingOutput = remaining
  induction remaining generalizing state with
  | zero => simp [drain, execProcNode, left, atEnd, complete]
  | succ remaining ih =>
    have rest := ih (op.emit state).2 atEnd complete (by simp [emit, left])
    rw [drain, execProcNode, if_pos (by omega)]
    simp only [rest]
    rfl

theorem drain_counting : ∃ fuel, op.drain fuel (op.counting first group rows) =
    some (op.emitted (op.groupsFrom first group rows)) := by
  induction rows generalizing first group with
  | nil =>
    let complete := { op.counting first group [] with
      remainingOutput := op.copies (first, group), hasGroup := false }
    have rest := op.drain_remaining complete rfl rfl
    refine ⟨op.copies (first, group) + 1, ?_⟩
    rw [drain, execProcNode] at rest ⊢
    simpa [complete, counting, groupsFrom, emitted, copies, computeOutputCount_eq] using rest
  | cons row rows ih =>
    rw [groupsFrom]
    split
    next same =>
      obtain ⟨fuel, rest⟩ := ih first (group ++ [row])
      rw [← countRow_counting] at rest
      exact ⟨fuel + 1, by simpa [drain, execProcNode, counting, same] using rest⟩
    next other =>
      obtain ⟨fuel, rest⟩ := ih row [row]
      refine ⟨fuel + 1, ?_⟩
      have stepped : op.execProcNode (op.counting first group (row :: rows)) =
          some (if 0 < op.copies (first, group) then some (op.copyRow first) else none,
            op.counting row [row] rows) := by
        rw [← startNewGroup_eq]
        simp [execProcNode, counting, other, emit, computeOutputCount_eq]
        congr
      rw [emitted, if_neg (op.groupsFrom_ne_nil row [row] rows), drain, stepped]
      simp only [rest]
      split
      next many => simp [Nat.min_eq_left many]
      next none => simp [Nat.eq_zero_of_not_pos none]

theorem emitted_sublist : (op.emitted groups).Sublist (op.reference groups) := by
  induction groups with
  | nil => exact .slnil
  | cons group more ih =>
    refine .append (replicate_sublist_replicate _ |>.2 ?_) ih
    split <;> omega

theorem emitted_eq_iff :
    op.emitted groups = op.reference groups ↔ ∀ group ∈ groups.dropLast, op.copies group ≤ 1 := by
  induction groups with
  | nil => simp [emitted, reference]
  | cons group more ih =>
    obtain _ | ⟨next, rest⟩ := more
    · simp [emitted, reference]
    rw [dropLast_cons_cons, forall_mem_cons, ← ih, emitted, if_neg (cons_ne_nil next rest),
      reference, flatMap_cons, ← reference]
    constructor
    · intro same
      have lengths := congrArg length same
      have shorter := (op.emitted_sublist (next :: rest)).length_le
      simp only [length_append, length_replicate] at lengths
      exact ⟨by omega, (op.emitted_sublist _).eq_of_length (by omega)⟩
    · rintro ⟨single, same⟩
      rw [min_eq_right single, same]

end

/-- The node returns the copies of every group iff no group but the last has
more than one. -/
theorem drains_perm_reference_iff : ∃ fuel out, op.drain fuel { rows } = some out ∧
    (out.Perm (op.reference (op.groups rows)) ↔
      ∀ group ∈ (op.groups rows).dropLast, op.copies group ≤ 1) := by
  have permutes : (op.emitted (op.groups rows)).Perm (op.reference (op.groups rows)) ↔
      op.emitted (op.groups rows) = op.reference (op.groups rows) :=
    ⟨fun perm => (op.emitted_sublist _).eq_of_length perm.length_eq, fun same => same ▸ .refl _⟩
  rw [op.emitted_eq_iff] at permutes
  obtain _ | ⟨row, rows⟩ := rows
  · exact ⟨1, _, rfl, permutes⟩
  obtain ⟨fuel, rest⟩ := op.drain_counting row [row] rows
  refine ⟨fuel + 1, _, ?_, permutes⟩
  rw [drain, execProcNode]
  simp [startNewGroup_eq, rest, groups]

/-- INTERSECT ALL of two copies on both sides, before another row. -/
theorem drain_loses_copy :
    let op : SetOp Int 2 1 := ⟨.intersect, true, [0], 2, 0, ⟨fun _ => 23, fun _ => compare⟩, id⟩
    let row value flag : ScanSlot Int 2 := fun column => some (if column = 0 then value else flag)
    let rows := [row 1 0, row 1 0, row 1 1, row 1 1, row 2 0]
    ∃ out, op.drain 8 { rows } = some out ∧ ¬ out.Perm (op.reference (op.groups rows)) := by
  refine ⟨_, rfl, fun perm => ?_⟩
  exact absurd perm.length_eq (by decide)

end SetOp

end Pgcpp.Executor
