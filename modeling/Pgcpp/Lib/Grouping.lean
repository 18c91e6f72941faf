import Mathlib.Data.List.Count
import Mathlib.Data.List.Dedup
import Mathlib.Data.List.Induction
import Mathlib.Data.List.Perm.Basic
import Mathlib.Data.Prod.Basic

/-!
# Grouping by a key

A table of groups takes one row after another: the group of the row's key is
updated, or made first.  In the end every key has one group, and its state is
that of its own rows.
-/

namespace Pgcpp.Lib

open List

universe u v w

variable {Row : Type u} {Key : Type v} {State : Type w} [DecidableEq Key]

/-- One row for the group of `key`. -/
def insertGroup (key : Key) (update : State → State) (init : State)
    (groups : List (Key × State)) : List (Key × State) :=
  if key ∈ groups.map Prod.fst then
    groups.map fun group => if group.1 = key then (group.1, update group.2) else group
  else (key, update init) :: groups

def groupRows (keyOf : Row → Key) (update : State → Row → State)
    (init : State) (rows : List Row) : List (Key × State) :=
  rows.foldl (fun groups row => insertGroup (keyOf row) (update · row) init groups) []

theorem groupRows_eq (keyOf : Row → Key) (update : State → Row → State)
    (init : State) (rows : List Row) :
    groupRows keyOf update init rows = (rows.reverse.map keyOf).dedup.map fun key =>
        (key, (rows.filter (keyOf · = key)).foldl update init) := by
  induction rows using List.reverseRecOn with
  | nil => rfl
  | append_singleton rows row ih =>
    have step : groupRows keyOf update init (rows ++ [row]) =
        insertGroup (keyOf row) (update · row) init (groupRows keyOf update init rows) := by
      rw [groupRows, foldl_append]
      rfl
    have keys : ∀ states : Key → State, (((rows.reverse.map keyOf).dedup.map fun key =>
          (key, states key)).map Prod.fst) = (rows.reverse.map keyOf).dedup := by
      intro states
      rw [map_map]
      exact map_id _
    rw [step, ih, insertGroup, keys, reverse_append, reverse_singleton, singleton_append, map_cons]
    split
    next known =>
      rw [dedup_cons_of_mem (mem_dedup.1 known), map_map]
      apply map_congr_left
      intro key _
      by_cases same : key = keyOf row
      · simp [same]
      · simp [same, Ne.symm same]
    next absent =>
      have new := mem_dedup.not.1 absent
      have none_before : rows.filter (keyOf · = keyOf row) = [] := by
        rw [filter_eq_nil_iff]
        intro other mem same
        apply new
        rw [← of_decide_eq_true same]
        exact mem_map_of_mem (mem_reverse.2 mem)
      rw [dedup_cons_of_notMem new, map_cons, filter_append, none_before]
      congr 1
      · simp
      apply map_congr_left
      intro key mem
      have other : keyOf row ≠ key := by
        rintro rfl
        exact absent mem
      simp [other]

section

variable {Out : Type*} {rows : List Row} {keyOf : Row → Key} {ofKey : Key → Out} {ofRow : Row → Out}

section

variable (agree : ∀ row ∈ rows, ofKey (keyOf row) = ofRow row)

include agree

theorem mem_map_dedup_iff :
    out ∈ (rows.map keyOf).dedup.map ofKey ↔ ∃ row ∈ rows, ofRow row = out := by
  simp only [mem_map, mem_dedup, exists_exists_and_eq_and]
  apply exists_congr
  intro row
  apply and_congr_right
  intro mem
  rw [agree row mem]

theorem nodup_map_dedup
    (distinct : ∀ row ∈ rows, ∀ other ∈ rows, ofRow row = ofRow other → keyOf row = keyOf other) :
    ((rows.map keyOf).dedup.map ofKey).Nodup := by
  apply List.Nodup.map_on _ (nodup_dedup _)
  intro _ mem other otherMember same
  obtain ⟨row, rowMember, rfl⟩ := mem_map.1 (mem_dedup.1 mem)
  obtain ⟨second, secondMember, rfl⟩ := mem_map.1 (mem_dedup.1 otherMember)
  apply distinct row rowMember second secondMember
  rw [← agree row rowMember, same, agree second secondMember]

end

end

theorem count_flatMap_keyed [DecidableEq Row] (rowsOf : Key → List Row) (keys : List Key)
    (key : Key) : (keys.flatMap fun key => (rowsOf key).map (key, ·)).count (key, row) =
      keys.count key * (rowsOf key).count row := by
  induction keys with
  | nil => simp
  | cons head keys ih =>
    rw [flatMap_cons, count_append, ih]
    by_cases same : head = key
    · subst same
      rw [count_map_of_injective _ _ (Prod.mk_right_injective head)]
      simp [Nat.add_mul, Nat.add_comm]
    · have absent : (key, row) ∉ (rowsOf head).map (head, ·) := by simp [same]
      simp [count_eq_zero_of_not_mem absent, same]

omit [DecidableEq Key] in
/-- Rows listed under their keys are the same when those of each key are. -/
theorem flatMap_keyed_perm_iff (rowsOf others : Key → List Row) (keys : List Key) :
    (keys.flatMap fun key => (rowsOf key).map (key, ·)).Perm
        (keys.flatMap fun key => (others key).map (key, ·)) ↔
      ∀ key ∈ keys, (rowsOf key).Perm (others key) := by
  classical
  constructor
  · intro perm key mem
    apply perm_iff_count.2
    intro row
    have counts := perm_iff_count.1 perm (key, row)
    rw [count_flatMap_keyed, count_flatMap_keyed] at counts
    exact Nat.eq_of_mul_eq_mul_left (count_pos_iff.2 mem) counts
  · intro perm
    exact List.Perm.flatMap_left _ fun key mem => (perm key mem).map _

end Pgcpp.Lib
