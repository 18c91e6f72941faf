import Mathlib.Data.List.Basic

/-!
# Blocks of one size

Lists cut into segments of a fixed number of elements, and files that consist of
blocks of a fixed number of bytes.
-/

namespace Pgcpp.Lib

open List

universe u

variable {α : Type u}

/-- The elements of a list that belong to a segment. -/
def segment (size : Nat) (list : List α) (index : Nat) : List α :=
  (list.drop (index * size)).take size

theorem length_segment :
    (segment size list index).length = min size (list.length - index * size) := by
  rw [segment, length_take, length_drop]

theorem segment_eq_nil (beyond : list.length ≤ index * size) : segment size list index = [] := by
  rw [segment, drop_eq_nil_of_le beyond, take_nil]

theorem getElem?_segment_div (positive : 0 < size) :
    (segment size list (pos / size))[pos % size]? = list[pos]? := by
  rw [segment, getElem?_take, getElem?_drop, if_pos (Nat.mod_lt pos positive), Nat.div_add_mod']

theorem segment_set_self : segment size (list.set position value) (position / size) =
      (segment size list (position / size)).set (position % size) value := by
  have start : position / size * size ≤ position := Nat.div_mul_le_self position size
  have place : position - position / size * size = position % size := by
    rw [Nat.mul_comm]
    exact (Nat.mod_eq_sub_mul_div).symm
  rw [segment, drop_set, if_neg (Nat.not_lt.2 start), take_set, place, segment]

theorem segment_set_of_ne (pos : 0 < size) (other : position / size ≠ index) :
    segment size (list.set position value) index = segment size list index := by
  rw [segment, drop_set]
  rcases Nat.lt_or_gt_of_ne other with before | after
  · rw [if_pos ((Nat.div_lt_iff_lt_mul pos).1 before), segment]
  have beyond : (index + 1) * size ≤ position := (Nat.le_div_iff_mul_le pos).1 after
  rw [Nat.add_mul] at beyond
  rw [if_neg (by omega), take_set, set_eq_of_length_le, segment]
  apply Nat.le_trans (length_take_le ..)
  omega

theorem segment_concat_self (pos : 0 < size) (value : α) :
    segment size (list ++ [value]) (list.length / size) =
      segment size list (list.length / size) ++ [value] := by
  have start := Nat.div_mul_le_self list.length size
  have place : list.length - list.length / size * size < size := by
    rw [Nat.mul_comm, ← Nat.mod_eq_sub_mul_div]
    exact Nat.mod_lt _ pos
  rw [segment, drop_append_of_le_length start, segment, take_of_length_le, take_of_length_le]
  · rw [length_drop]
    exact Nat.le_of_lt place
  · rw [length_append, length_drop]
    exact place

theorem segment_concat_of_ne (pos : 0 < size) (value : α) (other : list.length / size ≠ index) :
    segment size (list ++ [value]) index = segment size list index := by
  rcases Nat.lt_or_gt_of_ne other with before | after
  · have beyond := (Nat.div_lt_iff_lt_mul pos).1 before
    rw [segment_eq_nil (Nat.le_of_lt beyond), segment_eq_nil]
    rw [length_append]
    exact beyond
  have inside : (index + 1) * size ≤ list.length := (Nat.le_div_iff_mul_le pos).1 after
  rw [Nat.add_mul] at inside
  rw [segment, drop_append_of_le_length (by omega), take_append_of_le_length, segment]
  rw [length_drop]
  omega

theorem segment_take (count : Nat) : segment size (list.take count) index =
      (segment size list index).take (count - index * size) := by
  rw [segment, drop_take, take_take, segment, take_take, Nat.min_comm]

section

variable {blocks : List (List α)}

section

variable (sized : ∀ block ∈ blocks, block.length = width)

include sized

theorem length_flatten_of_sized : blocks.flatten.length = blocks.length * width := by
  rw [length_flatten, map_congr_left sized, map_const', sum_replicate_nat]

theorem take_flatten_of_sized (count : Nat) :
    blocks.flatten.take (count * width) = (blocks.take count).flatten := by
  induction blocks generalizing count with
  | nil => rw [take_nil, flatten_nil, take_nil]
  | cons first _ ih =>
    cases count with
    | zero => rw [Nat.zero_mul, take_zero, take_zero, flatten_nil]
    | succ count =>
      have length : first.length = width := sized first mem_cons_self
      have later := ih (fun block mem => sized block (mem_cons_of_mem _ mem)) count
      rw [flatten_cons, take_succ_cons, flatten_cons, Nat.add_mul, Nat.one_mul, Nat.add_comm,
        ← length, take_length_add_append, length, later]

theorem drop_flatten_of_sized (count : Nat) :
    blocks.flatten.drop (count * width) = (blocks.drop count).flatten := by
  have whole : blocks.flatten.take (count * width) ++ blocks.flatten.drop (count * width) =
      (blocks.take count).flatten ++ (blocks.drop count).flatten := by
    rw [take_append_drop, ← flatten_append, take_append_drop]
  rw [take_flatten_of_sized sized] at whole
  exact append_cancel_left whole

theorem slice_flatten_of_sized (found : blocks[index]? = some block) :
    (blocks.flatten.drop (index * width)).take width = block := by
  obtain ⟨bound, value⟩ := List.getElem?_eq_some_iff.1 found
  have length : block.length = width := sized block (mem_of_getElem? found)
  rw [drop_flatten_of_sized sized, drop_eq_getElem_cons bound, value,
    flatten_cons, ← length, take_left]

theorem flatten_set_of_sized (bound : index < blocks.length) :
    blocks.flatten.take (index * width) ++ (block ++ blocks.flatten.drop (index * width + width)) =
      (blocks.set index block).flatten := by
  have next : index * width + width = (index + 1) * width := by rw [Nat.add_mul, Nat.one_mul]
  rw [next, take_flatten_of_sized sized, drop_flatten_of_sized sized, set_eq_take_append_cons_drop,
    if_pos bound, flatten_append, flatten_cons]

end

end

end Pgcpp.Lib
