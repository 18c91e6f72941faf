import Mathlib.Data.List.Nodup

/-!
# Lists threaded through an array

Every node stores its successor, and the list ends where there is none.  A list
that ends visits no node twice.
-/

namespace Pgcpp.Lib

/-- Following `next` from `head` visits `nodes` and ends. -/
inductive ChainFrom (next : Nat → Option Nat) : Option Nat → List Nat → Prop where
  | nil : ChainFrom next none []
  | cons (later : ChainFrom next (next node) rest) :
      ChainFrom next (some node) (node :: rest)

namespace ChainFrom

variable {next other : Nat → Option Nat}

theorem congr (chain : ChainFrom next head nodes) (same : ∀ node ∈ nodes, other node = next node) :
    ChainFrom other head nodes := by
  induction chain with
  | nil => exact .nil
  | @cons node _ _ ih =>
    apply ChainFrom.cons
    rw [same node (by simp)]
    apply ih
    intro later mem
    exact same later (List.mem_cons_of_mem _ mem)

theorem push (chain : ChainFrom next head nodes) (linked : other node = head)
    (same : ∀ later ∈ nodes, other later = next later) :
    ChainFrom other (some node) (node :: nodes) := by
  apply ChainFrom.cons
  rw [linked]
  exact chain.congr same

theorem unique (chain : ChainFrom next head left)
    (again : ChainFrom next head right) : left = right := by
  induction chain generalizing right with
  | nil =>
    cases again
    rfl
  | cons _ ih =>
    cases again with
    | cons later => rw [ih later]

theorem of_append (chain : ChainFrom next head (before ++ node :: after)) :
    ChainFrom next (some node) (node :: after) := by
  induction before generalizing head with
  | nil =>
    cases chain with
    | cons later => exact .cons later
  | cons _ _ ih =>
    cases chain with
    | cons later => exact ih later

theorem concat (chain : ChainFrom next head (front ++ [last])) (linked : other last = some new)
    (isEnd : other new = none) (same : ∀ node ∈ front, other node = next node) :
    ChainFrom other head (front ++ [last, new]) := by
  induction front generalizing head with
  | nil =>
    cases chain with
    | cons later =>
      apply ChainFrom.cons
      rw [linked]
      apply ChainFrom.cons
      rw [isEnd]
      exact .nil
  | cons first _ ih =>
    cases chain with
    | cons later =>
      apply ChainFrom.cons
      rw [same first List.mem_cons_self]
      apply ih later
      intro node mem
      exact same node (List.mem_cons_of_mem _ mem)

theorem nodup (chain : ChainFrom next head nodes) : nodes.Nodup := by
  induction chain with
  | nil => exact List.nodup_nil
  | @cons _ _ later ih =>
    rw [List.nodup_cons]
    refine ⟨?_, ih⟩
    intro mem
    obtain ⟨_, _, rfl⟩ := List.append_of_mem mem
    have same := (ChainFrom.cons later).unique later.of_append
    have longer := congrArg List.length same
    simp only [List.length_cons, List.length_append] at longer
    omega

end ChainFrom

end Pgcpp.Lib
