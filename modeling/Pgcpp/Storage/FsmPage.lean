import Mathlib.Data.Int.ConditionallyCompleteOrder
import Mathlib.Order.ConditionallyCompleteLattice.Basic
import Mathlib.Order.Interval.Finset.Fin

/-!
# A page of the free space map

The leaves of a binary tree in an array have the free space of the slots, and
every other node has the larger value of its children.  The leaves are on two
levels, since their number is no power of two.
-/

namespace Pgcpp.Storage

open Function

def kFsmLeafNodesPerPage : Nat := 162

def kFsmNodesPerPage : Nat := 2 * kFsmLeafNodesPerPage - 1

structure FSMPageData where
  nodes : Nat → Fin 256
  fpNextSlot : Int

def nodeIndexFromSlot (slot : Nat) : Nat := kFsmLeafNodesPerPage - 1 + slot

def nodeValue (nodes : Nat → Fin 256) (index : Nat) : Fin 256 :=
  if index < kFsmNodesPerPage then nodes index else 0

def maxOfChildren (nodes : Nat → Fin 256) (index : Nat) : Fin 256 :=
  if kFsmNodesPerPage ≤ 2 * index + 1 then 0
  else max (nodes (2 * index + 1)) (nodeValue nodes (2 * index + 2))

/-- The loop of `PropagateUp`. -/
def propagateUp (nodes : Nat → Fin 256) (node : Nat) : Nat → Fin 256 :=
  if node = 0 then nodes
  else
    propagateUp (update nodes ((node - 1) / 2) (maxOfChildren nodes ((node - 1) / 2)))
      ((node - 1) / 2)
termination_by node
decreasing_by omega

def fsmPageInit : FSMPageData := { nodes := fun _ => 0, fpNextSlot := 0 }

variable (page : FSMPageData)

def fsmPageGetFreeSpace : Fin 256 := page.nodes 0

def fsmPageGetSlot (slot : Int) : Fin 256 :=
  if slot < 0 ∨ kFsmLeafNodesPerPage ≤ slot then 0
  else page.nodes (nodeIndexFromSlot slot.toNat)

def fsmPageSetFreeSpace (slot : Int) (value : Fin 256) : FSMPageData :=
  if slot < 0 ∨ kFsmLeafNodesPerPage ≤ slot then page
  else
    let node := nodeIndexFromSlot slot.toNat
    { page with nodes := propagateUp (update page.nodes node value) node }

/-- The loop of `FSMPageSearchFreeSpace`. -/
def searchFrom (nodes : Nat → Fin 256) (minValue : Fin 256) (node : Nat) : Option Nat :=
  if node < kFsmLeafNodesPerPage - 1 then
    let lv := nodeValue nodes (2 * node + 1)
    let rv := nodeValue nodes (2 * node + 2)
    if minValue ≤ lv ∧ rv ≤ lv then searchFrom nodes minValue (2 * node + 1)
    else if minValue ≤ rv then searchFrom nodes minValue (2 * node + 2)
    else none
  else some node
termination_by kFsmNodesPerPage - node
decreasing_by all_goals (simp only [kFsmNodesPerPage, kFsmLeafNodesPerPage] at *; omega)

def fsmPageSearchFreeSpace (minValue : Fin 256) : FSMPageData × Int :=
  if page.nodes 0 < minValue then (page, -1)
  else
    match searchFrom page.nodes minValue 0 with
    | none => (page, -1)
    | some node =>
      let slot : Int := node - (kFsmLeafNodesPerPage - 1)
      ({ page with fpNextSlot := slot }, slot)

def fsmPageSetAll (calls : List (Int × Fin 256)) : FSMPageData :=
  calls.foldl (fun page call => fsmPageSetFreeSpace page call.1 call.2) page

/-- The leaf is below the node, or is the node. -/
inductive LeafBelow : Nat → Nat → Prop where
  | self : 161 ≤ node → node < 323 → LeafBelow node node
  | left : node < 161 → LeafBelow (2 * node + 1) leaf → LeafBelow node leaf
  | right : node < 161 → LeafBelow (2 * node + 2) leaf → LeafBelow node leaf

/-- A node has the larger value of its children. -/
def Balanced (nodes : Nat → Fin 256) (node : Nat) : Prop :=
  node < 161 → nodes node = max (nodes (2 * node + 1)) (nodes (2 * node + 2))

theorem nodeValue_eq (inside : node < 323) : nodeValue nodes node = nodes node := if_pos inside

theorem maxOfChildren_eq (inner : node < 161) :
    maxOfChildren nodes node = max (nodes (2 * node + 1)) (nodes (2 * node + 2)) := by
  rw [maxOfChildren, nodeValue_eq (by omega)]
  exact if_neg (show ¬323 ≤ 2 * node + 1 by omega)

/-- Behind the loop the nodes have the values of their children, if only the
parent of the first node may have had another one. -/
theorem propagateUp_balanced (nodes : Nat → Fin 256) (inside : node < 323)
    (others : ∀ other, node = 0 ∨ other ≠ (node - 1) / 2 → Balanced nodes other) :
    ∀ other, Balanced (propagateUp nodes node) other := by
  induction node using Nat.strong_induction_on generalizing nodes with
  | h node ih =>
    rw [propagateUp]
    split_ifs with isRoot
    · intro other
      exact others other (.inl isRoot)
    · apply ih _ (by omega) _ (by omega)
      intro other _ inner
      by_cases same : other = (node - 1) / 2
      · rw [same, update_self, maxOfChildren_eq (by omega), update_of_ne (by omega),
          update_of_ne (by omega)]
      · rw [update_of_ne same, update_of_ne (by omega), update_of_ne (by omega)]
        exact others other (.inr same) inner

theorem LeafBelow.bounds (below : LeafBelow node leaf) : 161 ≤ leaf ∧ leaf < 323 := by
  induction below with
  | self low high => exact ⟨low, high⟩
  | left _ _ ih => exact ih
  | right _ _ ih => exact ih

theorem LeafBelow.root (below : LeafBelow node leaf) : LeafBelow 0 leaf := by
  induction node using Nat.strong_induction_on with
  | h node ih =>
    by_cases isRoot : node = 0
    · rwa [isRoot] at below
    apply ih ((node - 1) / 2) (by omega)
    have inside : node < 323 := by
      cases below <;> omega
    rcases Nat.mod_two_eq_zero_or_one node with _ | _
    · apply LeafBelow.right (by omega)
      rwa [show 2 * ((node - 1) / 2) + 2 = node by omega]
    · apply LeafBelow.left (by omega)
      rwa [show 2 * ((node - 1) / 2) + 1 = node by omega]

section Search

variable {nodes : Nat → Fin 256} (balanced : ∀ node, Balanced nodes node)

include balanced

theorem LeafBelow.le (below : LeafBelow node leaf) : nodes leaf ≤ nodes node := by
  induction below with
  | self => exact le_rfl
  | left inner _ ih =>
    rw [balanced _ inner]
    exact le_max_of_le_left ih
  | right inner _ ih =>
    rw [balanced _ inner]
    exact le_max_of_le_right ih

/-- A search below a node that has the space does not fail: one of the children
has it too. -/
theorem searchFrom_finds (inside : node < 323) (enough : minValue ≤ nodes node) :
    ∃ leaf, searchFrom nodes minValue node = some leaf ∧ LeafBelow node leaf ∧
      minValue ≤ nodes leaf := by
  induction gap : 323 - node using Nat.strong_induction_on generalizing node with
  | h gap ih =>
    rw [searchFrom]
    by_cases inner : node < 161
    · have either := enough
      rw [balanced node inner, le_max_iff] at either
      rw [if_pos (show node < kFsmLeafNodesPerPage - 1 from inner), nodeValue_eq (by omega),
        nodeValue_eq (by omega)]
      dsimp only
      split_ifs with toLeft toRight
      · obtain ⟨leaf, found, below, large⟩ := ih _ (by omega) (by omega) toLeft.1 rfl
        exact ⟨leaf, found, .left inner below, large⟩
      · obtain ⟨leaf, found, below, large⟩ := ih _ (by omega) (by omega) toRight rfl
        exact ⟨leaf, found, .right inner below, large⟩
      · have onLeft := either.resolve_right toRight
        exact absurd ⟨onLeft, (not_le.1 toRight).le.trans onLeft⟩ toLeft
    · rw [if_neg (by exact inner)]
      exact ⟨node, rfl, .self (by omega) inside, enough⟩

theorem isGreatest_leaves (inside : node < 323) :
    IsGreatest {value | ∃ leaf, LeafBelow node leaf ∧ nodes leaf = value} (nodes node) := by
  constructor
  · obtain ⟨leaf, _, below, large⟩ := searchFrom_finds balanced inside le_rfl
    exact ⟨leaf, below, (below.le balanced).antisymm large⟩
  · rintro _ ⟨leaf, below, rfl⟩
    exact below.le balanced

end Search

theorem fsmPageGetSlot_leaf (page : FSMPageData) (below : LeafBelow 0 leaf) :
    (leaf - 161 : Int) ∈ Set.Ico 0 162 ∧ fsmPageGetSlot page (leaf - 161) = page.nodes leaf := by
  have bounds := below.bounds
  unfold fsmPageGetSlot nodeIndexFromSlot kFsmLeafNodesPerPage
  rw [if_neg (by omega), show 162 - 1 + (leaf - 161 : Int).toNat = leaf by omega]
  exact ⟨⟨by omega, by omega⟩, rfl⟩

section

variable (page : FSMPageData) (balanced : ∀ node, Balanced page.nodes node)

include balanced

theorem fsmPageSetFreeSpace_balanced :
    ∀ node, Balanced (fsmPageSetFreeSpace page slot value).nodes node := by
  unfold fsmPageSetFreeSpace
  split_ifs with outside
  · exact balanced
  · simp only [nodeIndexFromSlot, kFsmLeafNodesPerPage] at outside ⊢
    apply propagateUp_balanced _ (by omega)
    intro node _ inner
    rw [update_of_ne (by omega), update_of_ne (by omega), update_of_ne (by omega)]
    exact balanced node inner

theorem fsmPageSetAll_balanced : ∀ node, Balanced (fsmPageSetAll page calls).nodes node := by
  induction calls generalizing page with
  | nil => exact balanced
  | cons _ calls ih => exact ih _ (fsmPageSetFreeSpace_balanced page balanced)

theorem fsmPageGetSlot_le_root : fsmPageGetSlot page slot ≤ page.nodes 0 := by
  unfold fsmPageGetSlot
  split_ifs with outside
  · exact Fin.zero_le _
  · apply LeafBelow.le balanced
    simp only [nodeIndexFromSlot, kFsmLeafNodesPerPage] at outside ⊢
    exact LeafBelow.root (.self (by omega) (by omega))

end

theorem fsmPageSearch_complete (calls : List (Int × Fin 256)) (minValue : Fin 256) :
    let page := fsmPageSetAll fsmPageInit calls
    let found := fsmPageSearchFreeSpace page minValue
    (∀ node < 161, IsGreatest {value | ∃ leaf, LeafBelow node leaf ∧ page.nodes leaf = value}
      (page.nodes node)) ∧
    IsGreatest {value | ∃ slot ∈ Set.Ico (0 : Int) 162, fsmPageGetSlot page slot = value}
      (fsmPageGetFreeSpace page) ∧
    ((∃ slot, minValue ≤ fsmPageGetSlot page slot) →
      found.2 ∈ Set.Ico 0 162 ∧ minValue ≤ fsmPageGetSlot page found.2) ∧
    ((¬∃ slot, minValue ≤ fsmPageGetSlot page slot) → found.2 = -1) ∧
    found.1.nodes = page.nodes := by
  intro page found
  have balanced : ∀ node, Balanced page.nodes node := fsmPageSetAll_balanced _ fun _ _ => rfl
  obtain ⟨⟨_, topBelow, topValue⟩, -⟩ := isGreatest_leaves balanced (by omega : 0 < 323)
  obtain ⟨topSlot, topGets⟩ := fsmPageGetSlot_leaf page topBelow
  refine ⟨fun node _ => isGreatest_leaves balanced (by omega),
    ⟨⟨_, topSlot, topGets.trans topValue⟩, ?_⟩, ?_, ?_, ?_⟩
  · rintro _ ⟨slot, _, rfl⟩
    exact fsmPageGetSlot_le_root page balanced
  · rintro ⟨slot, enough⟩
    have atRoot := enough.trans (fsmPageGetSlot_le_root page balanced)
    obtain ⟨leaf, search, below, large⟩ := searchFrom_finds balanced (by omega) atRoot
    have result : found.2 = leaf - 161 := by
      simp only [found, fsmPageSearchFreeSpace, if_neg (not_lt.2 atRoot), search]
      rfl
    obtain ⟨inside, gets⟩ := fsmPageGetSlot_leaf page below
    rw [result, gets]
    exact ⟨inside, large⟩
  · intro none
    have low : page.nodes 0 < minValue := by
      apply lt_of_not_ge
      intro enough
      exact none ⟨_, enough.trans (topGets.trans topValue).ge⟩
    simp [found, fsmPageSearchFreeSpace, if_pos low]
  · simp only [found, fsmPageSearchFreeSpace]
    split_ifs
    · rfl
    · split <;> rfl

end Pgcpp.Storage
