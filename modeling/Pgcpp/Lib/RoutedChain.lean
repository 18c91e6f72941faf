import Pgcpp.Lib.KeyedList

/-!
# Routed chains

A chain of leaves with a routing table: every leaf is named by a block, and a
route sends the keys from its separator on to a block.  A key goes to the last
route that is not beyond it.  Insertion goes to one leaf, which is split in the
middle when it is full; the new leaf follows the old one in the chain, and its
least key becomes a separator.

In an ordered chain every leaf lies between its separator and the next one.
Insertion keeps a chain ordered as long as no split separates equal keys.
-/

namespace Pgcpp.Lib

open Std.TransCmp Prod
open List hiding after count head

variable {β α κ : Type}

/-- The leaves in chain order and the routes beyond the first leaf. -/
structure RoutedChain (β α κ : Type) where
  first : β
  routes : List (β × κ)
  leaves : List (β × List α)

variable (cmp : κ → κ → Ordering)

/-- The last block whose separator is not beyond `key`; the search ends at the
first separator that is. -/
def route (cmp : κ → κ → Ordering) (key : κ) (first : β) : List (β × κ) → β
  | [] => first
  | (child, separator) :: rest =>
    if cmp key separator = .lt then first else route cmp key child rest

/-- Add a route before the first one whose separator is not smaller. -/
def insertRoute (entry : β × κ) (routes : List (β × κ)) : List (β × κ) :=
  insertSorted cmp snd entry routes

section

variable [DecidableEq β]

def itemsAt (block : β) : List (β × List α) → List α
  | [] => []
  | leaf :: rest => if leaf.1 = block then leaf.2 else itemsAt block rest

/-- Put `parts` in the place of the leaf `block`. -/
def replaceLeaf (block : β) (parts : List (β × List α)) : List (β × List α) → List (β × List α)
  | [] => []
  | leaf :: rest => if leaf.1 = block then parts ++ rest else leaf :: replaceLeaf block parts rest

end

namespace RoutedChain

variable [DecidableEq β] (cmp : κ → κ → Ordering) (keyOf : α → κ)

section

variable (chain : RoutedChain β α κ)

def contents : List α := chain.leaves.flatMap snd

def target (key : κ) : β := route cmp key chain.first chain.routes

/-- The items of the leaf an item goes to, with the item. -/
def grown (item : α) : List α :=
  insertSorted cmp keyOf item (itemsAt (chain.target cmp (keyOf item)) chain.leaves)

/-- Insertion into a leaf that has room. -/
def place (item : α) : RoutedChain β α κ :=
  let block := chain.target cmp (keyOf item)
  { chain with
    leaves := replaceLeaf block [(block, chain.grown cmp keyOf item)] chain.leaves }

/-- Insertion into a full leaf: `left` stays, `head :: right` goes to the block
`fresh`; `routed` tells whether the routing table has room. -/
def split (item : α) (fresh : β) (routed : Bool) (left : List α) (head : α) (right : List α) :
    RoutedChain β α κ :=
  let block := chain.target cmp (keyOf item)
  { first := chain.first
    routes :=
      if routed then insertRoute cmp (fresh, keyOf head) chain.routes else chain.routes
    leaves := replaceLeaf block [(block, left), (fresh, head :: right)] chain.leaves }

end

end RoutedChain

/-! ## Connected chains -/

theorem route_mem (key : κ) (first : β) (routes : List (β × κ)) :
    route cmp key first routes ∈ first :: routes.map fst := by
  induction routes generalizing first with
  | nil => simp [route]
  | cons entry _ ih =>
    obtain ⟨child, _⟩ := entry
    unfold route
    split
    · simp
    · have later := ih child
      exact mem_cons_of_mem _ later

/-- The chain starts at the first block, names its leaves apart, and routes to
leaves only. -/
structure RoutedChain.Connected (chain : RoutedChain β α κ) : Prop where
  start : ∃ items rest, chain.leaves = (chain.first, items) :: rest
  distinct : (chain.leaves.map fst).Nodup
  routed : ∀ entry ∈ chain.routes, entry.1 ∈ chain.leaves.map fst

theorem RoutedChain.Connected.target_mem {cmp : κ → κ → Ordering}
    {chain : RoutedChain β α κ} (connected : chain.Connected) (key : κ) :
    chain.target cmp key ∈ chain.leaves.map fst := by
  obtain ⟨_, _, start⟩ := connected.start
  have mem := route_mem cmp key chain.first chain.routes
  rcases mem_cons.1 mem with same | later
  · rw [target, same, start]
    simp
  obtain ⟨entry, listed, same⟩ := mem_map.1 later
  rw [target, ← same]
  exact connected.routed entry listed

section

variable [DecidableEq β]

theorem exists_leaf {leaves : List (β × List α)} (present : block ∈ leaves.map fst) :
    ∃ before after, leaves = before ++ (block, itemsAt block leaves) :: after ∧
      block ∉ before.map fst ∧
      ∀ parts, replaceLeaf block parts leaves = before ++ (parts ++ after) := by
  induction leaves with
  | nil => simp at present
  | cons leaf rest ih =>
    by_cases here : leaf.1 = block
    · refine ⟨[], rest, ?_, by simp, ?_⟩
      · obtain ⟨_, _⟩ := leaf
        simp only at here
        simp [itemsAt, here]
      · intro parts
        simp [replaceLeaf, here]
    have later : block ∈ rest.map fst := by
      rw [map_cons, mem_cons] at present
      exact present.resolve_left fun same => here same.symm
    obtain ⟨before, after, shape, absent, replaced⟩ := ih later
    refine ⟨leaf :: before, after, ?_, ?_, ?_⟩
    · rw [itemsAt, if_neg here, cons_append, ← shape]
    · rw [map_cons, mem_cons, not_or]
      exact ⟨fun same => here same.symm, absent⟩
    · intro parts
      simp [replaceLeaf, here, replaced parts]

theorem itemsAt_sublist (block : β) (leaves : List (β × List α)) :
    (itemsAt block leaves).Sublist (leaves.flatMap snd) := by
  induction leaves with
  | nil => exact List.Sublist.slnil
  | cons _ _ ih =>
    unfold itemsAt
    split
    · exact sublist_append_left ..
    · exact ih.trans (sublist_append_right ..)

namespace RoutedChain

variable {chain : RoutedChain β α κ}

/-- Both kinds of insertion put parts with distinct fresh names in the place of
one leaf. -/
theorem Connected.replace (connected : chain.Connected)
    (present : block ∈ chain.leaves.map fst)
    {routes : List (β × κ)} (apart : (others.map fst).Nodup)
    (fresh : ∀ name ∈ others.map fst, name ∉ chain.leaves.map fst)
    (routed : ∀ entry ∈ routes, entry ∈ chain.routes ∨ entry.1 ∈ others.map fst) : Connected
      { first := chain.first, routes := routes
        leaves := replaceLeaf block ((block, items) :: others) chain.leaves } := by
  obtain ⟨before, after, shape, _, replaced⟩ := exists_leaf present
  have names : (replaceLeaf block ((block, items) :: others) chain.leaves).map fst =
      before.map fst ++ block :: (others.map fst ++ after.map fst) := by
    rw [replaced]
    simp
  have distinct := connected.distinct
  constructor
  case start =>
    obtain ⟨firstItems, _, start⟩ := connected.start
    simp only [replaced]
    cases before with
    | nil =>
      rw [shape] at start
      obtain ⟨same, _⟩ := List.cons.inj start
      obtain ⟨sameBlock, _⟩ := Prod.mk.inj same
      exact ⟨items, others ++ after, by simp [sameBlock]⟩
    | cons _ before =>
      rw [shape] at start
      obtain ⟨same, _⟩ := List.cons.inj start
      exact ⟨firstItems, before ++ ((block, items) :: others ++ after), by
        rw [same]; rfl⟩
  case distinct => grind
  case routed =>
    intro entry mem
    rcases routed entry mem with old | _
    · have listed := connected.routed entry old
      grind
    · grind

theorem contents_replace (present : block ∈ chain.leaves.map fst)
    (grown : (parts.flatMap snd).Perm (item :: itemsAt block chain.leaves)) :
    ((replaceLeaf block parts chain.leaves).flatMap snd).Perm (item :: chain.contents) := by
  obtain ⟨before, after, shape, _, replaced⟩ := exists_leaf present
  have old : chain.contents = before.flatMap snd ++
      (itemsAt block chain.leaves ++ after.flatMap snd) := by
    rw [contents]
    conv_lhs => rw [shape]
    simp
  rw [replaced, old]
  simp only [flatMap_append]
  have replacedParts := (grown.append_right (after.flatMap snd)).append_left (before.flatMap snd)
  exact replacedParts.trans perm_middle

variable {cmp : κ → κ → Ordering} {keyOf : α → κ}

theorem grown_perm : (chain.grown cmp keyOf item).Perm
      (item :: itemsAt (chain.target cmp (keyOf item)) chain.leaves) :=
  insertSorted_perm

section

variable (connected : chain.Connected)

include connected

theorem Connected.place (item : α) : (chain.place cmp keyOf item).Connected := by
  apply connected.replace (connected.target_mem (keyOf item))
  · exact nodup_nil
  · simp
  · intro _ mem
    exact .inl mem

theorem Connected.split (item : α) (unused : fresh ∉ chain.leaves.map fst) (routed : Bool)
    (left : List α) (head : α) (right : List α) :
    (chain.split cmp keyOf item fresh routed left head right).Connected := by
  apply connected.replace (connected.target_mem (keyOf item))
  · simp
  · simpa using unused
  intro _ mem
  cases routed with
  | false => exact .inl mem
  | true =>
    rcases mem_insertSorted.1 mem with rfl | old
    · exact .inr (by simp)
    · exact .inl old

theorem contents_place : (chain.place cmp keyOf item).contents.Perm (item :: chain.contents) := by
  apply contents_replace (connected.target_mem (keyOf item))
  simpa using grown_perm

theorem contents_split (parts : left ++ head :: right = chain.grown cmp keyOf item) :
    (chain.split cmp keyOf item fresh routed left head right).contents.Perm
      (item :: chain.contents) := by
  apply contents_replace (connected.target_mem (keyOf item))
  simpa [parts] using grown_perm

end

end RoutedChain

end

/-! ## Ordered chains -/

/-- A lower bound, absent at the left end. -/
def Above (lower : Option κ) (key : κ) : Prop :=
  ∀ bound ∈ lower, (cmp bound key).isLE

/-- The leaves from `first` on are sorted, the routes lead to them in order,
and each leaf lies between its separator and the next one. -/
inductive Ordered (cmp : κ → κ → Ordering) (keyOf : α → κ) :
    Option κ → β → List (β × List α) → List (β × κ) → Prop where
  | last {lower : Option κ} {block : β} {items : List α}
      (sorted : items.Pairwise (KeyLe cmp keyOf))
      (above : ∀ item ∈ items, Above cmp lower (keyOf item)) :
      Ordered cmp keyOf lower block [(block, items)] []
  | more {lower : Option κ} {block child : β} {items : List α}
      {separator : κ} {leaves : List (β × List α)} {routes : List (β × κ)}
      (sorted : items.Pairwise (KeyLe cmp keyOf))
      (above : ∀ item ∈ items, Above cmp lower (keyOf item))
      (below : ∀ item ∈ items, cmp (keyOf item) separator = .lt)
      (increasing : ∀ bound ∈ lower, cmp bound separator = .lt)
      (rest : Ordered cmp keyOf (some separator) child leaves routes) :
      Ordered cmp keyOf lower block ((block, items) :: leaves) ((child, separator) :: routes)

namespace Ordered

variable {cmp : κ → κ → Ordering} {keyOf : α → κ} {lower : Option κ}
  {first : β} {leaves : List (β × List α)} {routes : List (β × κ)}

section

variable (ordered : Ordered cmp keyOf lower first leaves routes)

include ordered

/-- The chain visits the routed blocks in the order of their routes. -/
theorem blocks : leaves.map fst = first :: routes.map fst := by
  induction ordered with
  | last => rfl
  | more _ _ _ _ _ ih => simp [ih]

theorem ne_route (absent : block ∉ leaves.map fst) (key : κ) :
    block ≠ route cmp key first routes := by
  intro same
  apply absent
  rw [ordered.blocks]
  exact same ▸ route_mem cmp key first routes

end

theorem forall_parts {P : α → Prop}
    (parts : left ++ head :: right = insertSorted cmp keyOf item items)
    (here : P item) (rest : ∀ other ∈ items, P other) :
    (∀ other ∈ left, P other) ∧ ∀ other ∈ head :: right, P other := by
  apply forall_mem_append.1
  intro other mem
  rw [parts] at mem
  rcases mem_insertSorted.1 mem with rfl | old
  · exact here
  · exact rest other old

variable [Std.TransCmp cmp]

section

variable (ordered : Ordered cmp keyOf lower first leaves routes)

include ordered

theorem contents_above : ∀ item ∈ leaves.flatMap snd, Above cmp lower (keyOf item) := by
  induction ordered with
  | last _ above => simpa using above
  | @more lower _ _ _ separator _ _ _ above _ increasing _ ih =>
    intro item mem
    rw [flatMap_cons, mem_append] at mem
    rcases mem with here | later
    · exact above item here
    intro bound isLower
    have beyond := ih item later separator rfl
    exact isLE_of_lt (lt_of_lt_of_isLE (increasing bound isLower) beyond)

theorem contents_sorted : (leaves.flatMap snd).Pairwise (KeyLe cmp keyOf) := by
  induction ordered with
  | last sorted => simpa using sorted
  | @more _ _ _ _ separator _ _ sorted _ below _ rest ih =>
    rw [flatMap_cons, pairwise_append]
    refine ⟨sorted, ih, ?_⟩
    intro left leftHere right rightLater
    have beyond := rest.contents_above right rightLater separator rfl
    exact isLE_of_lt (lt_of_lt_of_isLE (below left leftHere) beyond)

theorem before_route :
    ∃ before items after, leaves = before ++ (route cmp key first routes, items) :: after ∧
      ∀ item ∈ before.flatMap snd, cmp (keyOf item) key = .lt := by
  induction ordered with
  | @last _ block items => exact ⟨[], items, [], by simp [route], by simp⟩
  | @more _ block _ items _ leaves routes _ _ below _ _ ih =>
      unfold route
      split
      · exact ⟨[], items, leaves, rfl, by simp⟩
      next notLess =>
        obtain ⟨before, found, after, shape, smaller⟩ := ih
        refine ⟨(block, items) :: before, found, after, ?_, ?_⟩
        · rw [shape]
          rfl
        intro item mem
        rw [flatMap_cons, mem_append] at mem
        rcases mem with here | later
        · exact lt_of_lt_of_isLE (below item here) (isLE_of_not_lt notLess)
        · exact smaller item later

theorem lower_lt_separator : ∀ entry ∈ routes, ∀ bound ∈ lower, cmp bound entry.2 = .lt := by
  induction ordered with
  | last => simp
  | @more _ _ _ _ separator _ _ _ _ _ increasing _ ih =>
    intro entry mem bound isLower
    rcases mem_cons.1 mem with rfl | later
    · exact increasing bound isLower
    · exact lt_trans (increasing bound isLower) (ih entry later separator rfl)

/-- A separator is not above the keys of its leaf and strictly above the keys
of all leaves before it. -/
theorem separator_bounds (found : routes[pos]? = some (child, separator)) :
    ∃ before items after, leaves = before ++ (child, items) :: after ∧ before.length = pos + 1 ∧
      (∀ item ∈ before.flatMap snd, cmp (keyOf item) separator = .lt) ∧
      ∀ item ∈ items, (cmp separator (keyOf item)).isLE := by
  induction ordered generalizing pos with
  | last => simp at found
  | @more _ block next items bound leaves routes _ _ below _ rest ih =>
    cases pos with
    | zero =>
      obtain ⟨rfl, rfl⟩ : next = child ∧ bound = separator := by
        simpa using found
      cases rest with
      | last _ above =>
        refine ⟨[(block, items)], _, [], rfl, rfl, ?_, ?_⟩
        · simpa using below
        · intro item mem
          exact above item mem bound rfl
      | more _ above =>
        refine ⟨[(block, items)], _, _, rfl, rfl, ?_, ?_⟩
        · simpa using below
        · intro item mem
          exact above item mem bound rfl
    | succ pos =>
      have later : routes[pos]? = some (child, separator) := by simpa using found
      obtain ⟨before, childItems, after, shape, count, smaller, above⟩ := ih later
      refine ⟨(block, items) :: before, childItems, after, ?_, ?_, ?_, above⟩
      · rw [shape]
        rfl
      · simp [count]
      intro item mem
      rw [flatMap_cons, mem_append] at mem
      rcases mem with here | there
      · have beyond := rest.lower_lt_separator _ (mem_of_getElem? later) bound rfl
        exact lt_trans (below item here) beyond
      · exact smaller item there

end

theorem clean_of_last {last head : α}
    (sorted : ((front ++ [last]) ++ head :: right).Pairwise (KeyLe cmp keyOf))
    (apart : cmp (keyOf last) (keyOf head) ≠ .eq) :
    ∀ other ∈ front ++ [last], cmp (keyOf other) (keyOf head) = .lt := by
  obtain ⟨sortedLeft, _, across⟩ := pairwise_append.1 sorted
  have lastBelow : cmp (keyOf last) (keyOf head) = .lt := by
    have le : (cmp (keyOf last) (keyOf head)).isLE := across last (by simp) head (by simp)
    exact lt_of_isLE_of_ne le apart
  intro other mem
  rcases mem_append.1 mem with inFront | isLast
  · have le := (pairwise_append.1 sortedLeft).2.2 other inFront last (by simp)
    exact lt_of_isLE_of_lt le lastBelow
  · obtain rfl : other = last := by simpa using isLast
    exact lastBelow

variable [DecidableEq β]

theorem place (ordered : Ordered cmp keyOf lower first leaves routes)
    (distinct : (leaves.map fst).Nodup) (above : Above cmp lower (keyOf item)) :
    Ordered cmp keyOf lower first (replaceLeaf (route cmp (keyOf item) first routes)
        [(route cmp (keyOf item) first routes, insertSorted cmp keyOf item
          (itemsAt (route cmp (keyOf item) first routes) leaves))] leaves) routes := by
  induction ordered with
  | @last lower block items sorted bounded =>
    simp only [route, replaceLeaf, itemsAt]
    apply Ordered.last (insertSorted_pairwise sorted item)
    intro other mem
    rcases mem_insertSorted.1 mem with rfl | old
    · exact above
    · exact bounded other old
  | @more lower block child items separator leaves routes sorted bounded
      below increasing rest ih =>
      unfold route
      split
      · next less =>
          simp only [replaceLeaf, itemsAt]
          apply Ordered.more (insertSorted_pairwise sorted item) _ _ increasing rest
          · intro other mem
            rcases mem_insertSorted.1 mem with rfl | old
            · exact above
            · exact bounded other old
          · intro other mem
            rcases mem_insertSorted.1 mem with rfl | old
            · exact less
            · exact below other old
      · next notLess =>
          obtain ⟨absent, distinctRest⟩ := nodup_cons.1 distinct
          have elsewhere := rest.ne_route absent (keyOf item)
          simp only [replaceLeaf, itemsAt, if_neg elsewhere]
          apply Ordered.more sorted bounded below increasing
          apply ih distinctRest
          intro bound isLower
          obtain rfl : separator = bound := by simpa using isLower
          exact isLE_of_not_lt notLess

/-- The parts of a leaf split at `head` are sorted, and the second is above
its first key. -/
theorem sorted_parts (sorted : items.Pairwise (KeyLe cmp keyOf))
    (parts : left ++ head :: right = insertSorted cmp keyOf item items) :
    left.Pairwise (KeyLe cmp keyOf) ∧ (head :: right).Pairwise (KeyLe cmp keyOf) ∧
      ∀ other ∈ head :: right, Above cmp (some (keyOf head)) (keyOf other) := by
  have whole := insertSorted_pairwise sorted item
  rw [← parts, pairwise_append] at whole
  refine ⟨whole.1, whole.2.1, ?_⟩
  intro other mem bound isHead
  obtain rfl : keyOf head = bound := by simpa using isHead
  rcases mem_cons.1 mem with rfl | later
  · exact Std.ReflCmp.isLE_rfl
  · exact (pairwise_cons.1 whole.2.1).1 other later

theorem bound_lt_head (nonempty : left ≠ [])
    (above : ∀ item ∈ left, Above cmp (some bound) (keyOf item))
    (clean : ∀ item ∈ left, cmp (keyOf item) (keyOf head) = .lt) :
    cmp bound (keyOf head) = .lt := by
  obtain ⟨least, mem⟩ := exists_mem_of_ne_nil left nonempty
  exact lt_of_isLE_of_lt (above least mem bound rfl) (clean least mem)

theorem split (ordered : Ordered cmp keyOf lower first leaves routes)
    (distinct : (leaves.map fst).Nodup) (above : Above cmp lower (keyOf item)) (fresh : β)
    (parts : left ++ head :: right = insertSorted cmp keyOf item
      (itemsAt (route cmp (keyOf item) first routes) leaves)) (nonempty : left ≠ [])
    (clean : ∀ other ∈ left, cmp (keyOf other) (keyOf head) = .lt) :
    Ordered cmp keyOf lower first (replaceLeaf (route cmp (keyOf item) first routes)
        [(route cmp (keyOf item) first routes, left), (fresh, head :: right)] leaves)
      (insertRoute cmp (fresh, keyOf head) routes) := by
  induction ordered with
  | @last lower block items sorted bounded =>
    simp only [route, itemsAt] at parts
    obtain ⟨sortedLeft, sortedRight, aboveHead⟩ := sorted_parts sorted parts
    obtain ⟨aboveLeft, _⟩ := forall_parts parts above bounded
    simp only [route, replaceLeaf]
    apply Ordered.more sortedLeft aboveLeft clean
    · intro bound isLower
      subst isLower
      exact bound_lt_head nonempty aboveLeft clean
    · exact Ordered.last sortedRight aboveHead
  | @more lower block child items separator leaves routes sorted bounded
      below increasing rest ih =>
      unfold route at parts ⊢
      split
      · next less =>
          rw [if_pos less] at parts
          simp only [itemsAt] at parts
          obtain ⟨sortedLeft, sortedRight, aboveHead⟩ := sorted_parts sorted parts
          obtain ⟨aboveLeft, _⟩ := forall_parts parts above bounded
          obtain ⟨_, belowRight⟩ := forall_parts parts less below
          have headBelow := belowRight head (by simp)
          have inFront : insertRoute cmp (fresh, keyOf head) ((child, separator) :: routes) =
              (fresh, keyOf head) :: (child, separator) :: routes :=
            orderedInsert_cons_of_le _ _ (isLE_of_lt headBelow)
          rw [inFront]
          simp only [replaceLeaf]
          apply Ordered.more sortedLeft aboveLeft clean
          · intro bound isLower
            subst isLower
            exact bound_lt_head nonempty aboveLeft clean
          apply Ordered.more sortedRight aboveHead belowRight _ rest
          intro bound isHead
          obtain rfl : keyOf head = bound := by simpa using isHead
          exact headBelow
      next notLess =>
        rw [if_neg notLess] at parts
        obtain ⟨absent, distinctRest⟩ := nodup_cons.1 distinct
        have elsewhere := rest.ne_route absent (keyOf item)
        have aboveSeparator : Above cmp (some separator) (keyOf item) := by
          intro bound isLower
          obtain rfl : separator = bound := by simpa using isLower
          exact isLE_of_not_lt notLess
        simp only [itemsAt, if_neg elsewhere] at parts
        obtain ⟨aboveLeft, _⟩ := forall_parts parts aboveSeparator
          fun other mem => rest.contents_above other ((itemsAt_sublist ..).subset mem)
        have behind := bound_lt_head nonempty aboveLeft clean
        have notInFront : ¬KeyLe cmp snd (fresh, keyOf head) (child, separator) := by
          intro inFront
          exact Std.OrientedCmp.not_lt_of_isLE inFront behind
        have later : insertRoute cmp (fresh, keyOf head) ((child, separator) :: routes) =
            (child, separator) :: insertRoute cmp (fresh, keyOf head) routes :=
          orderedInsert_of_not_le _ _ notInFront
        rw [later]
        simp only [replaceLeaf, if_neg elsewhere]
        apply Ordered.more sorted bounded below increasing
        exact ih distinctRest aboveSeparator parts

end Ordered

end Pgcpp.Lib
