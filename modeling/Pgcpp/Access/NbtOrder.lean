import Mathlib.Algebra.Group.Action.Defs
import Pgcpp.Access.NbtContents

/-!
# Ordered trees

As long as the root takes every separator and no split separates equal keys,
the chain of an index stays ordered: the separators of the root bound the keys
of its children.  Distinct keys can never be separated.
-/

namespace Pgcpp.Access

open Lib Storage Transaction List RoutedChain

/-- If the insertion finds its leaf full, the entries around the middle have
different keys. -/
def CleanInsert (kind : BTKeyKind) (index : BTIndex) (key : List UInt8)
    (tid : ItemPointerData) : Prop :=
  let page := (index.pages (btSearchLeaf index kind key).1).page
  let item := btBuildItem kind key tid
  let entries := btSplitEntries kind key item page
  let mid := entries.length / 2
  (btPageInsertItem page item (btFindPos page kind key)).2 = kInvalidOffsetNumber →
    btCompareKeys kind (btItemGetKey (entries.getD (mid - 1) []))
      (btItemGetKey (entries.getD mid [])) ≠ .eq

instance (kind : BTKeyKind) (index : BTIndex) (key : List UInt8)
    (tid : ItemPointerData) : Decidable (CleanInsert kind index key tid) :=
  inferInstanceAs (Decidable (_ → _))

/-- An index whose separators bound the keys of its leaves. -/
structure OrderedTree (kind : BTKeyKind) (index : BTIndex) (chain : BTChain) : Prop where
  represents : Represents index chain
  ordered : Ordered (btCompareKeys kind) btItemGetKey none chain.first chain.leaves chain.routes
  extent : index.nblocks ≤ 2 + 2 * chain.routes.length

section

variable {kind : BTKeyKind}

theorem Represents.routes_length_lt (represents : Represents index chain) :
    chain.routes.length < 1019 := by
  cases represents.root with
  | leaf routes => simp [routes]
  | internal _ holds =>
    have cost := holds.cost_le
    have each : ∀ entry ∈ rootEntries chain.first chain.routes, 8 ≤ itemCost entry := by
      intro entry mem
      have long : 4 ≤ entry.length := by
        rcases mem_cons.1 mem with rfl | listed
        · simp [length_internalEntry, kBlockNumberSize]
        · obtain ⟨_, _, rfl⟩ := mem_map.1 listed
          simp [length_internalEntry, kBlockNumberSize]
      unfold itemCost maxAlignUp kItemIdSize
      omega
    have total := card_nsmul_le_sum ((rootEntries chain.first chain.routes).map itemCost) 8
      (by simpa using each)
    have capacity : pageCapacity = 8152 := rfl
    simp only [length_map, rootEntries, length_cons, smul_eq_mul] at total
    unfold pageCost rootEntries at cost
    omega

theorem OrderedTree.bounded (tree : OrderedTree kind index chain) : index.nblocks ≤ 2 ^ 32 := by
  have extent := tree.extent
  have routes := tree.represents.routes_length_lt
  omega

theorem middle_neighbours {last head : List UInt8}
    (parts : (front ++ [last]) ++ head :: right = entries)
    (middle : (front ++ [last]).length = ((front ++ [last]) ++ head :: right).length / 2) :
    entries.getD (entries.length / 2 - 1) [] = last ∧
      entries.getD (entries.length / 2) [] = head := by
  refine ⟨?_, (middle_parts parts middle).2.2⟩
  rw [← parts, ← middle]
  simp

theorem Represents.cleanInsert_iff (represents : Represents index chain)
    (bounded : index.nblocks ≤ 2 ^ 32) (valid : KeyValid kind key) :
    CleanInsert kind index key tid ↔
      (hasRoom (itemsAt (chain.target (btCompareKeys kind) key) chain.leaves)
          (btBuildItem kind key tid) = false →
        ∀ front last head right, (front ++ [last]) ++ head :: right = chain.grown
            (btCompareKeys kind) btItemGetKey (btBuildItem kind key tid) →
          (front ++ [last]).length = ((front ++ [last]) ++ head :: right).length / 2 →
          btCompareKeys kind (btItemGetKey last) (btItemGetKey head) ≠ .eq) := by
  have sameKey : btItemGetKey (btBuildItem kind key tid) = key := btItemGetKey_buildItem valid tid
  have present : chain.target (btCompareKeys kind) key ∈
      chain.leaves.map Prod.fst := represents.connected.target_mem key
  have toTarget : (btSearchLeaf index kind key).1 = chain.target (btCompareKeys kind) key :=
    represents.target_eq bounded kind key
  obtain ⟨_, leafAt⟩ := represents.leafAt present
  have entries : btSplitEntries kind key (btBuildItem kind key tid)
      (index.pages (chain.target (btCompareKeys kind) key)).page =
      chain.grown (btCompareKeys kind) btItemGetKey (btBuildItem kind key tid) := by
    rw [leafAt.holds.splitEntries valid, grown, sameKey]
  unfold CleanInsert
  dsimp only
  rw [toTarget, entries]
  cases room : hasRoom (itemsAt (chain.target (btCompareKeys kind) key)
      chain.leaves) (btBuildItem kind key tid) with
  | true =>
    have used : btFindPos (index.pages (chain.target (btCompareKeys kind)
        key)).page kind key ≠ kInvalidOffsetNumber := by
      rw [leafAt.holds.findPos]
      exact Nat.succ_ne_zero _
    simp [leafAt.holds.insertItem_of_room room, used]
  | false =>
    obtain ⟨left, head, right, parts, middle, nonempty, _⟩ := represents.exists_halves valid room
    simp only [leafAt.holds.insertItem_of_full room, forall_const]
    constructor
    · intro clean front last head right parts middle
      obtain ⟨isLast, isHead⟩ := middle_neighbours parts middle
      rwa [isLast, isHead] at clean
    intro clean
    obtain ⟨front, last, rfl⟩ : ∃ front last, left = front ++ [last] :=
      ⟨_, _, (dropLast_append_getLast nonempty).symm⟩
    obtain ⟨isLast, isHead⟩ := middle_neighbours parts middle
    rw [isLast, isHead]
    exact clean front last head right parts middle

theorem OrderedTree.insert (tree : OrderedTree kind index chain) (valid : KeyValid kind key)
    (notFull : (btinsert kind index key tid).rootFull = false)
    (clean : CleanInsert kind index key tid) :
    ∃ later, OrderedTree kind (btinsert kind index key tid).index later ∧
      later.contents.Perm (btBuildItem kind key tid :: chain.contents) := by
  have represents := tree.represents
  have distinct := represents.connected.distinct
  have unbounded : Above (btCompareKeys kind) none (btItemGetKey (btBuildItem kind key tid)) := by
    intro _ absent
    simp at absent
  cases room : hasRoom (itemsAt (chain.target (btCompareKeys kind) key)
      chain.leaves) (btBuildItem kind key tid) with
  | true =>
    obtain ⟨placed, _, _, sameBlocks, _⟩ := btinsert_of_room represents tree.bounded valid room
    refine ⟨_, ⟨placed, ?_, ?_⟩, contents_place represents.connected⟩
    · exact tree.ordered.place distinct unbounded
    · rw [sameBlocks]
      exact tree.extent
  | false =>
    obtain ⟨left, head, right, ⟨parts, middle, nonempty, _, _⟩, split, _⟩ :=
      btinsert_of_full represents valid tree.bounded room
    refine ⟨_, ⟨split, ?_, ?_⟩, contents_split represents.connected parts⟩
    · rw [notFull]
      apply tree.ordered.split distinct unbounded _ parts nonempty
      obtain ⟨front, last, rfl⟩ : ∃ front last, left = front ++ [last] :=
        ⟨_, _, (dropLast_append_getLast nonempty).symm⟩
      apply Ordered.clean_of_last
      · rw [parts]
        apply insertSorted_pairwise
        exact tree.ordered.contents_sorted.sublist (itemsAt_sublist ..)
      · exact (represents.cleanInsert_iff tree.bounded valid).1 clean room
          front last head right parts middle
    · have longer : (insertRoute (btCompareKeys kind)
          (index.nblocks, btItemGetKey head) chain.routes).length =
          chain.routes.length + 1 := orderedInsert_length ..
      have extent := tree.extent
      have blocks := (btinsert_nblocks kind index key tid).2
      rw [notFull]
      simp only [RoutedChain.split, Bool.not_false, if_true]
      omega

end

/-- Every insertion of the run happens in a state that satisfies `guard`. -/
def EveryInsert (kind : BTKeyKind) (guard : BTIndex → List UInt8 → ItemPointerData → Prop)
    (entries : List IndexEntry) : Prop :=
  ∀ before key tid after, entries = before ++ (key, tid) :: after →
    guard (btInsertAll kind before) key tid

theorem everyInsert_nil (kind : BTKeyKind) (guard : BTIndex → List UInt8 → ItemPointerData → Prop) :
    EveryInsert kind guard [] := by
  intro _ _ _ _ shape
  simp at shape

theorem everyInsert_append {guard : BTIndex → List UInt8 → ItemPointerData → Prop} :
    EveryInsert kind guard (before ++ [entry]) ↔ EveryInsert kind guard before ∧
        guard (btInsertAll kind before) entry.1 entry.2 := by
  constructor
  · intro every
    refine ⟨?_, every before entry.1 entry.2 [] rfl⟩
    rintro first key tid rest rfl
    exact every first key tid (rest ++ [entry]) (by simp)
  rintro ⟨every, last⟩ first key tid rest shape
  rcases eq_nil_or_concat rest with rfl | ⟨rest, _, rfl⟩
  · obtain ⟨rfl, single⟩ := append_inj' shape rfl
    obtain rfl : entry = (key, tid) := by simpa using single
    exact last
  · rw [concat_eq_append, ← cons_append, ← append_assoc] at shape
    obtain ⟨front, _⟩ := append_inj' shape rfl
    exact every first key tid rest front

/-- No insertion reports that the root is full. -/
def RootNeverFull (kind : BTKeyKind) (entries : List IndexEntry) : Prop :=
  EveryInsert kind (fun index key tid => (btinsert kind index key tid).rootFull = false) entries

variable {entries : List IndexEntry}

theorem btInsertAll_orderedTree (valid : KeysValid kind entries)
    (notFull : RootNeverFull kind entries) (clean : EveryInsert kind (CleanInsert kind) entries) :
    ∃ chain, OrderedTree kind (btInsertAll kind entries) chain ∧
      (chain.contents.map itemEntry).Perm entries := by
  induction entries using List.reverseRecOn with
  | nil =>
    refine ⟨emptyChain, ⟨btbuild_represents, ?_, Nat.le_refl 2⟩, .nil⟩
    exact .last .nil (by simp)
  | append_singleton _ entry ih =>
    obtain ⟨validBefore, validEntry⟩ := forall_mem_append.1 valid
    obtain ⟨notFullBefore, notFullEntry⟩ := everyInsert_append.1 notFull
    obtain ⟨cleanBefore, cleanEntry⟩ := everyInsert_append.1 clean
    obtain ⟨chain, tree, perm⟩ := ih validBefore notFullBefore cleanBefore
    have validKey := validEntry entry (by simp)
    obtain ⟨later, inserted, grown⟩ := tree.insert validKey notFullEntry cleanEntry
    rw [btInsertAll_append]
    exact ⟨later, inserted, perm_insert validKey grown perm⟩

/-! ## Distinct keys -/

theorem apart_of_distinct {items : List (List UInt8)} (perm : (items.map itemEntry).Perm entries)
    (valid : KeysValid kind entries) (distinct : (entries.map Prod.fst).Nodup) :
    items.Pairwise fun left right =>
      btCompareKeys kind (btItemGetKey left) (btItemGetKey right) ≠ .eq := by
  have keysValid : ∀ item ∈ items, KeyValid kind (btItemGetKey item) := by
    intro item mem
    exact valid (itemEntry item) (perm.mem_iff.1 (mem_map_of_mem mem))
  have keysDistinct : (items.map btItemGetKey).Nodup := by
    have keys := (perm.map Prod.fst).nodup_iff.2 distinct
    rwa [map_map] at keys
  apply (pairwise_map.1 keysDistinct).imp_of_mem
  intro left right leftMember rightMember differ same
  exact differ (eq_of_btCompareKeys (keysValid left leftMember) (keysValid right rightMember) same)

theorem OrderedTree.cleanInsert_of_distinct (tree : OrderedTree kind index chain)
    (perm : (chain.contents.map itemEntry).Perm before) (valid : KeysValid kind (before ++ [entry]))
    (distinct : ((before ++ [entry]).map Prod.fst).Nodup) :
    CleanInsert kind index entry.1 entry.2 := by
  have validKey := valid entry (by simp)
  rw [tree.represents.cleanInsert_iff tree.bounded validKey]
  intro _ _ last head right parts _
  have whole := apart_of_distinct (perm_insert validKey (List.Perm.refl _) perm) valid distinct
  have onLeaf := whole.sublist ((itemsAt_sublist (chain.target (btCompareKeys kind) (btItemGetKey
      (btBuildItem kind entry.1 entry.2))) chain.leaves).cons_cons _)
  have grown := ((grown_perm).pairwise_iff (by
    intro _ right apart same
    exact apart (Std.OrientedCmp.eq_comm.1 same))).2 onLeaf
  rw [← parts] at grown
  exact (pairwise_append.1 grown).2.2 last (by simp) head (by simp)

/-- The children of the root in root order; a root that is a leaf counts as its
only child. -/
def rootChildren (index : BTIndex) : List Nat :=
  let root := index.pages index.metaPage.root
  if btIsLeafPage root then [index.metaPage.root] else (btReadAllItems root.page).map btEntryChild

/-- The children behind the first one with their separators. -/
def rootSeparators (index : BTIndex) : List (Nat × List UInt8) :=
  let root := index.pages index.metaPage.root
  if btIsLeafPage root then []
  else (btReadAllItems root.page).tail.map fun entry => (btEntryChild entry, btEntryKey entry)

section

variable {index : BTIndex} {chain : BTChain}
  (represents : Represents index chain) (bounded : index.nblocks ≤ 2 ^ 32)

include represents bounded

theorem Represents.route_lt : ∀ entry ∈ chain.routes, entry.1 < 2 ^ 32 := by
  intro entry mem
  have listed := represents.connected.routed entry mem
  exact (represents.allocated _ listed).2.trans_le bounded

theorem Represents.first_lt : chain.first < 2 ^ 32 :=
  (represents.allocated _ represents.first_mem).2.trans_le bounded

theorem Represents.rootSeparators_eq : rootSeparators index = chain.routes := by
  unfold rootSeparators
  cases represents.root with
  | leaf routes _ root =>
    obtain ⟨_, leafAt⟩ := represents.leafAt represents.first_mem
    simp [root, leafAt.leaf, routes]
  | internal inner holds =>
    simp only [inner, holds.readAllItems, rootEntries, tail_cons, map_map]
    apply (map_congr_left _).trans (map_id _)
    intro entry mem
    have small := represents.route_lt bounded entry mem
    simp [btEntryChild_internalEntry small, btEntryKey_internalEntry]

theorem Represents.rootChildren_eq :
    rootChildren index = chain.first :: chain.routes.map Prod.fst := by
  unfold rootChildren
  cases represents.root with
  | leaf routes _ root =>
    obtain ⟨_, leafAt⟩ := represents.leafAt represents.first_mem
    simp [root, leafAt.leaf, routes]
  | internal inner holds =>
    simp only [inner, Bool.false_eq_true, if_false, holds.readAllItems, rootEntries, map_cons,
      map_map, btEntryChild_internalEntry (represents.first_lt bounded)]
    congr 1
    apply map_congr_left
    intro entry mem
    exact btEntryChild_internalEntry (represents.route_lt bounded entry mem)

end

theorem everyInsert_clean_of_distinct (valid : KeysValid kind entries)
    (distinct : (entries.map Prod.fst).Nodup) (notFull : RootNeverFull kind entries) :
    EveryInsert kind (CleanInsert kind) entries := by
  induction entries using List.reverseRecOn with
  | nil => exact everyInsert_nil _ _
  | append_singleton before entry ih =>
    have validBefore := (forall_mem_append.1 valid).1
    have notFullBefore := (everyInsert_append.1 notFull).1
    have distinctBefore : (before.map Prod.fst).Nodup := by
      rw [map_append] at distinct
      exact (nodup_append.1 distinct).1
    have clean := ih validBefore distinctBefore notFullBefore
    obtain ⟨_, tree, perm⟩ := btInsertAll_orderedTree validBefore notFullBefore clean
    rw [everyInsert_append]
    exact ⟨clean, tree.cleanInsert_of_distinct perm valid distinct⟩

theorem OrderedTree.increasing (tree : OrderedTree kind index chain)
    (perm : (chain.contents.map itemEntry).Perm entries)
    (valid : KeysValid kind entries) (distinct : (entries.map Prod.fst).Nodup) :
    (chain.contents.map itemEntry).Pairwise
      fun left right => btCompareKeys kind left.1 right.1 = .lt := by
  rw [pairwise_map]
  have sorted : chain.contents.Pairwise _ := tree.ordered.contents_sorted
  apply (sorted.and (apart_of_distinct perm valid distinct)).imp
  rintro left right ⟨le, apart⟩
  exact lt_of_isLE_of_ne le apart

theorem OrderedTree.separator_bounds (tree : OrderedTree kind index chain)
    (found : chain.routes[pos]? = some (child, separator)) :
    (∀ entry ∈ leafEntries index child, (btCompareKeys kind separator entry.1).isLE) ∧
    ∀ left ∈ (chain.leaves.map Prod.fst).take (pos + 1),
      ∀ entry ∈ leafEntries index left, btCompareKeys kind entry.1 separator = .lt := by
  obtain ⟨before, items, _, shape, count, smaller, above⟩ := tree.ordered.separator_bounds found
  have linked := tree.represents.linked
  rw [shape] at linked ⊢
  constructor
  · intro entry mem
    have entries := linked.leafEntries_of_mem
      (mem_append_right before (mem_cons_self (a := (child, items))))
    rw [entries, mem_map] at mem
    obtain ⟨item, listed, rfl⟩ := mem
    exact above item listed
  · intro left mem entry listed
    rw [map_append, take_left' (by simp [count])] at mem
    obtain ⟨leaf, inFront, rfl⟩ := mem_map.1 mem
    rw [linked.leafEntries_of_mem (mem_append_left _ inFront), mem_map] at listed
    obtain ⟨item, onLeaf, rfl⟩ := listed
    exact smaller item (mem_flatMap.2 ⟨leaf, inFront, onLeaf⟩)

/-- With distinct keys the leaf chain visits the children of the root in root
order, its keys increase strictly, and the separators bound the keys of their
children. -/
theorem btInsertAll_ordered_of_distinct (kind : BTKeyKind) (entries : List IndexEntry)
    (valid : KeysValid kind entries) (distinct : (entries.map Prod.fst).Nodup)
    (notFull : RootNeverFull kind entries) :
    LeafChain (btInsertAll kind entries) (btLeftmostLeaf (btInsertAll kind entries))
        (rootChildren (btInsertAll kind entries)) ∧
      ((rootChildren (btInsertAll kind entries)).flatMap
        (leafEntries (btInsertAll kind entries))).Pairwise
          (fun left right => btCompareKeys kind left.1 right.1 = .lt) ∧
      ∀ position child separator, (rootSeparators (btInsertAll kind entries))[position]? =
            some (child, separator) → (∀ entry ∈ leafEntries (btInsertAll kind entries) child,
          (btCompareKeys kind separator entry.1).isLE) ∧
        ∀ left ∈ (rootChildren (btInsertAll kind entries)).take (position + 1),
          ∀ entry ∈ leafEntries (btInsertAll kind entries) left,
            btCompareKeys kind entry.1 separator = .lt := by
  have clean := everyInsert_clean_of_distinct valid distinct notFull
  obtain ⟨chain, tree, perm⟩ := btInsertAll_orderedTree valid notFull clean
  have represents := tree.represents
  have children : rootChildren (btInsertAll kind entries) = chain.leaves.map Prod.fst := by
    rw [represents.rootChildren_eq tree.bounded, tree.ordered.blocks]
  rw [children]
  refine ⟨?_, ?_, ?_⟩
  · rw [represents.leftmost_eq tree.bounded]
    exact represents.leafChain
  · rw [represents.linked.flatMap_leafEntries]
    exact tree.increasing perm valid distinct
  intro position child separator found
  rw [represents.rootSeparators_eq tree.bounded] at found
  exact tree.separator_bounds found

/-! ## Long keys -/

/-- The items of rows with text keys of 250 bytes; 31 of them fill a leaf. -/
structure LongItems (entries : List IndexEntry) (items : List (List UInt8)) : Prop where
  perm : (items.map itemEntry).Perm entries
  size : ∀ item ∈ items, item.length = 256

theorem keyValid_of_long (long : key.length = 250) : KeyValid .text key := by
  rw [KeyValid, long]
  decide

theorem length_longItem (long : key.length = 250) : (btBuildItem .text key tid).length = 256 := by
  rw [btBuildItem, length_append, storedKey, long]
  rfl

theorem LongItems.insert (holds : LongItems entries items) (long : entry.1.length = 250) :
    LongItems (entries ++ [entry]) (insertSorted (btCompareKeys .text) btItemGetKey
      (btBuildItem .text entry.1 entry.2) items) := by
  constructor
  · exact perm_insert (keyValid_of_long long) insertSorted_perm holds.perm
  · intro item mem
    rcases mem_insertSorted.1 mem with rfl | old
    · exact length_longItem long
    · exact holds.size item old

theorem LongItems.hasRoom (holds : LongItems entries items) (long : key.length = 250)
    (tid : ItemPointerData) :
    hasRoom items (btBuildItem .text key tid) = decide (entries.length ≤ 30) := by
  have each : items.map itemCost = items.map fun _ => 260 := by
    apply map_congr_left
    intro item mem
    rw [itemCost, holds.size item mem]
    rfl
  have cost : itemCost (btBuildItem .text key tid) = 260 := by
    rw [itemCost, length_longItem long]
    rfl
  have count := holds.perm.length_eq
  have capacity : pageCapacity = 8152 := rfl
  have size : kItemIdSize = 4 := rfl
  rw [length_map] at count
  rw [Access.hasRoom, pageCost, each, map_const', sum_replicate, smul_eq_mul]
  congr 1
  apply propext
  omega

theorem longKeys_leaf (long : ∀ entry ∈ entries, entry.1.length = 250)
    (few : entries.length ≤ 31) : ∃ items, LongItems entries items ∧
      Represents (btInsertAll .text entries)
        { first := 1, routes := [], leaves := [(1, items)] } ∧
      (btInsertAll .text entries).nblocks = 2 ∧
      (btInsertAll .text entries).metaPage.root = 1 := by
  induction entries using List.reverseRecOn with
  | nil => exact ⟨[], ⟨.nil, by simp⟩, btbuild_represents, rfl, rfl⟩
  | append_singleton before entry ih =>
    obtain ⟨longBefore, longEntry⟩ := forall_mem_append.1 long
    rw [length_append, length_singleton] at few
    have longKey := longEntry entry mem_cons_self
    obtain ⟨items, holds, represents, blocks, root⟩ := ih longBefore (by omega)
    have room : hasRoom items (btBuildItem .text entry.1 entry.2) := by
      rw [holds.hasRoom longKey, decide_eq_true_iff]
      omega
    have bounded : (btInsertAll .text before).nblocks ≤ 2 ^ 32 := by omega
    obtain ⟨placed, _, _, sameBlocks, sameMeta⟩ :=
      btinsert_of_room represents bounded (keyValid_of_long longKey) room
    rw [btInsertAll_append, sameMeta]
    exact ⟨_, holds.insert longKey, placed, sameBlocks.trans blocks, root⟩

/-- As long as the root is a leaf it takes the separator of a split. -/
theorem longKeys_notFull (long : ∀ entry ∈ entries, entry.1.length = 250)
    (few : entries.length ≤ 32) : RootNeverFull .text entries := by
  induction entries using List.reverseRecOn with
  | nil => exact everyInsert_nil _ _
  | append_singleton before entry ih =>
    obtain ⟨longBefore, _⟩ := forall_mem_append.1 long
    rw [length_append, length_singleton] at few
    obtain ⟨_, _, represents, _, root⟩ := longKeys_leaf longBefore (by omega)
    obtain ⟨_, leafAt⟩ := represents.leafAt represents.first_mem
    rw [RootNeverFull, everyInsert_append]
    refine ⟨ih longBefore (by omega), ?_⟩
    unfold btinsert
    simp only [root, leafAt.leaf, if_true]
    split
    · rfl
    · rfl

/-- One row more than a leaf has room for. -/
def distinctRows : List IndexEntry :=
  (List.range 32).map fun number =>
    (UInt8.ofNat number :: List.replicate 249 97, ⟨0, BitVec.ofNat 16 number⟩)

theorem distinctRows_spec : KeysValid .text distinctRows ∧
    (distinctRows.map Prod.fst).Nodup ∧ RootNeverFull .text distinctRows := by
  have long : ∀ entry ∈ distinctRows, entry.1.length = 250 := by
    intro entry member
    obtain ⟨_, _, rfl⟩ := mem_map.1 member
    exact congrArg (· + 1) length_replicate
  exact ⟨fun entry mem => keyValid_of_long (long entry mem), by decide +kernel,
    longKeys_notFull long (by decide)⟩

theorem btInsertAll_ordered_of_distinctRows :
    ((rootChildren (btInsertAll .text distinctRows)).flatMap
      (leafEntries (btInsertAll .text distinctRows))).Pairwise
        (fun left right => btCompareKeys .text left.1 right.1 = .lt) := by
  obtain ⟨valid, distinct, notFull⟩ := distinctRows_spec
  exact (btInsertAll_ordered_of_distinct .text distinctRows valid distinct notFull).2.1

end Pgcpp.Access
