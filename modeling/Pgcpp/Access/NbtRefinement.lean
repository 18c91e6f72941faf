import Pgcpp.Access.NbtLayout
import Pgcpp.Access.Nbtree

/-!
# The B-tree as a routed chain

An index represents a routed chain when its leaf pages hold the leaves, linked
in chain order, and its internal root holds the routes.  `btinsert` is then
insertion into the chain: it places the item in a leaf with room or splits the
leaf.  A split divides by number of items; the bound on their size makes both
halves fit, although the results of `PageAddItem` are not looked at.
-/

namespace Pgcpp.Access

open Lib Storage Transaction Prod
open RoutedChain hiding first routes leaves

/-- The chain an index represents: blocks, items and keys as bytes. -/
abbrev BTChain := RoutedChain Nat (List UInt8) (List UInt8)

/-- The block a leaf links to: the first of the leaves behind it. -/
def nextOf (final : Nat) : List (Nat × List (List UInt8)) → Nat
  | [] => final
  | leaf :: _ => leaf.1

structure LeafAt (index : BTIndex) (block : Nat) (items : List (List UInt8))
    (next : Nat) : Prop where
  leaf : btIsLeafPage (index.pages block)
  holds : Holds (index.pages block).page items
  next : (index.pages block).special.btpoNext = next

/-- The leaves are linked in order, the last one to `final`. -/
inductive Linked (index : BTIndex) (final : Nat) : List (Nat × List (List UInt8)) → Prop where
  | nil : Linked index final []
  | cons (here : LeafAt index block items (nextOf final rest)) (later : Linked index final rest) :
      Linked index final ((block, items) :: rest)

/-- The root of the index is the only leaf, or an internal page that holds the
routes. -/
inductive RootHolds (index : BTIndex) (chain : BTChain) : Prop where
  | leaf (routes : chain.routes = []) (only : chain.leaves.map fst = [chain.first])
      (root : index.metaPage.root = chain.first)
  | internal (inner : btIsLeafPage (index.pages index.metaPage.root) = false)
      (holds : Holds (index.pages index.metaPage.root).page (rootEntries chain.first chain.routes))
      (apart : index.metaPage.root ∉ chain.leaves.map fst)
      (allocated : index.metaPage.root < index.nblocks)

structure Represents (index : BTIndex) (chain : BTChain) : Prop where
  connected : chain.Connected
  linked : Linked index 0 chain.leaves
  root : RootHolds index chain
  allocated : ∀ block ∈ chain.leaves.map fst, 0 < block ∧ block < index.nblocks
  sized : ∀ item ∈ chain.contents, kBTItemSize ≤ item.length ∧ item.length ≤ 256

theorem LeafAt.congr {block next : Nat}
    (leafAt : LeafAt index block items next) (same : other.pages block = index.pages block) :
    LeafAt other block items next := by
  constructor
  · rw [same]
    exact leafAt.leaf
  · rw [same]
    exact leafAt.holds
  · rw [same]
    exact leafAt.next

theorem Linked.congr (linked : Linked index final leaves)
    (same : ∀ block ∈ leaves.map fst, other.pages block = index.pages block) :
    Linked other final leaves := by
  induction linked with
  | nil => exact .nil
  | @cons block _ _ here _ ih =>
    apply Linked.cons
    · exact here.congr (same block (by simp))
    apply ih
    intro block mem
    exact same block (by simp [mem])

theorem linked_cons : Linked index final (leaf :: leaves) ↔
      LeafAt index leaf.1 leaf.2 (nextOf final leaves) ∧ Linked index final leaves := by
  constructor
  · intro linked
    cases linked with
    | cons here later => exact ⟨here, later⟩
  · rintro ⟨here, later⟩
    exact .cons here later

theorem linked_append : Linked index final (before ++ after) ↔
      Linked index (nextOf final after) before ∧ Linked index final after := by
  induction before with
  | nil =>
    constructor
    · intro linked
      exact ⟨.nil, linked⟩
    · exact And.right
  | cons _ rest ih =>
    have sameNext : nextOf final (rest ++ after) = nextOf (nextOf final after) rest := by
      cases rest with
      | nil => rfl
      | cons => rfl
    rw [List.cons_append, linked_cons, linked_cons, ih, sameNext, and_assoc]

theorem Linked.replace (linked : Linked index 0 leaves) (distinct : (leaves.map fst).Nodup)
    (present : block ∈ leaves.map fst)
    (same : ∀ name ∈ leaves.map fst, name ≠ block → other.pages name = index.pages name)
    (parts : ∀ next, (index.pages block).special.btpoNext = next →
      Linked other next ((block, items) :: others)) :
    Linked other 0 (replaceLeaf block ((block, items) :: others) leaves) := by
  obtain ⟨_, after, shape, absent, replaced⟩ := exists_leaf present
  rw [shape, linked_append, linked_cons] at linked
  obtain ⟨front, here, back⟩ := linked
  rw [shape, List.map_append] at distinct same
  have absentAfter : block ∉ after.map fst :=
    (List.nodup_cons.1 (List.nodup_append.1 distinct).2.1).1
  rw [replaced, linked_append, linked_append]
  refine ⟨?_, parts _ here.next, ?_⟩
  · apply front.congr
    intro name mem
    apply same name (List.mem_append_left _ mem)
    rintro rfl
    exact absent mem
  · apply back.congr
    intro name mem
    apply same name (List.mem_append_right _ (List.mem_cons_of_mem _ mem))
    rintro rfl
    exact absentAfter mem

section

variable {block : Nat}

section

variable (represents : Represents index chain)

include represents

theorem Represents.leafAt (present : block ∈ chain.leaves.map fst) :
    ∃ next, LeafAt index block (itemsAt block chain.leaves) next := by
  obtain ⟨_, _, shape, _, _⟩ := exists_leaf present
  have linked := represents.linked
  rw [shape, linked_append, linked_cons] at linked
  exact ⟨_, linked.2.1⟩

theorem Represents.first_mem : chain.first ∈ chain.leaves.map fst := by
  obtain ⟨_, _, start⟩ := represents.connected.start
  rw [start]
  simp

theorem Represents.target_eq (bounded : index.nblocks ≤ 2 ^ 32) (kind : BTKeyKind)
    (key : List UInt8) : (if btIsLeafPage (index.pages index.metaPage.root) then index.metaPage.root
      else btChild index kind key) = chain.target (btCompareKeys kind) key := by
  have small : ∀ block ∈ chain.leaves.map fst, block < 2 ^ 32 := by
    intro block mem
    have := (represents.allocated block mem).2
    omega
  cases represents.root with
  | leaf routes _ root =>
    obtain ⟨_, leafAt⟩ := represents.leafAt represents.first_mem
    rw [root, leafAt.leaf, target, routes]
    rfl
  | internal inner holds =>
    rw [inner]
    exact holds.descend (small _ represents.first_mem)
      (fun entry mem => small _ (represents.connected.routed entry mem))
      kind key _

end

theorem RootHolds.congr (root : RootHolds index chain) (sameMeta : other.metaPage = index.metaPage)
    (samePages : ∀ block ∉ chain.leaves.map fst,
      block < index.nblocks → other.pages block = index.pages block)
    (sameFirst : later.first = chain.first) (sameRoutes : later.routes = chain.routes)
    (sameBlocks : later.leaves.map fst = chain.leaves.map fst)
    (grown : index.nblocks ≤ other.nblocks) : RootHolds other later := by
  cases root with
  | leaf routes only root =>
    apply RootHolds.leaf
    · rw [sameRoutes, routes]
    · rw [sameBlocks, sameFirst, only]
    · rw [sameMeta, sameFirst, root]
  | internal inner holds apart allocated =>
    have samePage := samePages _ apart allocated
    apply RootHolds.internal
    · rw [sameMeta, samePage]
      exact inner
    · rw [sameMeta, samePage, sameFirst, sameRoutes]
      exact holds
    · rw [sameMeta, sameBlocks]
      exact apart
    · rw [sameMeta]
      omega

theorem insertIdx_buildItem (valid : KeyValid kind key) :
    items.insertIdx (items.findIdx fun other => (btCompareKeys kind key (btItemGetKey other)).isLE)
        (btBuildItem kind key tid) =
      insertSorted (btCompareKeys kind) btItemGetKey (btBuildItem kind key tid) items := by
  rw [← insertIdx_findIdx_eq_insertSorted, btItemGetKey_buildItem valid]

theorem Represents.grown_sized (represents : Represents index chain)
    (valid : KeyValid kind key) {contents : List (List UInt8)}
    (grown : contents.Perm (btBuildItem kind key tid :: chain.contents)) :
    ∀ item ∈ contents, kBTItemSize ≤ item.length ∧ item.length ≤ 256 := by
  intro item mem
  rcases List.mem_cons.1 (grown.mem_iff.1 mem) with rfl | old
  · exact length_buildItem valid tid
  · exact represents.sized item old

theorem replaceLeaf_blocks :
    (replaceLeaf block [(block, items)] leaves).map fst = leaves.map fst := by
  induction leaves with
  | nil => rfl
  | cons _ _ ih =>
    unfold replaceLeaf
    split
    · next same => simp [same]
    · simp [ih]

theorem Represents.setLeaf (represents : Represents index chain)
    (present : block ∈ chain.leaves.map fst) (leaf : btIsLeafPage page)
    (holds : Holds page.page items)
    (next : page.special.btpoNext = (index.pages block).special.btpoNext)
    (connected : RoutedChain.Connected { chain with
      leaves := replaceLeaf block [(block, items)] chain.leaves })
    (sized : ∀ item ∈ (replaceLeaf block [(block, items)] chain.leaves).flatMap snd,
      kBTItemSize ≤ item.length ∧ item.length ≤ 256) : Represents (index.setPage block page)
      { chain with leaves := replaceLeaf block [(block, items)] chain.leaves } := by
  have written : (index.setPage block page).pages block = page := by simp [BTIndex.setPage]
  have untouched : ∀ name, name ≠ block →
      (index.setPage block page).pages name = index.pages name := by
    intro name ne
    simp [BTIndex.setPage, ne]
  constructor
  case connected => exact connected
  case linked =>
    apply represents.linked.replace represents.connected.distinct present
    · intro name _ ne
      exact untouched name ne
    intro _ same
    apply Linked.cons _ .nil
    constructor
    · rw [written]
      exact leaf
    · rw [written]
      exact holds
    · rw [written, next, same]
      rfl
  case root =>
    refine represents.root.congr rfl ?_ rfl rfl replaceLeaf_blocks (le_refl _)
    intro name absent _
    apply untouched
    rintro rfl
    exact absent present
  case allocated =>
    simp only [replaceLeaf_blocks]
    exact represents.allocated
  case sized => exact sized

theorem btinsert_of_room (represents : Represents index chain)
    (bounded : index.nblocks ≤ 2 ^ 32) (valid : KeyValid kind key)
    (room : hasRoom (itemsAt (chain.target (btCompareKeys kind) key)
      chain.leaves) (btBuildItem kind key tid)) : Represents (btinsert kind index key tid).index
        (chain.place (btCompareKeys kind) btItemGetKey (btBuildItem kind key tid)) ∧
      (btinsert kind index key tid).ignored = [] ∧ (btinsert kind index key tid).rootFull = false ∧
      (btinsert kind index key tid).index.nblocks = index.nblocks ∧
      (btinsert kind index key tid).index.metaPage = index.metaPage := by
  have present : chain.target (btCompareKeys kind) key ∈
      chain.leaves.map fst := represents.connected.target_mem key
  have toTarget := represents.target_eq bounded kind key
  have grown : (chain.place (btCompareKeys kind) btItemGetKey
      (btBuildItem kind key tid)).contents.Perm _ :=
    contents_place represents.connected
  have connected : (chain.place (btCompareKeys kind) btItemGetKey
      (btBuildItem kind key tid)).Connected := represents.connected.place _
  unfold RoutedChain.place RoutedChain.grown at grown connected ⊢
  rw [btItemGetKey_buildItem valid] at grown connected ⊢
  generalize chain.target (btCompareKeys kind) key = block at *
  obtain ⟨_, leafAt⟩ := represents.leafAt present
  have placed := leafAt.holds.insertItem_of_room room (btFindPos (index.pages block).page kind key)
  have used : btFindPos (index.pages block).page kind key ≠
      kInvalidOffsetNumber := by
    rw [leafAt.holds.findPos]
    exact Nat.succ_ne_zero _
  have result : btinsert kind index key tid =
      { index := index.setPage block
          { index.pages block with
            page := inserted (index.pages block).page
              (btBuildItem kind key tid)
              (btFindPos (index.pages block).page kind key) }
        ignored := [], rootFull := false } := by
    unfold btinsert
    dsimp only
    rw [toTarget, placed]
    simp [used]
  rw [result]
  refine ⟨?_, rfl, rfl, rfl, rfl⟩
  apply represents.setLeaf present
  · exact leafAt.leaf
  · have enough := of_decide_eq_true room
    rw [leafAt.holds.findPos, ← insertIdx_buildItem valid]
    apply leafAt.holds.inserted List.findIdx_le_length
    omega
  · rfl
  · exact connected
  · exact represents.grown_sized valid grown

theorem mem_replaceLeaf_blocks (mem : name ∈ (replaceLeaf block parts leaves).map fst) :
    name ∈ parts.map fst ∨ name ∈ leaves.map fst := by
  induction leaves with
  | nil => simp [replaceLeaf] at mem
  | cons _ _ ih =>
    unfold replaceLeaf at mem
    split at mem
    · rw [List.map_append, List.mem_append] at mem
      rcases mem with new | old
      · exact .inl new
      · exact .inr (List.mem_cons_of_mem _ old)
    rw [List.map_cons, List.mem_cons] at mem
    rcases mem with rfl | later
    · exact .inr (by simp)
    rcases ih later with new | old
    · exact .inl new
    · exact .inr (List.mem_cons_of_mem _ old)

theorem Represents.unused (represents : Represents index chain) :
    index.nblocks ∉ chain.leaves.map fst := by
  intro mem
  exact absurd (represents.allocated _ mem).2 (lt_irrefl _)

theorem Represents.cutLeaf (represents : Represents index chain) (valid : KeyValid kind key)
    (target : chain.target (btCompareKeys kind) (btItemGetKey (btBuildItem kind key tid)) = block)
    (parts : left ++ head :: right = chain.grown (btCompareKeys kind)
      btItemGetKey (btBuildItem kind key tid)) (leftAt : LeafAt other block left index.nblocks)
    (rightAt : LeafAt other index.nblocks (head :: right) (index.pages block).special.btpoNext)
    (untouched : ∀ name ∈ chain.leaves.map fst, name ≠ block →
      other.pages name = index.pages name) (extended : index.nblocks < other.nblocks)
    (root : RootHolds other (chain.split (btCompareKeys kind) btItemGetKey
      (btBuildItem kind key tid) index.nblocks routed left head right)) :
    Represents other (chain.split (btCompareKeys kind) btItemGetKey
      (btBuildItem kind key tid) index.nblocks routed left head right) := by
  have present : block ∈ chain.leaves.map fst := target ▸ represents.connected.target_mem _
  constructor
  case connected => exact represents.connected.split _ represents.unused ..
  case linked =>
    unfold split
    rw [target]
    apply represents.linked.replace represents.connected.distinct present untouched
    intro _ same
    rw [same] at rightAt
    exact .cons leftAt (.cons rightAt .nil)
  case root => exact root
  case allocated =>
    unfold split
    rw [target]
    intro name mem
    have old := represents.allocated block present
    rcases mem_replaceLeaf_blocks mem with new | listed
    · rcases List.mem_cons.1 new with rfl | fresh
      · exact ⟨old.1, by omega⟩
      · obtain rfl : name = index.nblocks := by simpa using fresh
        exact ⟨by omega, extended⟩
    · have := represents.allocated name listed
      exact ⟨this.1, by omega⟩
  case sized =>
    apply represents.grown_sized valid
    exact contents_split represents.connected parts

theorem Holds.splitEntries (holds : Holds page items) (valid : KeyValid kind key) :
    btSplitEntries kind key (btBuildItem kind key tid) page =
      insertSorted (btCompareKeys kind) btItemGetKey (btBuildItem kind key tid) items := by
  rw [btSplitEntries, holds.readAllItems]
  exact insertIdx_buildItem valid

theorem Represents.entries_sized (represents : Represents index chain) (valid : KeyValid kind key) :
    ∀ entry ∈ chain.grown (btCompareKeys kind) btItemGetKey (btBuildItem kind key tid),
      kBTItemSize ≤ entry.length ∧ entry.length ≤ 256 := by
  intro entry mem
  rcases mem_insertSorted.1 mem with rfl | old
  · exact length_buildItem valid tid
  · exact represents.sized entry ((itemsAt_sublist ..).subset old)

/-- The entries of a full leaf in two nonempty parts, each of which fits on a
page. -/
structure Halves (kind : BTKeyKind) (key : List UInt8) (tid : ItemPointerData) (chain : BTChain)
    (left : List (List UInt8)) (head : List UInt8) (right : List (List UInt8)) : Prop where
  parts : left ++ head :: right = chain.grown (btCompareKeys kind) btItemGetKey
    (btBuildItem kind key tid)
  middle : left.length = (left ++ head :: right).length / 2
  nonempty : left ≠ []
  leftFits : pageCost left ≤ pageCapacity
  rightFits : pageCost (head :: right) ≤ pageCapacity

theorem Represents.exists_halves (represents : Represents index chain) (valid : KeyValid kind key)
    (full : hasRoom (itemsAt (chain.target (btCompareKeys kind) key)
      chain.leaves) (btBuildItem kind key tid) = false) :
    ∃ left head right, Halves kind key tid chain left head right := by
  have itemSize := length_buildItem valid tid
  have itemMost : itemCost (btBuildItem kind key tid) ≤ 260 := by
    unfold itemCost maxAlignUp kItemIdSize
    omega
  obtain ⟨_, leafAt⟩ := represents.leafAt (represents.connected.target_mem key)
  have cost := leafAt.holds.cost_le
  have perm : (chain.grown (btCompareKeys kind) btItemGetKey (btBuildItem kind key tid)).Perm _ :=
    insertSorted_perm
  rw [btItemGetKey_buildItem valid] at perm
  generalize grown : chain.grown (btCompareKeys kind) btItemGetKey
    (btBuildItem kind key tid) = entries at perm
  generalize itemsAt (chain.target (btCompareKeys kind) key) chain.leaves = items at *
  have total : pageCost entries ≤ pageCapacity + 260 := by
    have sum : pageCost entries = itemCost (btBuildItem kind key tid) + pageCost items := by
      unfold pageCost
      rw [(perm.map itemCost).sum_eq, List.map_cons, List.sum_cons]
    omega
  have several : 2 ≤ entries.length := by
    have occupied : items ≠ [] := by
      rintro rfl
      have tooMuch := of_decide_eq_false full
      have empty : pageCost [] = 0 := rfl
      unfold pageCapacity kBlckSz kBTPageOpaqueSize kPageHeaderSize kItemIdSize at tooMuch
      omega
    have := List.length_pos_of_ne_nil occupied
    rw [perm.length_eq, List.length_cons]
    omega
  obtain ⟨leftFits, rightFits⟩ :=
    halves_fit (by rw [← grown]; exact represents.entries_sized valid) total
  have middle : entries.length / 2 < entries.length := by omega
  have parts := List.take_append_drop (entries.length / 2) entries
  rw [List.drop_eq_getElem_cons middle] at parts rightFits
  refine ⟨_, _, _, parts.trans grown.symm, ?_, ?_, leftFits, rightFits⟩
  · rw [parts, List.length_take]
    omega
  apply List.ne_nil_of_length_pos
  rw [List.length_take]
  omega

theorem holds_written (flags : BitVec 32) (level : Nat) (cost : pageCost items ≤ pageCapacity) :
    Holds (btAddItems (btInitPage flags level).page items).1 items ∧
      ∀ result ∈ (btAddItems (btInitPage flags level).page items).2,
        result ≠ kInvalidOffsetNumber := by
  have room : pageCost [] + pageCost items ≤ pageCapacity := by
    have empty : pageCost [] = 0 := rfl
    omega
  exact (holds_init flags level).addItems room

theorem middle_parts (parts : left ++ head :: right = entries)
    (middle : left.length = (left ++ head :: right).length / 2) :
    entries.take (entries.length / 2) = left ∧ entries.drop (entries.length / 2) = head :: right ∧
      entries.getD (entries.length / 2) [] = head := by
  rw [← parts, ← middle]
  simp

theorem leafAt_of_written (written : other.pages block = { page := page, special :=
          { btpoPrev := previous, btpoNext := next, btpoFlags := kBtpLeaf, btpoLevel := 0 } })
    (holds : Holds page items) : LeafAt other block items next := by
  constructor
  · rw [written]
    exact (by decide : hasFlag kBtpLeaf kBtpLeaf)
  · rw [written]
    exact holds
  · rw [written]

theorem rootEntries_cost (first fresh : Nat) (size : head.length ≤ 256) :
    pageCost (rootEntries first [(fresh, btItemGetKey head)]) ≤ pageCapacity := by
  have shorter : (btItemGetKey head).length ≤ 256 := by
    rw [btItemGetKey, List.length_drop]
    omega
  simp only [pageCost, rootEntries, List.map_cons, List.map_nil, List.sum_cons, List.sum_nil,
    itemCost, length_internalEntry, List.length_nil]
  unfold maxAlignUp kItemIdSize pageCapacity kBlckSz kBTPageOpaqueSize
    kPageHeaderSize kBlockNumberSize
  omega

section

variable (represents : Represents index chain) (valid : KeyValid kind key)

include represents valid

section

variable (halves : Halves kind key tid chain left head right)

include halves

theorem Halves.entries
    (target : chain.target (btCompareKeys kind) (btItemGetKey (btBuildItem kind key tid)) = block) :
    left ++ head :: right =
      btSplitEntries kind key (btBuildItem kind key tid) (index.pages block).page := by
  obtain ⟨_, leafAt⟩ := represents.leafAt (target ▸ represents.connected.target_mem _)
  rw [leafAt.holds.splitEntries valid, halves.parts, RoutedChain.grown, target]

theorem btSplitRootLeaf_represents (routes : chain.routes = [])
    (only : chain.leaves.map fst = [chain.first]) :
    Represents (btSplitRootLeaf kind index key (btBuildItem kind key tid) chain.first).index
        (chain.split (btCompareKeys kind) btItemGetKey
          (btBuildItem kind key tid) index.nblocks true left head right) ∧
      ∀ result ∈ (btSplitRootLeaf kind index key (btBuildItem kind key tid)
          chain.first).ignored, result ≠ kInvalidOffsetNumber := by
  have target : chain.target (btCompareKeys kind) (btItemGetKey
      (btBuildItem kind key tid)) = chain.first := by
    rw [target, routes]
    rfl
  have present := represents.first_mem
  have below := (represents.allocated _ present).2
  have apart : chain.first ≠ index.nblocks + 1 := by omega
  have last : (index.pages chain.first).special.btpoNext = 0 := by
    obtain ⟨_, single, same⟩ := List.map_eq_singleton_iff.1 only
    have linked := represents.linked
    rw [single, linked_cons] at linked
    rw [← same]
    exact linked.1.next
  have headSize : head.length ≤ 256 := by
    have mem : head ∈ left ++ head :: right := by simp
    rw [halves.parts] at mem
    exact (represents.entries_sized valid head mem).2
  obtain ⟨leftHolds, leftAdded⟩ := holds_written kBtpLeaf 0 halves.leftFits
  obtain ⟨rightHolds, rightAdded⟩ := holds_written kBtpLeaf 0 halves.rightFits
  obtain ⟨rootHolds, rootAdded⟩ := holds_written kBtpRoot 1
    (rootEntries_cost chain.first index.nblocks headSize)
  obtain ⟨takes, drops, gets⟩ :=
    middle_parts (halves.entries represents valid target) halves.middle
  unfold btSplitRootLeaf
  dsimp only
  rw [takes, drops, gets]
  constructor
  · apply represents.cutLeaf valid target halves.parts
    case extended => exact Nat.lt_add_of_pos_right Nat.two_pos
    case leftAt =>
      apply leafAt_of_written _ leftHolds
      · exact 0
      · simp [apart, below.ne, btInitPage]
    case rightAt =>
      rw [last]
      apply leafAt_of_written _ rightHolds
      · exact chain.first
      · simp [btInitPage]
    case untouched =>
      intro _ mem ne
      rw [only, List.mem_singleton] at mem
      exact absurd mem ne
    case root =>
      unfold split
      rw [routes, target]
      apply RootHolds.internal
      · simp only [Function.update_self]
        exact (by decide : hasFlag kBtpRoot kBtpLeaf = false)
      · simp only [Function.update_self]
        exact rootHolds
      · intro mem
        rcases mem_replaceLeaf_blocks mem with new | old
        · simp [apart.symm] at new
        have := (represents.allocated _ old).2
        simp only at this
        omega
      · exact lt_add_one _
  · intro result mem
    simp only [List.mem_append] at mem
    rcases mem with (inLeft | inRight) | inRoot
    · exact leftAdded result inLeft
    · exact rightAdded result inRight
    · exact rootAdded result inRoot

/-- The split of a leaf under an internal root, which has room for the
separator or stays as it is. -/
theorem btSplitLeaf_represents (inner : btIsLeafPage (index.pages index.metaPage.root) = false)
    (holds : Holds (index.pages index.metaPage.root).page (rootEntries chain.first chain.routes))
    (apart : index.metaPage.root ∉ chain.leaves.map fst)
    (allocated : index.metaPage.root < index.nblocks)
    (target : chain.target (btCompareKeys kind) (btItemGetKey (btBuildItem kind key tid)) = block) :
    Represents (btSplitLeaf kind index key (btBuildItem kind key tid)
          index.metaPage.root block).index
        (chain.split (btCompareKeys kind) btItemGetKey (btBuildItem kind key tid) index.nblocks
          (!(btSplitLeaf kind index key (btBuildItem kind key tid)
            index.metaPage.root block).rootFull) left head right) ∧
      ∀ result ∈ (btSplitLeaf kind index key (btBuildItem kind key tid)
          index.metaPage.root block).ignored, result ≠ kInvalidOffsetNumber := by
  have present : block ∈ chain.leaves.map fst := target ▸ represents.connected.target_mem _
  have below := (represents.allocated _ present).2
  have elsewhere : block ≠ index.metaPage.root := by
    rintro rfl
    exact apart present
  obtain ⟨leftHolds, leftAdded⟩ := holds_written kBtpLeaf 0 halves.leftFits
  obtain ⟨rightHolds, rightAdded⟩ := holds_written kBtpLeaf 0 halves.rightFits
  obtain ⟨takes, drops, gets⟩ :=
    middle_parts (halves.entries represents valid target) halves.middle
  constructor
  · have rootHolds := holds.insertSeparator kind index.nblocks (btItemGetKey head)
    unfold btSplitLeaf
    dsimp only
    rw [takes, drops, gets]
    apply represents.cutLeaf valid target halves.parts
    case extended => exact lt_add_one _
    case leftAt =>
      apply leafAt_of_written _ leftHolds
      · exact 0
      · simp [elsewhere, below.ne, btInitPage]
    case rightAt =>
      apply leafAt_of_written _ rightHolds
      · exact block
      · simp [allocated.ne', btInitPage]
    case untouched =>
      intro name mem ne
      have notRoot : name ≠ index.metaPage.root := by
        rintro rfl
        exact apart mem
      have notFresh := (represents.allocated name mem).2.ne
      simp [notRoot, notFresh, ne]
    case root =>
      unfold split
      rw [target]
      apply RootHolds.internal
      · simpa [btIsLeafPage] using inner
      · simpa using rootHolds
      · intro mem
        rcases mem_replaceLeaf_blocks mem with new | old
        · simp [allocated.ne, elsewhere.symm] at new
        · exact apart old
      · exact Nat.lt_succ_of_lt allocated
  · intro result mem
    unfold btSplitLeaf at mem
    dsimp only at mem
    rw [takes, drops, List.mem_append] at mem
    rcases mem with inLeft | inRight
    · exact leftAdded result inLeft
    · exact rightAdded result inRight

end

theorem btinsert_of_full (bounded : index.nblocks ≤ 2 ^ 32)
    (full : hasRoom (itemsAt (chain.target (btCompareKeys kind) key)
      chain.leaves) (btBuildItem kind key tid) = false) :
    ∃ left head right, Halves kind key tid chain left head right ∧
      Represents (btinsert kind index key tid).index (chain.split (btCompareKeys kind) btItemGetKey
          (btBuildItem kind key tid) index.nblocks
          (!(btinsert kind index key tid).rootFull) left head right) ∧
      ∀ result ∈ (btinsert kind index key tid).ignored, result ≠ kInvalidOffsetNumber := by
  have toTarget := represents.target_eq bounded kind key
  obtain ⟨_, leafAt⟩ := represents.leafAt (represents.connected.target_mem key)
  obtain ⟨left, head, right, halves⟩ := represents.exists_halves valid full
  refine ⟨left, head, right, halves, ?_⟩
  have notPlaced := leafAt.holds.insertItem_of_full full
    (btFindPos (index.pages (chain.target (btCompareKeys kind) key)).page kind key)
  have result : btinsert kind index key tid =
      if btIsLeafPage (index.pages index.metaPage.root) then
        btSplitRootLeaf kind index key (btBuildItem kind key tid) index.metaPage.root
      else
        btSplitLeaf kind index key (btBuildItem kind key tid)
          index.metaPage.root (chain.target (btCompareKeys kind) key) := by
    unfold btinsert
    dsimp only
    rw [toTarget, notPlaced]
    simp
  rw [result]
  cases represents.root with
  | leaf routes only root =>
    obtain ⟨_, rootAt⟩ := represents.leafAt represents.first_mem
    rw [root, if_pos rootAt.leaf]
    exact btSplitRootLeaf_represents represents valid halves routes only
  | internal inner holds apart allocated =>
    rw [if_neg (by simp [inner])]
    exact btSplitLeaf_represents represents valid halves inner holds apart allocated
      (by rw [btItemGetKey_buildItem valid])

end

/-- The chain of an index without entries. -/
def emptyChain : BTChain := { first := 1, routes := [], leaves := [(1, [])] }

theorem btbuild_represents : Represents btbuild emptyChain := by
  constructor
  case connected =>
    constructor
    · exact ⟨[], [], rfl⟩
    · simp [emptyChain]
    · simp [emptyChain]
  case linked =>
    apply Linked.cons _ .nil
    constructor
    · exact (by decide : hasFlag (kBtpLeaf ||| kBtpRoot) kBtpLeaf)
    · exact holds_init ..
    · rfl
  case root => exact .leaf rfl rfl rfl
  case allocated => simp [emptyChain, btbuild]
  case sized => simp [emptyChain, contents]

end

end Pgcpp.Access
