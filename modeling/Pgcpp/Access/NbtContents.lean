import Pgcpp.Access.NbtRefinement

/-!
# The entries on the leaf chain

The leaf chain of an index starts at the leftmost leaf and follows `btpo_next`.
After any sequence of insertions it holds the inserted entries, and no item is
dropped when a full leaf is redistributed.
-/

namespace Pgcpp.Access

open Lib Storage Transaction List

/-- The blocks of leaves from `block` on, along `btpo_next`. -/
inductive LeafChain (index : BTIndex) : Nat → List Nat → Prop where
  | last (leaf : btIsLeafPage (index.pages block))
      (final : (index.pages block).special.btpoNext = 0) :
      LeafChain index block [block]
  | more {next : Nat} (leaf : btIsLeafPage (index.pages block))
      (link : (index.pages block).special.btpoNext = next)
      (linked : next ≠ 0) (later : LeafChain index next rest) :
      LeafChain index block (block :: rest)

/-- The key and the tuple identifier of an item. -/
def itemEntry (item : List UInt8) : IndexEntry :=
  (btItemGetKey item, btItemTid item)

def leafEntries (index : BTIndex) (block : Nat) : List IndexEntry :=
  (btReadAllItems (index.pages block).page).map itemEntry

theorem Linked.leafChain (linked : Linked index 0 ((block, items) :: leaves))
    (pos : ∀ name ∈ leaves.map Prod.fst, 0 < name) :
    LeafChain index block (block :: leaves.map Prod.fst) := by
  induction leaves generalizing block items with
  | nil =>
    obtain ⟨here, _⟩ := linked_cons.1 linked
    exact .last here.leaf here.next
  | cons leaf _ ih =>
    obtain ⟨here, later⟩ := linked_cons.1 linked
    apply LeafChain.more here.leaf here.next
    · exact (pos leaf.1 (by simp)).ne'
    apply ih later
    intro name mem
    exact pos name (mem_cons_of_mem _ mem)

theorem Linked.leafEntries_of_mem (linked : Linked index 0 leaves) (mem : leaf ∈ leaves) :
    leafEntries index leaf.1 = leaf.2.map itemEntry := by
  obtain ⟨_, _, rfl⟩ := append_of_mem mem
  obtain ⟨_, here, _⟩ := linked_append.1 linked |>.imp_right linked_cons.1
  rw [leafEntries, here.holds.readAllItems]

theorem Linked.flatMap_leafEntries (linked : Linked index 0 leaves) :
    (leaves.map Prod.fst).flatMap (leafEntries index) =
      (leaves.flatMap Prod.snd).map itemEntry := by
  rw [flatMap_map, map_flatMap]
  apply flatMap_congr
  intro _ mem
  exact linked.leafEntries_of_mem mem

section

variable (represents : Represents index chain)

include represents

theorem Represents.leafChain : LeafChain index chain.first (chain.leaves.map Prod.fst) := by
  obtain ⟨_, _, start⟩ := represents.connected.start
  have linked := represents.linked
  have allocated := represents.allocated
  rw [start] at linked allocated ⊢
  apply linked.leafChain
  intro name mem
  exact (allocated name (mem_cons_of_mem _ mem)).1

theorem Represents.leftmost_eq (bounded : index.nblocks ≤ 2 ^ 32) :
    btLeftmostLeaf index = chain.first := by
  unfold btLeftmostLeaf
  cases represents.root with
  | leaf _ _ root =>
    obtain ⟨_, leafAt⟩ := represents.leafAt represents.first_mem
    simp [root, leafAt.leaf]
  | internal inner holds =>
    have small : chain.first < 2 ^ 32 := by
      have := (represents.allocated _ represents.first_mem).2
      omega
    simp [inner, holds.root_maxOffsetNumber, holds.root_first small]

theorem btinsert_represents (bounded : index.nblocks ≤ 2 ^ 32) (valid : KeyValid kind key) :
    (∃ later, Represents (btinsert kind index key tid).index later ∧
      later.contents.Perm (btBuildItem kind key tid :: chain.contents)) ∧
    ∀ result ∈ (btinsert kind index key tid).ignored, result ≠ kInvalidOffsetNumber := by
  cases room : hasRoom (itemsAt (chain.target (btCompareKeys kind) key)
      chain.leaves) (btBuildItem kind key tid) with
  | true =>
    obtain ⟨placed, nothing, _⟩ := btinsert_of_room represents bounded valid room
    refine ⟨⟨_, placed, ?_⟩, ?_⟩
    · exact RoutedChain.contents_place represents.connected
    · simp [nothing]
  | false =>
    obtain ⟨_, _, _, halves, split, added⟩ := btinsert_of_full represents valid bounded room
    refine ⟨⟨_, split, ?_⟩, added⟩
    exact RoutedChain.contents_split represents.connected halves.parts

end

section

variable (kind : BTKeyKind)

include kind

theorem btinsert_nblocks (index : BTIndex) (key : List UInt8) (tid : ItemPointerData) :
    index.nblocks ≤ (btinsert kind index key tid).index.nblocks ∧
      (btinsert kind index key tid).index.nblocks ≤ index.nblocks + 2 := by
  unfold btinsert
  dsimp only
  generalize (if btIsLeafPage (index.pages index.metaPage.root) then
    index.metaPage.root else btChild index kind key) = leafBlock
  split
  · exact ⟨le_rfl, Nat.le_add_right ..⟩
  split
  · exact ⟨Nat.le_add_right .., le_rfl⟩
  · exact ⟨Nat.le_add_right .., Nat.le_succ _⟩

theorem btInsertAll_append : btInsertAll kind (before ++ [entry]) =
      (btinsert kind (btInsertAll kind before) entry.1 entry.2).index := by
  simp [btInsertAll]

theorem nblocks_le_btInsertAll (before after : List IndexEntry) :
    (btInsertAll kind before).nblocks ≤ (btInsertAll kind (before ++ after)).nblocks := by
  induction after using List.reverseRecOn with
  | nil => simp
  | append_singleton after _ ih =>
    rw [← append_assoc, btInsertAll_append]
    exact ih.trans (btinsert_nblocks ..).1

theorem btInsertAll_nblocks_le : (btInsertAll kind entries).nblocks ≤ 2 + 2 * entries.length := by
  induction entries using List.reverseRecOn with
  | nil => exact le_rfl
  | append_singleton before entry _ =>
    have step := (btinsert_nblocks kind (btInsertAll kind before) entry.1 entry.2).2
    rw [btInsertAll_append, length_append, length_singleton]
    omega

end

theorem perm_insert {later : List (List UInt8)} (valid : KeyValid kind entry.1)
    (grown : later.Perm (btBuildItem kind entry.1 entry.2 :: contents))
    (perm : (contents.map itemEntry).Perm before) :
    (later.map itemEntry).Perm (before ++ [entry]) := by
  apply (grown.map itemEntry).trans
  rw [map_cons, itemEntry, btItemGetKey_buildItem valid, btItemTid_buildItem]
  exact (perm.cons _).trans (perm_append_singleton ..).symm

theorem btInsertAll_represents (valid : KeysValid kind entries)
    (bounded : (btInsertAll kind entries).nblocks ≤ 2 ^ 32) :
    ∃ chain, Represents (btInsertAll kind entries) chain ∧
      (chain.contents.map itemEntry).Perm entries := by
  induction entries using List.reverseRecOn with
  | nil => exact ⟨emptyChain, btbuild_represents, .nil⟩
  | append_singleton before entry ih =>
    obtain ⟨validBefore, validEntry⟩ := forall_mem_append.1 valid
    have boundedBefore := (nblocks_le_btInsertAll kind before [entry]).trans bounded
    obtain ⟨chain, represents, perm⟩ := ih validBefore boundedBefore
    have validKey := validEntry entry (by simp)
    obtain ⟨⟨later, inserted, grown⟩, _⟩ := btinsert_represents represents
      boundedBefore validKey
    rw [btInsertAll_append]
    exact ⟨later, inserted, perm_insert validKey grown perm⟩

/-- Insertions lose and duplicate nothing, and each item of a full leaf is
written to one of its halves. -/
theorem btInsertAll_leafEntries (kind : BTKeyKind) (entries : List IndexEntry)
    (valid : KeysValid kind entries) (bounded : (btInsertAll kind entries).nblocks ≤ 2 ^ 32) :
    (∃ blocks, LeafChain (btInsertAll kind entries)
        (btLeftmostLeaf (btInsertAll kind entries)) blocks ∧
      (blocks.flatMap (leafEntries (btInsertAll kind entries))).Perm entries) ∧
    ∀ before entry after, entries = before ++ entry :: after →
      ∀ result ∈ (btinsert kind (btInsertAll kind before) entry.1 entry.2).ignored,
        result ≠ kInvalidOffsetNumber := by
  constructor
  · obtain ⟨chain, represents, perm⟩ := btInsertAll_represents valid bounded
    refine ⟨chain.leaves.map Prod.fst, ?_, ?_⟩
    · rw [represents.leftmost_eq bounded]
      exact represents.leafChain
    · rw [represents.linked.flatMap_leafEntries]
      exact perm
  · rintro before entry after rfl
    obtain ⟨validBefore, validAfter⟩ := forall_mem_append.1 valid
    have boundedBefore := (nblocks_le_btInsertAll kind before _).trans bounded
    obtain ⟨chain, represents, _⟩ := btInsertAll_represents validBefore boundedBefore
    exact (btinsert_represents represents boundedBefore (validAfter entry (by simp))).2

/-- Entries with text keys of growing length. -/
def growingRows (count : Nat) : List IndexEntry :=
  (List.range count).map fun number => (List.replicate number 97, ⟨0, BitVec.ofNat 16 number⟩)

theorem btInsertAll_leafEntries_growingRows : ∃ blocks,
      LeafChain (btInsertAll .text (growingRows 200))
        (btLeftmostLeaf (btInsertAll .text (growingRows 200))) blocks ∧
      (blocks.flatMap (leafEntries (btInsertAll .text
        (growingRows 200)))).Perm (growingRows 200) := by
  have valid : KeysValid .text (growingRows 200) := by
    intro entry member
    obtain ⟨_, small, rfl⟩ := mem_map.1 member
    rw [mem_range] at small
    simp only [KeyValid, kBTItemSize, length_replicate]
    omega
  have bounded : (btInsertAll .text (growingRows 200)).nblocks ≤ 2 ^ 32 := by
    apply (btInsertAll_nblocks_le ..).trans
    simp [growingRows]
  exact (btInsertAll_leafEntries .text (growingRows 200) valid bounded).1

end Pgcpp.Access
