import Pgcpp.Access.PageChains
import Pgcpp.Access.Spgist
import Pgcpp.Lib.BlockTrie

/-!
# The trie of an SP-GiST index

Every page of the file is a block of one trie.  The keys of a leaf agree with
the bits that the pages above it test.
-/

namespace Pgcpp.Access

open Lib SpgistInternalEntry BitVec

theorem extractBit_eq : extractBit key pos = if key.getLsbD pos then 1#32 else 0#32 := by
  rw [extractBit, and_one_eq_setWidth_ofBool_getLsbD, getLsbD_ushiftRight]
  cases key.getLsbD pos with
  | false => rfl
  | true => rfl

theorem extractBit_eq_zero_iff : extractBit key pos = 0 ↔ key.getLsbD pos = false := by
  rw [extractBit_eq]
  cases key.getLsbD pos with
  | false => simp
  | true => simp

theorem highestSetBit_spec (found : 0 ≤ highestSetBit mask count) :
    (highestSetBit mask count).toNat < count ∧ mask.getLsbD (highestSetBit mask count).toNat := by
  induction count with
  | zero => contradiction
  | succ _ ih =>
    rw [highestSetBit] at found ⊢
    split_ifs at found ⊢ with clear
    · obtain ⟨below, isSet⟩ := ih found
      exact ⟨Nat.lt_succ_of_lt below, isSet⟩
    refine ⟨lt_add_one _, ?_⟩
    rw [← twoPow_eq, and_twoPow] at clear
    exact of_not_not fun isClear => clear (if_neg isClear)

theorem getLsbD_foldl_differences (keys : List (BitVec 32)) (mask : BitVec 32) :
    (keys.foldl (fun mask key => mask ||| (first ^^^ key)) mask).getLsbD pos = (mask.getLsbD pos ||
        keys.any fun key => first.getLsbD pos ^^ key.getLsbD pos) := by
  induction keys generalizing mask with
  | nil => simp
  | cons key _ ih =>
    rw [List.foldl_cons, ih, List.any_cons, getLsbD_or, getLsbD_xor, Bool.or_assoc]

theorem highestDifferingBit_spec (found : 0 ≤ highestDifferingBit keys) :
    (highestDifferingBit keys).toNat < 32 ∧ ∀ value, ∃ key ∈ keys,
        key.getLsbD (highestDifferingBit keys).toNat = value := by
  cases keys with
  | nil => contradiction
  | cons first _ =>
    rw [highestDifferingBit] at found ⊢
    split_ifs at found ⊢ with same
    · contradiction
    obtain ⟨small, isSet⟩ := highestSetBit_spec found
    refine ⟨small, ?_⟩
    rw [getLsbD_foldl_differences] at isSet
    generalize (highestSetBit _ 32).toNat = pos at isSet ⊢
    rw [show (0 : BitVec 32).getLsbD pos = false from getLsbD_zero,
      Bool.false_or, List.any_eq_true] at isSet
    obtain ⟨other, mem, ne⟩ := isSet
    intro value
    by_cases isFirst : first.getLsbD pos = value
    · exact ⟨first, List.mem_cons_self, isFirst⟩
    refine ⟨other, List.mem_cons_of_mem _ mem, ?_⟩
    revert ne isFirst
    cases first.getLsbD pos <;> cases other.getLsbD pos <;>
      cases value <;> simp

def spgistBits (entry : IndexEntry) (pos : Nat) : Bool := (int32Key entry.1).getLsbD pos

theorem spgistEntryOf_bytes : spgistEntryOf entry.bytes = entry := by
  obtain ⟨bitValue, child⟩ := entry
  have words : bytes ⟨bitValue, child⟩ = wordBytes [bitValue, child] := by simp [bytes, wordBytes]
  have first := @field_wordBytes [bitValue, child] 0 bitValue rfl
  have second := @field_wordBytes [bitValue, child] 1 child rfl
  simp [spgistEntryOf, words, first, second]

def spgistChildren (left right : Nat) : List (List UInt8) :=
  [bytes ⟨0, BitVec.ofNat 32 left⟩, bytes ⟨1, BitVec.ofNat 32 right⟩]

def SpgistPage (page : BTPage) : TrieNode IndexEntry → Prop
  | .leaf entries => spgistIsLeaf page ∧ Holds page.page (entries.map int32Item)
  | .test position left right =>
    spgistIsLeaf page = false ∧ page.special.btpoLevel = position ∧ left < 2 ^ 32 ∧ right < 2 ^ 32 ∧
      Holds page.page (spgistChildren left right)

theorem spgistChild_of_test (isTest : SpgistPage page (.test pos left right)) :
    spgistChild page key = some (if key.getLsbD pos then right else left) := by
  obtain ⟨-, level, leftSmall, rightSmall, holds⟩ := isTest
  have search := IndexFile.find?_offset holds fun item =>
    (spgistEntryOf item).bitValue = extractBit key pos
  have leftItem : page.page.item (0 + 1) = bytes ⟨0, BitVec.ofNat 32 left⟩ := holds.item_eq rfl
  have rightItem : page.page.item (1 + 1) = bytes ⟨1, BitVec.ofNat 32 right⟩ := holds.item_eq rfl
  rw [spgistChild, level, search, spgistChildren, extractBit_eq]
  cases key.getLsbD pos with
  | false =>
    have found : List.findIdx? (fun item =>
        (spgistEntryOf item).bitValue =
          if false = true then 1#32 else 0#32)
        [bytes ⟨0, BitVec.ofNat 32 left⟩, bytes ⟨1, BitVec.ofNat 32 right⟩] =
        some 0 := by
      simp [List.findIdx?_cons, spgistEntryOf_bytes]
    rw [found, Option.map_some, Option.map_some, leftItem,
      spgistEntryOf_bytes, toNat_ofNat, Nat.mod_eq_of_lt leftSmall]
    rfl
  | true =>
    have found : List.findIdx? (fun item =>
        (spgistEntryOf item).bitValue =
          if true = true then 1#32 else 0#32)
        [bytes ⟨0, BitVec.ofNat 32 left⟩, bytes ⟨1, BitVec.ofNat 32 right⟩] =
        some 1 := by
      simp [List.findIdx?_cons, spgistEntryOf_bytes]
    rw [found, Option.map_some, Option.map_some, rightItem,
      spgistEntryOf_bytes, toNat_ofNat, Nat.mod_eq_of_lt rightSmall]
    rfl

section

variable {nodes : Nat → TrieNode IndexEntry}

theorem spgistDescendFrom_of_trie (trie : TrieAt spgistBits 32 nodes path block blocks)
    (pages : ∀ block ∈ blocks, SpgistPage (index.pages block) (nodes block))
    (way : Descends key.getLsbD nodes steps block leaf) (enough : steps < fuel) :
    spgistDescendFrom index key fuel block = some (some leaf) := by
  induction way generalizing path blocks fuel with
  | @here block entries isLeaf =>
    obtain ⟨fuel, rfl⟩ := Nat.exists_eq_succ_of_ne_zero (enough.ne')
    have page : SpgistPage (index.pages block) (.leaf entries) := by
      rw [← isLeaf]
      apply pages
      cases trie with
      | leaf => exact List.mem_cons_self
      | test => exact List.mem_cons_self
    exact if_pos page.1
  | @step steps block pos _ _ leaf isTest _ ih =>
    obtain ⟨fuel, rfl⟩ := Nat.exists_eq_succ_of_ne_zero
      (Nat.ne_of_gt (Nat.lt_of_le_of_lt (Nat.zero_le _) enough))
    have enoughLater : steps < fuel := Nat.lt_of_succ_lt_succ enough
    cases trie with
    | leaf isLeaf => cases isLeaf.symm.trans isTest
    | test otherTest _ _ leftTrie rightTrie =>
      cases isTest.symm.trans otherTest
      have page := pages block List.mem_cons_self
      rw [isTest] at page
      rw [spgistDescendFrom, page.1, spgistChild_of_test page]
      cases direction : key.getLsbD pos with
      | false =>
        rw [direction] at ih
        apply ih leftTrie _ enoughLater
        intro other mem
        exact pages other (List.mem_cons_of_mem _ (List.mem_append_left _ mem))
      | true =>
        rw [direction] at ih
        apply ih rightTrie _ enoughLater
        intro other mem
        exact pages other (List.mem_cons_of_mem _ (List.mem_append_right _ mem))

theorem spgistInsertFrom_of_descend
    (descended : spgistDescendFrom index key fuel block = some (some leaf)) :
    spgistInsertFrom index key item fuel block = spgistInsertLeaf index leaf item := by
  induction fuel generalizing block with
  | zero => contradiction
  | succ fuel ih =>
    rw [spgistDescendFrom] at descended
    rw [spgistInsertFrom]
    split_ifs at descended ⊢ with isLeaf
    · obtain rfl : block = leaf := by
        injection descended with found
        injection found
      rfl
    cases child : spgistChild (index.pages block) key with
    | none =>
      rw [child] at descended
      injection descended with found
      contradiction
    | some child =>
      rw [child] at descended
      exact ih descended

end

end Pgcpp.Access
