import Mathlib.Data.List.Perm.Subperm
import Mathlib.Data.List.Nodup

/-!
# Binary tries stored in blocks

A block of a trie is a leaf with values, or it tests one bit and names a block
for each value of the bit.  The values of a leaf agree with the tests on the way
to it, so every value is in the leaf that its own bits lead to.
-/

namespace Pgcpp.Lib

open List Prod

universe u

inductive TrieNode (Value : Type u) where
  | leaf (values : List Value)
  | test (position left right : Nat)

def TrieNode.values {Value : Type u} : TrieNode Value → List Value
  | .leaf values => values
  | .test _ _ _ => []

/-- Bits with the values that the tests of a path found. -/
def AgreesOn (bits : Nat → Bool) (path : List (Nat × Bool)) : Prop :=
  ∀ test ∈ path, bits test.1 = test.2

variable {path : List (Nat × Bool)}

theorem AgreesOn.cons {bits : Nat → Bool} (agrees : AgreesOn bits path) {pos : Nat} {value : Bool}
    (same : bits pos = value) : AgreesOn bits ((pos, value) :: path) := by
  exact forall_mem_cons.2 ⟨same, agrees⟩

theorem AgreesOn.head (agrees : AgreesOn bits ((pos, value) :: path)) : bits pos = value :=
  agrees (pos, value) mem_cons_self

theorem AgreesOn.tail (agrees : AgreesOn bits (test :: path)) : AgreesOn bits path := by
  intro earlier mem
  exact agrees earlier (mem_cons_of_mem _ mem)

variable {Value : Type u} {bits : Value → Nat → Bool} {node after : Nat → TrieNode Value}

/-- The trie at a block, behind a path of tests, with its blocks.  No test is
made twice on a path. -/
inductive TrieAt (bits : Value → Nat → Bool) (width : Nat) (node : Nat → TrieNode Value) :
    List (Nat × Bool) → Nat → List Nat → Prop where
  | leaf {path : List (Nat × Bool)} {block : Nat} {values : List Value}
      (isLeaf : node block = .leaf values) (agree : ∀ value ∈ values, AgreesOn (bits value) path) :
      TrieAt bits width node path block [block]
  | test {path : List (Nat × Bool)} {block position left right : Nat}
      {leftBlocks rightBlocks : List Nat}
      (isTest : node block = .test position left right)
      (small : position < width) (new : position ∉ path.map fst)
      (leftTrie : TrieAt bits width node ((position, false) :: path) left leftBlocks)
      (rightTrie : TrieAt bits width node ((position, true) :: path) right rightBlocks) :
      TrieAt bits width node path block (block :: (leftBlocks ++ rightBlocks))

/-- The way from a block to a leaf, with the number of its steps. -/
inductive Descends (key : Nat → Bool) (node : Nat → TrieNode Value) : Nat → Nat → Nat → Prop where
  | here {block : Nat} {values : List Value}
      (isLeaf : node block = .leaf values) : Descends key node 0 block block
  | step {steps block position left right leaf : Nat}
      (isTest : node block = .test position left right)
      (later : Descends key node steps (if key position then right else left) leaf) :
      Descends key node (steps + 1) block leaf

theorem TrieAt.frame (trie : TrieAt bits width node path block blocks)
    (same : ∀ other ∈ blocks, after other = node other) :
    TrieAt bits width after path block blocks := by
  induction trie with
  | leaf isLeaf agree =>
    apply TrieAt.leaf _ agree
    rw [same _ mem_cons_self, isLeaf]
  | test isTest small new _ _ inductionLeft inductionRight =>
    apply TrieAt.test _ small new
    · apply inductionLeft
      intro other mem
      exact same other (mem_cons_of_mem _ (mem_append_left _ mem))
    · apply inductionRight
      intro other mem
      exact same other (mem_cons_of_mem _ (mem_append_right _ mem))
    · rw [same _ mem_cons_self, isTest]

variable {key : Nat → Bool} {leaf : Nat}

theorem Descends.unique (descends : Descends key node steps block leaf)
    (otherWay : Descends key node otherSteps block other) : other = leaf := by
  induction descends generalizing otherSteps with
  | here isLeaf =>
    cases otherWay with
    | here => rfl
    | step isTest => cases isLeaf.symm.trans isTest
  | step isTest _ ih =>
    cases otherWay with
    | here isLeaf => cases isLeaf.symm.trans isTest
    | step otherTest later =>
      cases isTest.symm.trans otherTest
      exact ih later

theorem Descends.isLeaf (descends : Descends key node steps block leaf) :
    ∃ values, node leaf = .leaf values := by
  induction descends with
  | here isLeaf => exact ⟨_, isLeaf⟩
  | step _ _ ih => exact ih

theorem length_path_le (distinct : (path.map fst).Nodup)
    (bounded : ∀ pos ∈ path.map fst, pos < width) : path.length ≤ width := by
  have inside : path.map fst ⊆ List.range width := by
    intro pos mem
    exact mem_range.2 (bounded pos mem)
  have shorter := (distinct.subperm inside).length_le
  rwa [length_map, length_range] at shorter

section

variable (trie : TrieAt bits width node path block blocks)

include trie

/-- Every key leads to a leaf, with at most one step for each bit that was not
yet tested. -/
theorem TrieAt.descends (distinct : (path.map fst).Nodup)
    (bounded : ∀ pos ∈ path.map fst, pos < width) :
    ∃ steps leaf, Descends key node steps block leaf ∧ leaf ∈ blocks ∧
      path.length + steps ≤ width := by
  induction trie with
  | leaf isLeaf _ => exact ⟨0, _, .here isLeaf, mem_cons_self, length_path_le distinct bounded⟩
  | @test path block pos left right leftBlocks rightBlocks isTest small new
      _ _ inductionLeft inductionRight =>
      have distinctAfter (value : Bool) : (((pos, value) :: path).map fst).Nodup :=
        nodup_cons.2 ⟨new, distinct⟩
      have boundedAfter (value : Bool) : ∀ other ∈ ((pos, value) :: path).map fst,
            other < width := by
        exact forall_mem_cons.2 ⟨small, bounded⟩
      cases direction : key pos with
      | false =>
        obtain ⟨steps, leaf, later, mem, short⟩ :=
          inductionLeft (distinctAfter false) (boundedAfter false)
        refine ⟨steps + 1, leaf, .step isTest ?_, mem_cons_of_mem _ (mem_append_left _ mem), ?_⟩
        · rw [direction]
          exact later
        · rw [length_cons] at short
          omega
      | true =>
        obtain ⟨steps, leaf, later, mem, short⟩ :=
          inductionRight (distinctAfter true) (boundedAfter true)
        refine ⟨steps + 1, leaf, .step isTest ?_, mem_cons_of_mem _ (mem_append_right _ mem), ?_⟩
        · rw [direction]
          exact later
        · rw [length_cons] at short
          omega

theorem TrieAt.mem_of_descends (descends : Descends key node steps block leaf) : leaf ∈ blocks := by
  induction trie generalizing steps with
  | leaf isLeaf _ =>
    cases descends with
    | here => exact mem_cons_self
    | step isTest => cases isLeaf.symm.trans isTest
  | @test _ _ pos _ _ _ _ isTest _ _ _ _ inductionLeft inductionRight =>
    apply mem_cons_of_mem
    cases descends with
    | here isLeaf => cases isLeaf.symm.trans isTest
    | step otherTest later =>
      cases isTest.symm.trans otherTest
      cases direction : key pos with
      | false =>
        rw [direction] at later
        exact mem_append_left _ (inductionLeft later)
      | true =>
        rw [direction] at later
        exact mem_append_right _ (inductionRight later)

theorem TrieAt.descends_of_mem (mem : leaf ∈ blocks) (held : value ∈ (node leaf).values) :
    (∃ steps, Descends (bits value) node steps block leaf) ∧ AgreesOn (bits value) path := by
  induction trie with
  | leaf isLeaf agree =>
    rw [mem_singleton] at mem
    rw [mem, isLeaf] at held
    rw [mem]
    exact ⟨⟨0, .here isLeaf⟩, agree value held⟩
  | test isTest _ _ _ _ inductionLeft inductionRight =>
    rcases mem_cons.1 mem with isBlock | inside
    · rw [isBlock, isTest] at held
      contradiction
    rcases mem_append.1 inside with inLeft | inRight
    · obtain ⟨⟨steps, later⟩, agrees⟩ := inductionLeft inLeft
      refine ⟨⟨steps + 1, .step isTest ?_⟩, agrees.tail⟩
      rw [agrees.head]
      exact later
    · obtain ⟨⟨steps, later⟩, agrees⟩ := inductionRight inRight
      refine ⟨⟨steps + 1, .step isTest ?_⟩, agrees.tail⟩
      rw [agrees.head]
      exact later

theorem TrieAt.replace (descends : Descends key node steps block leaf)
    (distinct : blocks.Nodup) (agrees : AgreesOn key path)
    (same : ∀ other ∈ blocks, other ≠ leaf → after other = node other)
    (changed : ∀ path, AgreesOn key path →
      (∀ value ∈ (node leaf).values, AgreesOn (bits value) path) →
      TrieAt bits width after path leaf (leaf :: new)) :
    ∃ blocksAfter, TrieAt bits width after path block blocksAfter ∧
      blocksAfter.Perm (new ++ blocks) := by
  induction trie generalizing steps with
  | leaf isLeaf agree =>
    cases descends with
    | step isTest => cases isLeaf.symm.trans isTest
    | here =>
      refine ⟨_, changed _ agrees ?_, ?_⟩
      · rw [isLeaf]
        exact agree
      · exact (perm_append_singleton ..).symm
  | @test path block pos left right leftBlocks rightBlocks isTest small
      newTest leftTrie rightTrie inductionLeft inductionRight =>
      cases descends with
      | here isLeaf => cases isLeaf.symm.trans isTest
      | step otherTest later =>
        cases isTest.symm.trans otherTest
        obtain ⟨outside, inside⟩ := nodup_cons.1 distinct
        obtain ⟨leftDistinct, rightDistinct, apart⟩ := nodup_append.1 inside
        -- The side that the key does not lead to has not got the leaf.
        cases direction : key pos with
        | false =>
          rw [direction] at later
          have inLeft := leftTrie.mem_of_descends later
          obtain ⟨_, leftTrieAfter, isPerm⟩ :=
            inductionLeft later leftDistinct (agrees.cons direction)
              fun other mem => same other (mem_cons_of_mem _ (mem_append_left _ mem))
          have rightTrieAfter := rightTrie.frame fun other mem =>
            same other (mem_cons_of_mem _ (mem_append_right _ mem))
              (apart leaf inLeft other mem).symm
          have notLeaf : block ≠ leaf := by
            rintro rfl
            exact outside (mem_append_left _ inLeft)
          refine ⟨_, .test ?_ small newTest leftTrieAfter rightTrieAfter, ?_⟩
          · rw [same block mem_cons_self notLeaf, isTest]
          apply List.Perm.trans _ perm_middle.symm
          apply List.Perm.cons
          rw [← append_assoc]
          exact isPerm.append_right _
        | true =>
          rw [direction] at later
          have inRight := rightTrie.mem_of_descends later
          obtain ⟨_, rightTrieAfter, isPerm⟩ :=
            inductionRight later rightDistinct (agrees.cons direction)
              fun other mem => same other (mem_cons_of_mem _ (mem_append_right _ mem))
          have leftTrieAfter := leftTrie.frame fun other mem =>
            same other (mem_cons_of_mem _ (mem_append_left _ mem)) (apart other mem leaf inRight)
          have notLeaf : block ≠ leaf := by
            rintro rfl
            exact outside (mem_append_right _ inRight)
          refine ⟨_, .test ?_ small newTest leftTrieAfter rightTrieAfter, ?_⟩
          · rw [same block mem_cons_self notLeaf, isTest]
          apply List.Perm.trans _ perm_middle.symm
          apply List.Perm.cons
          apply List.Perm.trans (isPerm.append_left _)
          rw [← append_assoc, ← append_assoc]
          exact perm_append_comm.append_right _

end

theorem flatMap_replace_perm {Held : Type u} {before later : Nat → List Held} {new : List Nat}
    {added : List Held} (distinct : blocks.Nodup) (mem : leaf ∈ blocks)
    (same : ∀ other ∈ blocks, other ≠ leaf → later other = before other)
    (changed : (new.flatMap later ++ later leaf).Perm (before leaf ++ added)) :
    ((new ++ blocks).flatMap later).Perm (blocks.flatMap before ++ added) := by
  have first := perm_cons_erase mem
  have others : (blocks.erase leaf).flatMap later = (blocks.erase leaf).flatMap before := by
    apply flatMap_congr
    intro other inErased
    obtain ⟨ne, there⟩ := distinct.mem_erase_iff.1 inErased
    exact same other there ne
  have start : (blocks.flatMap before).Perm
      (before leaf ++ (blocks.erase leaf).flatMap before) := by
    exact first.flatMap_right _
  calc
    ((new ++ blocks).flatMap later).Perm
        (new.flatMap later ++ (later leaf ++ (blocks.erase leaf).flatMap before)) := by
      rw [flatMap_append, ← others, ← flatMap_cons]
      exact (first.flatMap_right _).append_left _
    List.Perm _ ((before leaf ++ added) ++ (blocks.erase leaf).flatMap before) := by
      rw [← append_assoc]
      exact changed.append_right _
    List.Perm _ ((before leaf ++ (blocks.erase leaf).flatMap before) ++ added) := by
      rw [append_assoc, append_assoc]
      exact perm_append_comm.append_left _
    List.Perm _ (blocks.flatMap before ++ added) := start.symm.append_right _

end Pgcpp.Lib
