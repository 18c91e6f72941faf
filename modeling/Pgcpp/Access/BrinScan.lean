import Pgcpp.Access.Brin
import Pgcpp.Access.ChainScan

/-!
# What a BRIN scan returns

The items behind the first one of every page, for the ranges whose summary
matches.  On a page of an overflow chain the first item is not a summary, but a
scan passes it over all the same.
-/

namespace Pgcpp.Access

open Lib Transaction IndexFile

variable {items : Nat → List (List UInt8)}

/-- The items that a scan still returns from a position of a chain on. -/
def brinBehind (items : Nat → List (List UInt8)) (block position : Nat)
    (rest : List Nat) : List (List UInt8) :=
  (items block).drop (max position 1) ++ rest.flatMap fun other => (items other).drop 1

theorem acceptedFrom_later (offset : Nat) : acceptedFrom brinIsTid (offset + 2) held = held := by
  induction held generalizing offset with
  | nil => rfl
  | cons item _ ih =>
    have accepted : brinIsTid (offset + 2) item := by simp [brinIsTid]
    rw [acceptedFrom, if_pos accepted, ih (offset + 1)]

theorem acceptedFrom_first : acceptedFrom brinIsTid 1 held = held.drop 1 := by
  cases held with
  | nil => rfl
  | cons _ rest => exact acceptedFrom_later 0

theorem acceptedBehind_brin :
    acceptedBehind brinIsTid items block pos rest = brinBehind items block pos rest := by
  simp only [acceptedBehind, acceptedFrom_first]
  congr 1
  cases pos with
  | zero => exact acceptedFrom_first
  | succ pos => rw [acceptedFrom_later, Nat.max_eq_left (Nat.le_add_left 1 _)]

section

variable (index : BrinIndex) (items : Nat → List (List UInt8)) (chains : Nat → List Nat)
  (scanKey : BTScanKeyData) (block : Nat)

/-- The items of a range that a scan returns. -/
def brinRangeItems : List (List UInt8) :=
  let summary := brinGetSummary (index.cache.read block).page
  if !summary.hasData || !brinRangeMatches summary scanKey then []
  else (chains block).flatMap fun page => (items page).drop 1

/-- The items of the ranges from a block on. -/
def brinItemsFrom : List (List UInt8) :=
  (List.range' block (index.metaPage.nblocks - block)).flatMap
    (brinRangeItems index items chains scanKey)

end

theorem brinItemsFrom_of_lt (inside : block < index.metaPage.nblocks) :
    brinItemsFrom index items chains scanKey block =
      brinRangeItems index items chains scanKey block ++
        brinItemsFrom index items chains scanKey (block + 1) := by
  obtain ⟨count, isCount⟩ : ∃ count, index.metaPage.nblocks - block = count + 1 :=
    ⟨index.metaPage.nblocks - block - 1, by omega⟩
  have later : index.metaPage.nblocks - (block + 1) = count := by omega
  rw [brinItemsFrom, brinItemsFrom, isCount, later, List.range'_succ, List.flatMap_cons]

section

variable (index : BrinIndex) (items : Nat → List (List UInt8)) (chains : Nat → List Nat)
  (fuel : Nat)

/-- Every range has a chain of pages. -/
def BrinChains : Prop :=
  ∀ block, 0 < block → block < index.metaPage.nblocks →
    index.file.Chain items block (chains block) ∧ (chains block).length ≤ fuel

/-- A position of a scan within a range. -/
def BrinInside (scan : BrinScanDesc) (block offset : Nat) (left : List (List UInt8)) : Prop :=
  ∃ position rest, offset = position + 1 ∧
    index.file.Chain items block (block :: rest) ∧ rest.length < fuel ∧
    left = brinBehind items block position rest ++
      brinItemsFrom index items chains scan.scanKey (scan.currBlock + 1)

end

/-- A position of a scan, and the items that it still returns. -/
structure BrinAt (index : BrinIndex) (items : Nat → List (List UInt8))
    (chains : Nat → List Nat) (fuel : Nat) (scan : BrinScanDesc)
    (left : List (List UInt8)) : Prop where
  inited : scan.inited
  positive : 0 < scan.currBlock
  position :
    match scan.currbuf with
    | none => left = brinItemsFrom index items chains scan.scanKey scan.currBlock
    | some block => scan.currBlock < index.metaPage.nblocks ∧
        BrinInside index items chains fuel scan block scan.curroff left

section

variable {chains : Nat → List Nat} {scan : BrinScanDesc}

theorem BrinAt.skip (inited : scan.inited) (isLeft : left =
      brinItemsFrom index items chains scan.scanKey (scan.currBlock + 1)) :
    BrinAt index items chains fuel scan.skip left :=
  ⟨inited, Nat.succ_pos _, isLeft⟩

theorem BrinAt.brinPosition (scanAt : BrinAt index items chains fuel scan left)
    (linked : BrinChains index items chains fuel)
    (inside : scan.currBlock < index.metaPage.nblocks) :
    (brinPosition index scan = none ∧ BrinAt index items chains fuel scan.skip left) ∨
    ∃ block offset, brinPosition index scan = some (block, offset) ∧
      BrinInside index items chains fuel scan block offset left := by
  have pos := scanAt.position
  rw [Access.brinPosition]
  cases pinned : scan.currbuf with
  | some block =>
    rw [pinned] at pos
    exact .inr ⟨block, scan.curroff, rfl, pos.2⟩
  | none =>
    rw [pinned] at pos
    dsimp only at pos ⊢
    rw [brinItemsFrom_of_lt inside, brinRangeItems] at pos
    split_ifs at pos ⊢ with skipped
    · exact .inl ⟨rfl, BrinAt.skip scanAt.inited pos⟩
    obtain ⟨chain, short⟩ := linked scan.currBlock scanAt.positive inside
    obtain ⟨rest, isChain⟩ := chain.eq_cons
    rw [isChain] at chain short pos
    refine Or.inr ⟨scan.currBlock, 1, rfl, 0, rest, rfl, chain, short, ?_⟩
    rw [pos]
    rfl

section

variable (linked : BrinChains index items chains fuel)

include linked

theorem brinScanRanges_spec (scanAt : BrinAt index items chains fuel scan left)
    (enough : index.metaPage.nblocks - scan.currBlock < ranges) :
    (∃ after, brinScanRanges index fuel ranges scan = some (after, none) ∧ left = []) ∨
    ∃ after item leftAfter, brinScanRanges index fuel ranges scan =
        some (after, some (btItemTid item)) ∧ left = item :: leftAfter ∧
      BrinAt index items chains fuel after leftAfter := by
  induction ranges generalizing scan left with
  | zero => exact absurd enough (Nat.not_lt_zero _)
  | succ ranges ih =>
    rw [brinScanRanges]
    rcases Nat.lt_or_ge scan.currBlock index.metaPage.nblocks with
      inside | beyond
    · rw [if_neg (not_le.2 inside)]
      have fewer : index.metaPage.nblocks - scan.skip.currBlock < ranges := by
        have next : scan.skip.currBlock = scan.currBlock + 1 := rfl
        omega
      rcases scanAt.brinPosition linked inside with
        ⟨isPosition, skipped⟩ | ⟨block, offset, isPosition, within⟩
      · rw [isPosition]
        exact ih skipped fewer
      obtain ⟨pos, _, rfl, chain, short, rfl⟩ := within
      rw [isPosition]
      dsimp only
      have scanned := @scanChain_accepts _ _ _ brinIsTid _ _ _ chain short pos
      simp only [acceptedBehind_brin] at scanned
      rcases scanned with
        ⟨finished, nothing⟩ | ⟨item, place, later, more, found, chainAfter, shorter, split⟩
      · rw [finished, nothing]
        exact ih (BrinAt.skip scanAt.inited rfl) fewer
      right
      rw [found, split]
      refine ⟨_, item, _, rfl, List.cons_append, scanAt.inited, scanAt.positive, inside, ?_⟩
      exact ⟨later, more, rfl, chainAfter, shorter.trans_lt short, rfl⟩
    · left
      rw [if_pos beyond]
      refine ⟨scan, rfl, ?_⟩
      have pos := scanAt.position
      cases pinned : scan.currbuf with
      | none =>
        rw [pinned] at pos
        rw [pos]
        rw [brinItemsFrom, Nat.sub_eq_zero_of_le beyond]
        rfl
      | some block =>
        rw [pinned] at pos
        exact absurd pos.1 (not_lt.2 beyond)

/-- The tuple identifiers that a position has still to return. -/
def BrinRemaining (index : BrinIndex) (items : Nat → List (List UInt8)) (chains : Nat → List Nat)
    (fuel : Nat) (scan : BrinScanDesc) (tids : List ItemPointerData) : Prop :=
  ∃ left, tids = left.map btItemTid ∧ BrinAt index items chains fuel scan left

theorem delivers_bringettuple (enough : index.metaPage.nblocks < fuel) :
    Delivers (bringettuple fuel index) (BrinRemaining index items chains fuel) := by
  apply Delivers.of_cases
  rintro scan tuples ⟨left, rfl, scanAt⟩
  rw [bringettuple, if_pos scanAt.inited]
  have inside := Nat.lt_of_le_of_lt (Nat.sub_le _ scan.currBlock) enough
  rcases brinScanRanges_spec linked scanAt inside with
    ⟨after, returned, rfl⟩ | ⟨after, item, leftAfter, returned, rfl, scanAfter⟩
  · exact .inl ⟨rfl, after, returned⟩
  · exact .inr ⟨_, _, rfl, after, returned, leftAfter, rfl, scanAfter⟩

theorem brinDrain_eq (enough : index.metaPage.nblocks < fuel)
    (many : (brinItemsFrom index items chains scanKey 1).length < calls) :
    brinDrain fuel calls index scanKey =
      some ((brinItemsFrom index items chains scanKey 1).map btItemTid) := by
  let start : BrinScanDesc := { brinbeginscan scanKey with inited := true, currBlock := 1 }
  have same : bringettuple fuel index (brinbeginscan scanKey) = bringettuple fuel index start := rfl
  rw [brinDrain, drain_congr same]
  apply (delivers_bringettuple linked enough).drain
  · exact ⟨_, rfl, rfl, Nat.one_pos, rfl⟩
  · rw [List.length_map]
    exact many

end

end

end Pgcpp.Access
