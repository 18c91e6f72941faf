import Pgcpp.Access.PageChains

/-!
# Scans of chains of index pages

A position of a scan stands for the items that are still to come: those behind
it on its page, those of the later pages of its chain, and those of the chains
that follow.
-/

namespace Pgcpp.Access

open Transaction
open List hiding chains count head

namespace IndexFile

variable {Meta : Type} {file : IndexFile Meta}
  {items : Nat → List (List UInt8)} {test : List UInt8 → Bool}

/-- The items that a scan accepts, of those from an offset on. -/
def acceptedFrom (accepts : Nat → List UInt8 → Bool) : Nat → List (List UInt8) → List (List UInt8)
  | _, [] => []
  | offset, item :: rest =>
    if accepts offset item then item :: acceptedFrom accepts (offset + 1) rest
    else acceptedFrom accepts (offset + 1) rest

theorem acceptedFrom_test : acceptedFrom (fun _ => test) offset held = held.filter test := by
  induction held generalizing offset with
  | nil => rfl
  | cons _ _ ih => rw [acceptedFrom, ih, filter_cons]

variable {accepts : Nat → List UInt8 → Bool}

theorem scanOffsets_accepts (holds : Holds page held) (count pos : Nat)
    (isEnd : pos + count = held.length) :
    (scanOffsets page accepts (List.range' (pos + 1) count) = none ∧
      acceptedFrom accepts (pos + 1) (held.drop pos) = []) ∨
    ∃ item later, scanOffsets page accepts (List.range' (pos + 1) count) = some (item, later + 1) ∧
      acceptedFrom accepts (pos + 1) (held.drop pos) =
        item :: acceptedFrom accepts (later + 1) (held.drop later) := by
  induction count generalizing pos with
  | zero =>
    left
    refine ⟨rfl, ?_⟩
    rw [add_zero] at isEnd
    rw [drop_eq_nil_of_le (Nat.le_of_eq isEnd.symm), acceptedFrom]
  | succ count ih =>
    have bound : pos < held.length := by omega
    have found : held[pos]? = some held[pos] := getElem?_eq_getElem bound
    have normal := holds.normal bound
    rw [range'_succ, scanOffsets, if_neg (not_not.2 normal),
      holds.item_eq found, drop_eq_getElem_cons bound, acceptedFrom]
    by_cases accepted : accepts (pos + 1) held[pos]
    · right
      refine ⟨held[pos], pos + 1, if_pos accepted, ?_⟩
      rw [if_pos accepted]
    · rw [if_neg accepted, if_neg accepted]
      exact ih (pos + 1) (by omega)

theorem scanPage_accepts (holds : Holds page held) (pos : Nat) :
    (scanPage page accepts (pos + 1) = none ∧ acceptedFrom accepts (pos + 1) (held.drop pos) = []) ∨
    ∃ item later, scanPage page accepts (pos + 1) = some (item, later + 1) ∧
      acceptedFrom accepts (pos + 1) (held.drop pos) =
        item :: acceptedFrom accepts (later + 1) (held.drop later) := by
  rw [scanPage, holds.maxOffsetNumber, Nat.add_sub_add_right]
  rcases Nat.le_total pos held.length with inside | beyond
  · exact scanOffsets_accepts holds _ pos (Nat.add_sub_cancel' inside)
  left
  rw [Nat.sub_eq_zero_of_le beyond, drop_eq_nil_of_le beyond]
  exact ⟨rfl, rfl⟩

theorem scanPage_spec (holds : Holds page held) (pos : Nat) :
    (scanPage page (fun _ => test) (pos + 1) = none ∧ (held.drop pos).filter test = []) ∨
    ∃ item later, scanPage page (fun _ => test) (pos + 1) = some (item, later + 1) ∧
      (held.drop pos).filter test = item :: (held.drop later).filter test := by
  have page := @scanPage_accepts (fun _ => test) _ _ holds pos
  simpa only [acceptedFrom_test] using page

/-- The items behind a position of a chain. -/
def behind (items : Nat → List (List UInt8)) (block position : Nat)
    (rest : List Nat) : List (List UInt8) :=
  (items block).drop position ++ contents items rest

theorem Chain.tail (chain : file.Chain items head (head :: block :: rest)) :
    file.Chain items block (block :: rest) := by
  refine ⟨?_, ?_, ?_⟩
  · cases chain.linked with
    | cons later =>
      generalize file.next head = second at later
      cases later with
      | cons more => exact .cons more
  · intro other mem
    exact chain.held other (mem_cons_of_mem _ mem)
  · intro other mem
    exact chain.below other (mem_cons_of_mem _ mem)

theorem Chain.link (chain : file.Chain items head (head :: rest)) :
    (rest = [] ∧ (file.pages head).special.btpoNext = 0) ∨ ∃ block more, rest = block :: more ∧
      (file.pages head).special.btpoNext = block ∧ block ≠ 0 := by
  cases chain.linked with
  | cons later =>
    by_cases isLast : (file.pages head).special.btpoNext = 0
    · rw [next_eq_none isLast] at later
      cases later
      exact .inl ⟨rfl, isLast⟩
    · rw [next_eq_some rfl isLast] at later
      cases later with
      | cons more => exact .inr ⟨_, _, rfl, rfl, isLast⟩

/-- The items that a scan still accepts from a position of a chain on. -/
def acceptedBehind (accepts : Nat → List UInt8 → Bool) (items : Nat → List (List UInt8))
    (block position : Nat) (rest : List Nat) : List (List UInt8) :=
  acceptedFrom accepts (position + 1) ((items block).drop position) ++
    rest.flatMap fun other => acceptedFrom accepts 1 (items other)

theorem scanChain_accepts (chain : file.Chain items block (block :: rest))
    (enough : rest.length < fuel) (pos : Nat) :
    (file.scanChain accepts fuel block (pos + 1) = some none ∧
      acceptedBehind accepts items block pos rest = []) ∨
    ∃ item place later more, file.scanChain accepts fuel block (pos + 1) =
        some (some (item, place, later + 1)) ∧ file.Chain items place (place :: more) ∧
      more.length ≤ rest.length ∧ acceptedBehind accepts items block pos rest =
        item :: acceptedBehind accepts items place later more := by
  induction fuel generalizing block rest pos with
  | zero => exact absurd enough (Nat.not_lt_zero _)
  | succ fuel ih =>
    have holds := chain.held block mem_cons_self
    rw [scanChain, acceptedBehind]
    rcases scanPage_accepts holds pos with
      ⟨exhausted, nothing⟩ | ⟨item, later, found, split⟩
    · rw [exhausted, nothing]
      rcases chain.link with
        ⟨rfl, isLast⟩ | ⟨second, more, rfl, linked, positive⟩
      · left
        rw [if_pos isLast]
        exact ⟨rfl, rfl⟩
      rw [if_neg (by rw [linked]; exact positive), linked]
      rcases ih chain.tail (Nat.lt_of_succ_lt_succ enough) 0 with
        ⟨finished, empty⟩ | ⟨item, place, later, last, found, chainLast, shorter, split⟩
      · exact .inl ⟨finished, empty⟩
      · exact .inr ⟨item, place, later, last, found, chainLast, Nat.le_succ_of_le shorter, split⟩
    · right
      rw [found]
      refine ⟨item, block, later, rest, rfl, chain, le_rfl, ?_⟩
      rw [split, acceptedBehind, cons_append]

theorem acceptedBehind_test : acceptedBehind (fun _ => test) items block pos rest =
      (behind items block pos rest).filter test := by
  simp [acceptedBehind, acceptedFrom_test, behind, contents, filter_flatMap]

theorem scanChain_spec {fuel : Nat} (chain : file.Chain items block (block :: rest))
    (enough : rest.length < fuel) (pos : Nat) :
    (file.scanChain (fun _ => test) fuel block (pos + 1) = some none ∧
      (behind items block pos rest).filter test = []) ∨
    ∃ item place later more, file.scanChain (fun _ => test) fuel block (pos + 1) =
        some (some (item, place, later + 1)) ∧ file.Chain items place (place :: more) ∧
      more.length ≤ rest.length ∧ (behind items block pos rest).filter test =
        item :: (behind items place later more).filter test := by
  simp only [← acceptedBehind_test]
  exact scanChain_accepts chain enough pos

/-- A position of a scan, in a chain with a number, with the chains that follow,
and the items that are still to come. -/
structure ScanAt (file : IndexFile Meta) (items : Nat → List (List UInt8))
    (test : List UInt8 → Bool) (fuel : Nat) (chains : Nat → List Nat)
    (block offset : Nat) (later : List (Nat × Nat)) (left : List (List UInt8)) : Prop where
  position : ∃ position rest, offset = position + 1 ∧
    file.Chain items block (block :: rest) ∧ rest.length < fuel ∧
    left = (behind items block position rest).filter test ++
      (later.flatMap fun chain => contents items (chains chain.2)).filter test
  later : ∀ chain ∈ later, file.Chain items chain.2 (chains chain.2) ∧
    (chains chain.2).length ≤ fuel

theorem scanAt_head {fuel : Nat} {chains : Nat → List Nat} {head : Nat} {later : List (Nat × Nat)}
    (chain : file.Chain items head (chains head)) (enough : (chains head).length ≤ fuel)
    (others : ∀ chain ∈ later, file.Chain items chain.2 (chains chain.2) ∧
      (chains chain.2).length ≤ fuel) : file.ScanAt items test fuel chains head 1 later
      ((contents items (chains head)).filter test ++ (later.flatMap fun chain =>
          contents items (chains chain.2)).filter test) := by
  obtain ⟨rest, isChain⟩ := chain.eq_cons
  rw [isChain] at chain enough ⊢
  refine ⟨⟨0, rest, rfl, chain, enough, ?_⟩, others⟩
  rw [behind, drop_zero, contents, flatMap_cons, ← contents]

/-- The loop over the chains.  What follows the chain of the next position is
what followed it before. -/
theorem scanChains_spec {number block offset : Nat} {left : List (List UInt8)}
    (scanAt : file.ScanAt items test fuel chains block offset later left) :
    (file.scanChains (fun _ => test) fuel (number, block, offset) later = some none ∧ left = []) ∨
    ∃ item numberAfter place offsetAfter laterAfter leftAfter,
      file.scanChains (fun _ => test) fuel (number, block, offset) later =
        some (some (item, numberAfter, place, offsetAfter)) ∧ left = item :: leftAfter ∧
      file.ScanAt items test fuel chains place offsetAfter laterAfter leftAfter ∧
      ((numberAfter = number ∧ laterAfter = later) ∨
        ∃ front head, later = front ++ (numberAfter, head) :: laterAfter) := by
  induction later generalizing number block offset left with
  | nil =>
    obtain ⟨⟨pos, rest, rfl, chain, enough, rfl⟩, others⟩ := scanAt
    rw [scanChains.eq_def]
    dsimp only
    rcases @scanChain_spec _ _ _ test _ _ _ chain enough pos with
      ⟨finished, nothing⟩ | ⟨item, place, last, more, found, chainAfter, shorter, split⟩
    · left
      rw [finished, nothing]
      exact ⟨rfl, rfl⟩
    right
    rw [found, split]
    exact ⟨item, number, place, last + 1, [], _, rfl, rfl,
      ⟨⟨last, more, rfl, chainAfter, shorter.trans_lt enough, rfl⟩, others⟩, .inl ⟨rfl, rfl⟩⟩
  | cons first later ih =>
    obtain ⟨⟨pos, rest, rfl, chain, enough, rfl⟩, others⟩ := scanAt
    rw [scanChains.eq_def]
    dsimp only
    rcases @scanChain_spec _ _ _ test _ _ _ chain enough pos with
      ⟨finished, nothing⟩ | ⟨item, place, last, more, found, chainAfter, shorter, split⟩
    · obtain ⟨chainFirst, enoughFirst⟩ := others first mem_cons_self
      have start := @scanAt_head _ _ _ test _ _ _ later chainFirst enoughFirst fun chain mem =>
          others chain (mem_cons_of_mem _ mem)
      rw [finished, nothing, flatMap_cons, filter_append]
      rcases @ih first.1 _ _ _ start with
        ⟨ended, empty⟩ | ⟨item, numberAfter, place, offsetAfter, laterAfter,
          leftAfter, found, split, scanAtAfter, follows⟩
      · exact .inl ⟨ended, empty⟩
      refine Or.inr ⟨item, numberAfter, place, offsetAfter, laterAfter,
        leftAfter, found, split, scanAtAfter, .inr ?_⟩
      rcases follows with ⟨rfl, rfl⟩ | ⟨front, head, rfl⟩
      · exact ⟨[], first.2, rfl⟩
      · exact ⟨first :: front, head, rfl⟩
    · right
      rw [found, split]
      exact ⟨item, number, place, last + 1, first :: later, _, rfl, rfl,
        ⟨⟨last, more, rfl, chainAfter, shorter.trans_lt enough, rfl⟩, others⟩, .inl ⟨rfl, rfl⟩⟩

end IndexFile

end Pgcpp.Access
