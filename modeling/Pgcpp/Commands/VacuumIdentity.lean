import Pgcpp.Commands.Vacuum

/-!
# What VACUUM does to row identity

Indexes and `t_ctid` refer to a tuple by its block and offset number, and
VACUUM rewrites neither.  Repairing a page packs its line pointers, so on a
page with something to reclaim the survivors keep their offset numbers only if
they already stood without gaps at the front of the line-pointer array.
-/

namespace Pgcpp.Commands

open Storage Transaction Access LogCache Verdict
open List hiding after

/-- The row that a block and an offset number refer to. -/
def fetchRow (relation : HeapRelation) (block offset : Nat) : Option UserRow :=
  match relation.pages[block]? with
  | none => none
  | some page => if offset ∈ page.normalOffsets then some (userRow (page.item offset)) else none

/-- The tuple at a block and an offset number is not reclaimed. -/
def Survives (judged : List (PageData × List (Nat × Verdict))) (block offset : Nat) : Prop :=
  ∃ page marks verdict, judged[block]? = some (page, marks) ∧ (offset, verdict) ∈ survivors marks

/-- A page on which VACUUM renumbers nothing. -/
def InPlace (marks : List (Nat × Verdict)) : Prop :=
  (∀ mark ∈ marks, mark.2 ≠ .reclaim) ∨ (survivors marks).map Prod.fst =
      List.range' 1 (survivors marks).length

theorem eq_range'_of_sorted (sorted : offsets.Pairwise (· < ·))
    (bounded : ∀ offset ∈ offsets, offset ∈ List.range' 1 offsets.length) :
    offsets = List.range' 1 offsets.length := by
  have distinct : offsets.Nodup := sorted.imp fun less => less.ne
  have permutation : offsets.Perm (List.range' 1 offsets.length) := by
    apply (subperm_of_subset distinct bounded).perm_of_length_le
    simp
  exact permutation.eq_of_pairwise' sorted pairwise_lt_range'

section

variable {page : PageData}

theorem PageVacuumed.survivors_sorted (vacuumed : PageVacuumed page marks after) :
    ((survivors marks).map Prod.fst).Pairwise (· < ·) := by
  have sorted : (marks.map Prod.fst).Pairwise (· < ·) := by
    rw [vacuumed.judged]
    exact List.Pairwise.filter _ pairwise_lt_range'
  exact sorted.sublist (filter_sublist.map Prod.fst)

theorem places_of_inPlace (inPlace : InPlace marks) :
    places marks = (survivors marks).map Prod.fst := by
  unfold places
  cases reclaim : marks.any fun mark => mark.2 = .reclaim with
  | false => simp [survivors_of_none reclaim]
  | true =>
    obtain ⟨mark, mem, isReclaim⟩ := any_eq_true.1 reclaim
    rcases inPlace with none | packed
    · exact absurd (by simpa using isReclaim) (none mark mem)
    · simp [packed]

/-- Survivors that are all found at their old offset numbers stood without
gaps, or nothing was reclaimed. -/
theorem PageVacuumed.inPlace_of_found (vacuumed : PageVacuumed page marks after)
    (found : ∀ mark ∈ survivors marks, mark.1 ∈ after.normalOffsets) : InPlace marks := by
  rw [vacuumed.offsets, places] at found
  cases reclaim : marks.any fun mark => mark.2 = .reclaim with
  | false =>
    left
    intro mark mem
    simpa using any_eq_false.1 reclaim mark mem
  | true =>
    right
    have filled := eq_range'_of_sorted vacuumed.survivors_sorted (by
      intro _ mem
      obtain ⟨mark, survives, rfl⟩ := mem_map.1 mem
      simpa [reclaim] using found mark survives)
    rwa [length_map] at filled

theorem outcome_userRow {verdict : Verdict}
    (long : kHeapTupleHeaderSize ≤ block.length) (left_ : verdict.outcome block = some rest) :
    userRow rest = userRow block := by
  cases verdict with
  | reclaim => simp [outcome] at left_
  | freeze =>
    obtain rfl : frozenBlock block = rest := by
      simpa [outcome] using left_
    exact userRow_frozenBlock long
  | keep =>
    obtain rfl : block = rest := by simpa [outcome] using left_
    rfl

theorem PageVacuumed.found_of_inPlace (vacuumed : PageVacuumed page marks after)
    (formed : HeapFormed page) (inPlace : InPlace marks) (survives : mark ∈ survivors marks) :
    mark.1 ∈ after.normalOffsets ∧ userRow (after.item mark.1) = userRow (page.item mark.1) := by
  have stayed := places_of_inPlace inPlace
  constructor
  · rw [vacuumed.offsets, stayed]
    exact mem_map_of_mem survives
  have items := vacuumed.items
  rw [stayed, map_map, map_inj_left] at items
  have normal : page.IsNormal mark.1 := by
    rw [← PageData.mem_normalOffsets, ← vacuumed.judged]
    exact mem_map_of_mem (mem_of_mem_filter survives)
  have long := formed.headers mark.1 normal
  apply outcome_userRow _ (items mark survives).symm
  simpa [PageData.item] using long

end

section

variable {relation after : HeapRelation}

theorem page_at (vacuumed : List.Forall₂
      (fun entry page => PageVacuumed entry.1 entry.2 page) judged after.pages)
    (pages : judged.map Prod.fst = relation.pages) {block : Nat}
    (entry : judged[block]? = some (page, marks)) :
    relation.pages[block]? = some page ∧ ∃ pageAfter, after.pages[block]? = some pageAfter ∧
        PageVacuumed page marks pageAfter := by
  constructor
  · rw [← pages, getElem?_map, entry]
    rfl
  obtain ⟨bound, found⟩ := List.getElem?_eq_some_iff.1 entry
  obtain ⟨sameLength, related⟩ := forall₂_iff_get.1 vacuumed
  have boundAfter : block < after.pages.length := by
    rw [← sameLength]
    exact bound
  refine ⟨after.pages[block], getElem?_eq_getElem boundAfter, ?_⟩
  have here := related block bound boundAfter
  simpa [found] using here

end

/-- Every surviving tuple is found with its row at its old block and offset
number exactly when VACUUM renumbers nothing on any page. -/
theorem survivors_found_iff_inPlace (log : CommitLog) (pgxact : Nat → TransactionId)
    (pgprocnos : List Nat) (nextXid : TransactionId) (freeze : Bool) (cache : LogCache)
    (relation : HeapRelation) (formed : PagesFormed relation.pages) :
    (∀ block offset, Survives (execVacuumVerdicts log pgxact pgprocnos nextXid freeze cache
          relation) block offset → (fetchRow relation block offset).isSome ∧
          fetchRow (execVacuum log pgxact pgprocnos nextXid freeze cache relation).1 block offset =
            fetchRow relation block offset) ↔
      ∀ entry ∈ execVacuumVerdicts log pgxact pgprocnos nextXid freeze cache
        relation, InPlace entry.2 := by
  have vacuumed := execVacuum_vacuumed log pgxact pgprocnos nextXid freeze cache relation formed
  have pages := execVacuumVerdicts_pages log pgxact pgprocnos nextXid freeze cache relation
  constructor
  · intro kept entry member
    obtain ⟨block, found⟩ := getElem?_of_mem member
    obtain ⟨before, pageAfter, here, pageVacuumed⟩ := page_at vacuumed pages found
    apply pageVacuumed.inPlace_of_found
    intro mark survives
    obtain ⟨present, same⟩ := kept block mark.1 ⟨entry.1, entry.2, mark.2, found, survives⟩
    rw [← same, fetchRow, here] at present
    by_contra absent
    simp [absent] at present
  intro inPlace block offset survives
  obtain ⟨page, _, _, found, member⟩ := survives
  obtain ⟨before, pageAfter, here, pageVacuumed⟩ := page_at vacuumed pages found
  have pageFormed := formed page (mem_of_getElem? before)
  obtain ⟨listedAfter, sameRow⟩ := pageVacuumed.found_of_inPlace pageFormed
    (inPlace _ (mem_of_getElem? found)) member
  have listed : offset ∈ page.normalOffsets := by
    rw [← pageVacuumed.judged]
    exact mem_map_of_mem (mem_of_mem_filter member)
  rw [fetchRow, fetchRow, before, here]
  simp [listed, listedAfter, sameRow]

/-- A row that XID 4 has deleted in front of a live row. -/
def deletedAndLive : HeapRelation :=
  { pages := [((pageInit kBlckSz 0).appended (smallTuple 3 4 0 41)).appended (smallTuple 3 0 0 42)]
    relfrozenxid := 3 }

theorem deletedAndLive_formed : PagesFormed deletedAndLive.pages := by
  intro page mem
  obtain rfl := mem_singleton.1 mem
  exact ((heapFormed_pageInit (by decide)).appended (by decide) ⟨by decide, by decide⟩).appended
    (by decide) ⟨by decide, by decide⟩

def bothCommitted : CommitLog :=
  setCommitLog (setCommitLog (fun _ => .inProgress) 3 .committed) 4 .committed

theorem vacuum_moves_live_row : PagesFormed deletedAndLive.pages ∧
      Survives (execVacuumVerdicts bothCommitted (fun _ => 6) [0] 7 false
        empty deletedAndLive) 0 2 ∧ (fetchRow deletedAndLive 0 2).map UserRow.body = some [42] ∧
      fetchRow (execVacuum bothCommitted (fun _ => 6) [0] 7 false
        empty deletedAndLive).1 0 2 = none ∧
      (fetchRow (execVacuum bothCommitted (fun _ => 6) [0] 7 false
        empty deletedAndLive).1 0 1).map UserRow.body = some [42] := by
  refine ⟨deletedAndLive_formed, ?_, ?_, ?_, ?_⟩
  · refine ⟨_, _, .freeze, rfl, ?_⟩
    decide +kernel
  all_goals decide +kernel

theorem survivors_found_iff_inPlace_deletedAndLive : (∀ block offset,
        Survives (execVacuumVerdicts bothCommitted (fun _ => 6) [0] 7 false
          empty deletedAndLive) block offset → (fetchRow deletedAndLive block offset).isSome ∧
          fetchRow (execVacuum bothCommitted (fun _ => 6) [0] 7 false
              empty deletedAndLive).1 block offset = fetchRow deletedAndLive block offset) ↔
      ∀ entry ∈ execVacuumVerdicts bothCommitted (fun _ => 6) [0] 7 false
        empty deletedAndLive, InPlace entry.2 :=
  survivors_found_iff_inPlace bothCommitted (fun _ => 6) [0] 7 false
    empty deletedAndLive deletedAndLive_formed

end Pgcpp.Commands
