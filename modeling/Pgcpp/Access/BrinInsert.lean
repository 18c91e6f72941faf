import Pgcpp.Access.BrinScan
import Pgcpp.Storage.PageLayout

/-!
# Range pages and insertions

A range page holds a summary and the tuple identifiers of its range; the keys
lie within the bounds of the summary.  An insertion keeps this as long as the
range page has room.
-/

namespace Pgcpp.Access

open Lib Storage Transaction IndexFile List

section

variable (summary : BrinSummaryData)

include summary

theorem length_summaryBytes : summary.bytes.length = kBrinSummarySize := by
  rfl

theorem summaryBytes_ne_nil : summary.bytes ≠ [] := by
  apply ne_nil_of_length_pos
  exact Nat.succ_pos _

theorem field_summaryBytes_flag : field summary.bytes 16 1 = if summary.hasData then 1 else 0 := by
  have bytes : summary.bytes = wordBytes [summary.firstBlock, summary.min,
      summary.max, summary.count] ++ (toBytes 1 (if summary.hasData then 1 else 0) ++
        [0, 0, 0]) := by
    rw [BrinSummaryData.bytes]
    cases summary.hasData <;> simp [wordBytes, toBytes]
  have read := field_append_toBytes (wordBytes [summary.firstBlock,
    summary.min, summary.max, summary.count]) [0, 0, 0] 1 (if summary.hasData then 1 else 0)
  rw [bytes]
  apply read.trans (Nat.mod_eq_of_lt _)
  split <;> decide

theorem brinSummaryOf_bytes : brinSummaryOf summary.bytes = summary := by
  have word : ∀ pos word, [summary.firstBlock, summary.min, summary.max, summary.count,
        if summary.hasData then 1#32 else 0#32][pos]? = some word →
      BitVec.ofNat 32 (field summary.bytes (4 * pos) 4) = word := by
    intro pos word found
    rw [BrinSummaryData.bytes, field_wordBytes found, BitVec.ofNat_toNat, BitVec.setWidth_eq]
  have firstBlock := word 0 _ rfl
  have min := word 1 _ rfl
  have max := word 2 _ rfl
  have count := word 3 _ rfl
  have flag : decide (field summary.bytes 16 1 ≠ 0) = summary.hasData := by
    rw [field_summaryBytes_flag]
    cases summary.hasData with
    | true => rfl
    | false => rfl
  rw [brinSummaryOf, firstBlock, min, max, count, flag]

end

section

variable {summary : BrinSummaryData}

theorem brinGetSummary_of_holds (holds : Holds page (summary.bytes :: rest)) :
    brinGetSummary page = summary := by
  obtain ⟨_, line, _, bytes⟩ := holds.slots 0 summary.bytes rfl
  have present : ¬(page.maxOffsetNumber < 1 ∨ (page.linp 1).liFlags ≠ .normal) := by
    rw [holds.maxOffsetNumber, line]
    simp
  rw [brinGetSummary, if_neg present, line]
  rw [length_summaryBytes] at bytes
  rw [bytes, brinSummaryOf_bytes]

theorem brinGetSummary_of_empty (holds : Holds page []) :
    (brinGetSummary page).hasData = false := by
  have absent : page.maxOffsetNumber < 1 ∨ (page.linp 1).liFlags ≠ .normal := by
    left
    rw [holds.maxOffsetNumber]
    exact Nat.one_pos
  rw [brinGetSummary, if_pos absent]

theorem Holds.brinOverwriteSummary (holds : Holds page (summary.bytes :: rest))
    (formed : page.WellFormed) (new : BrinSummaryData) :
    Holds (brinOverwriteSummary page new) (new.bytes :: rest) := by
  have sameLength : new.bytes.length = summary.bytes.length := by
    rw [length_summaryBytes, length_summaryBytes]
  obtain ⟨first, firstLine, firstAbove, _⟩ := holds.slots 0 summary.bytes rfl
  have normal : ∀ pos, pos < (summary.bytes :: rest).length → page.IsNormal (pos + 1) := by
    intro pos bound
    refine ⟨Nat.succ_pos _, ?_, holds.normal bound⟩
    rw [holds.maxOffsetNumber]
    exact bound
  rw [Access.brinOverwriteSummary, if_neg (not_not.2 (holds.normal (Nat.succ_pos _)))]
  constructor
  case special => exact holds.special
  case lower => exact holds.lower
  case upper =>
    have upper := holds.upper
    exact upper
  case room => exact holds.room
  case slots =>
    intro pos item found
    cases pos with
    | zero =>
      obtain rfl : new.bytes = item := by simpa using found
      refine ⟨first, ?_, firstAbove, ?_⟩
      · exact firstLine
      · rw [firstLine]
        exact ByteMem.slice_store_self ..
    | succ pos =>
      have foundBefore := found
      obtain ⟨start, line, above, bytes⟩ := holds.slots (pos + 1) item foundBefore
      have bound := (List.getElem?_eq_some_iff.1 foundBefore).1
      have apart := formed.apart 1 (pos + 1 + 1)
        (normal 0 (Nat.succ_pos _)) (normal (pos + 1) bound) (by omega)
      refine ⟨start, line, above, ?_⟩
      rw [firstLine, line] at apart
      dsimp only at apart ⊢
      rw [firstLine]
      dsimp only
      have firstAligned := le_maxAlignUp summary.bytes.length
      have aligned := le_maxAlignUp item.length
      rw [ByteMem.slice_store_of_disjoint]
      · exact bytes
      · omega

theorem wellFormed_brinOverwriteSummary (formed : page.WellFormed) :
    (brinOverwriteSummary page new).WellFormed := by
  rw [brinOverwriteSummary]
  split_ifs with unused
  · exact formed
  · exact ⟨formed.header, formed.lower, formed.upper, formed.above,
      formed.below, formed.nonempty, formed.apart⟩

end

theorem wellFormed_addTo (holds : Holds page.page items)
    (formed : page.page.WellFormed) (nonempty : item ≠ []) (space : hasSpace page item) :
    (addTo page item).page.WellFormed := by
  have fits : page.page.Fits item := holds.fits_iff.2 ((hasSpace_iff holds).1 space)
  show (page.page.addItem item kInvalidOffsetNumber).1.WellFormed
  rw [PageData.addItem_of_fits fits]
  exact formed.appended nonempty fits

def brinTidItem (entry : IndexEntry) : List UInt8 := tidBytes entry.2

/-- The keys of the entries lie within the bounds of the summary. -/
def BrinBounds (summary : BrinSummaryData) (entries : List IndexEntry) : Prop :=
  ∀ entry ∈ entries, summary.min.toInt ≤ (int32Key entry.1).toInt ∧
      (int32Key entry.1).toInt ≤ summary.max.toInt

/-- A page with a summary and the tuple identifiers of the entries. -/
structure BrinSummarized (page : BTPage) (summary : BrinSummaryData)
    (entries : List IndexEntry) : Prop where
  hasData : summary.hasData
  holds : Holds page.page (summary.bytes :: entries.map brinTidItem)
  formed : page.page.WellFormed
  last : page.special.btpoNext = 0

/-- The page of a range with the given entries. -/
structure BrinRange (page : BTPage) (entries : List IndexEntry) : Prop where
  formed : page.page.WellFormed
  last : page.special.btpoNext = 0
  held : (entries = [] ∧ Holds page.page []) ∨
    ∃ summary, BrinSummarized page summary entries ∧ BrinBounds summary entries

theorem brinRange_init : BrinRange (btInitPage kBrinRangePage 0) [] := by
  refine ⟨?_, rfl, .inl ⟨rfl, holds_init ..⟩⟩
  apply PageData.pageInit_wellFormed
  exact (by decide : kPageHeaderSize + kBTPageOpaqueSize ≤ kBlckSz)

theorem BrinRange.drop_items (range : BrinRange page entries) :
    (btReadAllItems page.page).drop 1 = entries.map brinTidItem := by
  rcases range.held with ⟨rfl, holds⟩ | ⟨_, summarized, _⟩
  · rw [holds.readAllItems]
    rfl
  · rw [summarized.holds.readAllItems]
    rfl

theorem BrinBounds.withKey (bounds : BrinBounds summary entries)
    (key : List UInt8) (tid : ItemPointerData) :
    BrinBounds (summary.withKey (int32Key key)) (entries ++ [(key, tid)]) := by
  intro entry mem
  rw [BrinSummaryData.withKey]
  dsimp only
  rcases mem_append.1 mem with old | new
  · have before := bounds entry old
    constructor
    all_goals split_ifs <;> omega
  obtain rfl := mem_singleton.1 new
  dsimp only
  constructor
  · split_ifs <;> omega
  · split_ifs <;> omega

theorem itemCost_summary (summary : BrinSummaryData) : itemCost summary.bytes = 24 := by
  rw [itemCost, length_summaryBytes]
  rfl

theorem itemCost_brinTidItem : itemCost (brinTidItem entry) = 12 := by
  rw [itemCost, brinTidItem, tidBytes_length]
  rfl

theorem pageCost_range (summary : BrinSummaryData) (entries : List IndexEntry) :
    pageCost (summary.bytes :: entries.map brinTidItem) = 24 + 12 * entries.length := by
  have tids : pageCost (entries.map brinTidItem) = 12 * (entries.map brinTidItem).length := by
    apply pageCost_of_forall
    intro _ mem
    obtain ⟨entry, _, rfl⟩ := mem_map.1 mem
    exact itemCost_brinTidItem
  have split : pageCost (summary.bytes :: entries.map brinTidItem) =
      itemCost summary.bytes + pageCost (entries.map brinTidItem) := by
    simp [pageCost]
  rw [split, tids, itemCost_summary, length_map]

/-- The number of tuple identifiers that fit behind a summary. -/
def brinRangeCapacity : Nat := 677

theorem BrinSummarized.hasSpace_iff
    (summarized : BrinSummarized page summary entries) (entry : IndexEntry) :
    IndexFile.hasSpace page (brinTidItem entry) ↔ entries.length < brinRangeCapacity := by
  have capacity : pageCapacity = 8152 := rfl
  rw [IndexFile.hasSpace_iff summarized.holds, pageCost_range,
    itemCost_brinTidItem, brinRangeCapacity]
  omega

theorem BrinRange.brinSummarize (range : BrinRange page entries)
    (firstBlock : BitVec 32) (key : List UInt8) (tid : ItemPointerData) :
    ∃ summary, BrinSummarized (brinSummarize page firstBlock (int32Key key)) summary entries ∧
      BrinBounds summary (entries ++ [(key, tid)]) := by
  rw [Access.brinSummarize]
  rcases range.held with ⟨rfl, holds⟩ | ⟨summary, summarized, bounds⟩
  · let created : BrinSummaryData :=
      { firstBlock := firstBlock, min := int32Key key, max := int32Key key
        count := 0, hasData := true }
    have space : hasSpace page created.bytes := by
      apply (hasSpace_iff holds).2
      rw [itemCost_summary]
      exact (by decide : 0 + 24 ≤ pageCapacity)
    have added := holds_addTo holds space
    have formed := wellFormed_addTo holds range.formed (summaryBytes_ne_nil created) space
    have none : BrinBounds created [] := by
      intro _ mem
      exact absurd mem not_mem_nil
    refine ⟨created.withKey (int32Key key), ?_, none.withKey key tid⟩
    rw [brinGetSummary_of_empty holds]
    exact ⟨rfl, added.brinOverwriteSummary formed _,
      wellFormed_brinOverwriteSummary formed, range.last⟩
  · refine ⟨summary.withKey (int32Key key), ?_, bounds.withKey key tid⟩
    rw [brinGetSummary_of_holds summarized.holds, summarized.hasData]
    exact ⟨summarized.hasData, summarized.holds.brinOverwriteSummary range.formed _,
      wellFormed_brinOverwriteSummary range.formed, range.last⟩

theorem BrinSummarized.addTo (summarized : BrinSummarized page summary entries)
    (entry : IndexEntry) (room : entries.length < brinRangeCapacity) :
    BrinSummarized (addTo page (brinTidItem entry)) summary (entries ++ [entry]) := by
  have space := (summarized.hasSpace_iff entry).2 room
  have nonempty : brinTidItem entry ≠ [] := by
    apply ne_nil_of_length_pos
    exact Nat.succ_pos _
  refine ⟨summarized.hasData, ?_,
    wellFormed_addTo summarized.holds summarized.formed nonempty space, summarized.last⟩
  rw [map_append]
  exact holds_addTo summarized.holds space

end Pgcpp.Access
