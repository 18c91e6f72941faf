import Pgcpp.Storage.PageLayout

/-!
# Runs of page operations

`compactify_tuples` moves items from the highest to the lowest, each one
towards the special space, and a gap is closed in the same order.  This module
has the closing of a gap, the repair of a page, and what holds after any
sequence of calls.
-/

namespace Pgcpp.Storage

open PageCall PageData
open List hiding after count

namespace PageData

variable {page : PageData} (sorter : DescendingSort)

/-! ## The closing of a gap -/

/-- Space in the tuple area that no item has. -/
structure Gap (page : PageData) (start size : Nat) : Prop where
  positive : 0 < size
  above : page.pdUpper ≤ start
  below : start + size ≤ page.pdSpecial
  clear : ∀ offset, page.IsNormal offset → 0 < (page.linp offset).liLen →
    (page.linp offset).liOff + maxAlignUp (page.linp offset).liLen ≤ start ∨
      start + size ≤ (page.linp offset).liOff

/-- The items that move, in order. -/
def itemsBelow (page : PageData) (start : Nat) : List ItemEntry :=
  sorter.sort ((page.normalOffsets.map page.entry).filter fun entry => entry.itemOff < start)

def raises (size : Nat) (entries : List ItemEntry) : List ItemMove :=
  entries.map fun entry => (entry, entry.itemOff + size)

theorem foldl_raiseItem_eq (size : Nat) (own : ∀ entry ∈ entries, entry = page.entry entry.offset)
    (distinct : (entries.map ItemEntry.offset).Nodup) :
    entries.foldl (raiseItem size) page = page.relocate (raises size entries) := by
  induction entries generalizing page with
  | nil => rfl
  | cons first _ ih =>
    obtain ⟨fresh, distinctRest⟩ := nodup_cons.1 distinct
    have here : raiseItem size page first = page.moveItem (first.itemOff + size) first := by
      have isEntry := own first mem_cons_self
      rw [raiseItem, moveItem]
      rw [
        show first.itemOff = (page.linp first.offset).liOff from congrArg ItemEntry.itemOff isEntry,
        show first.rawLen = (page.linp first.offset).liLen from congrArg ItemEntry.rawLen isEntry]
    rw [foldl_cons, here]
    apply ih _ distinctRest
    intro entry mem
    have ne : entry.offset ≠ first.offset := by
      intro same
      apply fresh
      rw [← same]
      exact mem_map_of_mem mem
    have kept : (page.moveItem (first.itemOff + size) first).linp
        entry.offset = page.linp entry.offset :=
      Function.update_of_ne ne ..
    rw [PageData.entry, kept]
    exact own entry (mem_cons_of_mem first mem)

/-- Where an item is when the gap is closed. -/
def raisedOff (page : PageData) (start size offset : Nat) : Nat :=
  if (page.linp offset).liOff < start then (page.linp offset).liOff + size
  else (page.linp offset).liOff

theorem itemsBelow_sorted (start : Nat) : page.Sorted (page.itemsBelow sorter start) :=
  page.sorted_filter sorter _

theorem mem_itemsBelow (normal : page.IsNormal offset) (low : (page.linp offset).liOff < start) :
    page.entry offset ∈ page.itemsBelow sorter start := by
  apply (sorter.perm _).mem_iff.2
  apply mem_filter.2
  exact ⟨mem_map_of_mem (mem_normalOffsets.2 normal), decide_eq_true low⟩

theorem itemOff_lt_of_mem {entry : ItemEntry}
    (mem : entry ∈ page.itemsBelow sorter start) : entry.itemOff < start := by
  have listed := (sorter.perm _).mem_iff.1 mem
  exact of_decide_eq_true (mem_filter.1 listed).2

theorem closeGap_eq : page.closeGap sorter start size =
      { page.relocate (raises size (page.itemsBelow sorter start)) with
        pdUpper := page.pdUpper + size } := by
  have sorted := page.itemsBelow_sorted sorter start
  have folded := foldl_raiseItem_eq size (fun entry mem => (sorted.own entry mem).2) sorted.distinct
  have upper := page.relocate_pdUpper (raises size (page.itemsBelow sorter start))
  rw [← upper, ← folded]
  rfl

theorem raises_clears (layout : page.Layout) (pos : 0 < size) :
    (raises size (page.itemsBelow sorter start)).Pairwise ItemMove.Clears := by
  have sorted := page.itemsBelow_sorted sorter start
  rw [raises, pairwise_map]
  apply (sorted.sorted.and (sorted.apart layout)).imp_of_mem
  rintro move later moveIn laterIn ⟨_, apart⟩ _ inside
  have moveShort := sorted.short moveIn
  have laterShort := sorted.short laterIn
  dsimp only at inside
  have below (hit : 0 < move.rawLen) : later.itemOff + later.alignedLen ≤ move.itemOff := by
    rcases apart (by omega) (by omega) with _ | behind
    · omega
    · exact behind
  constructor
  all_goals
    rintro ⟨low, high⟩
    dsimp only at low high
    omega

theorem closeGap_linp (normal : page.IsNormal offset) :
    (page.closeGap sorter start size).linp offset =
      { page.linp offset with liOff := page.raisedOff start size offset } := by
  rw [closeGap_eq, raisedOff]
  have sorted := page.itemsBelow_sorted sorter start
  split_ifs with low
  · have distinct : (raises size (page.itemsBelow sorter start)).Pairwise
        fun left right => left.1.offset ≠ right.1.offset := by
      rw [raises, pairwise_map]
      exact pairwise_map.1 sorted.distinct
    have mem : (page.entry offset, (page.entry offset).itemOff + size) ∈
        raises size (page.itemsBelow sorter start) :=
      mem_map_of_mem (mem_itemsBelow sorter normal low)
    exact page.relocate_linp distinct mem
  · apply page.relocate_linp_other
    rintro move mem rfl
    obtain ⟨entry, listed, rfl⟩ := mem_map.1 mem
    apply low
    have under := itemOff_lt_of_mem sorter listed
    rwa [(sorted.own entry listed).2] at under

theorem Gap.isNormal_closeGap :
    (page.closeGap sorter start size).IsNormal offset ↔ page.IsNormal offset := by
  have count : (page.closeGap sorter start size).maxOffsetNumber = page.maxOffsetNumber := by
    rw [closeGap_eq, maxOffsetNumber, maxOffsetNumber, relocate_pdLower]
  constructor
  · rintro ⟨low, high, flag⟩
    rw [count] at high
    by_contra notBefore
    have same : (page.closeGap sorter start size).linp offset = page.linp offset := by
      rw [closeGap_eq]
      apply page.relocate_linp_other
      rintro move mem rfl
      obtain ⟨entry, listed, rfl⟩ := mem_map.1 mem
      exact notBefore ((page.itemsBelow_sorted sorter start).own entry listed).1
    rw [same] at flag
    exact notBefore ⟨low, high, flag⟩
  · intro normal
    refine ⟨normal.1, ?_, ?_⟩
    · rw [count]
      exact normal.2.1
    · rw [closeGap_linp sorter normal]
      exact normal.2.2

section

variable (gap : page.Gap start size) (layout : page.Layout)

include gap layout

theorem Gap.bounds_of_hits (mem : move ∈ raises size (page.itemsBelow sorter start))
    (hits : ItemMove.Hits move address) :
    page.pdUpper + size ≤ address ∧ address < start + size := by
  obtain ⟨low, high⟩ := hits
  obtain ⟨entry, listed, rfl⟩ := mem_map.1 mem
  dsimp only at low high
  have sorted := page.itemsBelow_sorted sorter start
  have short := sorted.short listed
  have under := itemOff_lt_of_mem sorter listed
  have occupied := sorted.occupied listed (by omega)
  obtain ⟨moved, own⟩ := sorted.own entry listed
  have clear := gap.clear entry.offset moved occupied
  have above := layout.above entry.offset moved occupied
  rw [own] at short under low high
  dsimp only [PageData.entry] at short under low high
  omega

theorem Gap.kept (normal : page.IsNormal offset) :
    Kept page (page.closeGap sorter start size) offset := by
  apply kept_of_place _ normal (closeGap_linp sorter normal)
  · intro _ inside
    rw [closeGap_eq, raisedOff]
    have takes : 0 < (page.linp offset).liLen := by omega
    split_ifs with low
    · have mem : (page.entry offset, (page.entry offset).itemOff + size) ∈
            raises size (page.itemsBelow sorter start) :=
        mem_map_of_mem (mem_itemsBelow sorter normal low)
      exact page.relocate_bytes (raises_clears sorter layout gap.positive) mem inside
    -- The item is above the gap, and no item moves beyond the gap.
    apply page.relocate_bytes_outside
    intro _ mem hits
    have bounds := gap.bounds_of_hits sorter layout mem hits
    have clear := gap.clear offset normal takes
    have aligned := le_maxAlignUp (page.linp offset).liLen
    omega
  · rw [closeGap_eq]
    exact page.relocate_pdLower _

theorem Gap.sound : Sound page (page.closeGap sorter start size) := by
  have upper : (page.closeGap sorter start size).pdUpper = page.pdUpper + size := by
    rw [closeGap_eq]
  have lower : (page.closeGap sorter start size).pdLower = page.pdLower := by
    rw [closeGap_eq]
    exact page.relocate_pdLower _
  have special : (page.closeGap sorter start size).pdSpecial = page.pdSpecial := by
    rw [closeGap_eq]
    exact page.relocate_pdSpecial _
  have old (offset : Nat) (normal : (page.closeGap sorter start size).IsNormal offset) :
      page.IsNormal offset :=
    (Gap.isNormal_closeGap sorter).1 normal
  have fits := gap.below
  have low := gap.above
  refine ⟨?_, special, ?_⟩
  · constructor
    case header =>
      rw [lower]
      exact layout.header
    case lower =>
      rw [lower, upper]
      exact layout.lower.trans (Nat.le_add_right ..)
    case upper => omega
    case above =>
      intro offset normal takes
      rw [closeGap_linp sorter (old offset normal)] at takes ⊢
      have aligned := le_maxAlignUp (page.linp offset).liLen
      dsimp only at takes
      have above := layout.above offset (old offset normal) takes
      have clear := gap.clear offset (old offset normal) takes
      rw [raisedOff]
      dsimp only
      split_ifs with under
      · omega
      · omega
    case below =>
      intro offset normal
      rw [closeGap_linp sorter (old offset normal), special, raisedOff]
      dsimp only
      have below := layout.below offset (old offset normal)
      split_ifs with under
      · by_cases takes : 0 < (page.linp offset).liLen
        · have clear := gap.clear offset (old offset normal) takes
          omega
        have empty : maxAlignUp (page.linp offset).liLen = 0 :=
          maxAlignUp_eq_zero.2 (Nat.eq_zero_of_not_pos takes)
        omega
      · exact below
    case apart =>
      intro left right leftNormal rightNormal ne leftSize rightSize
      rw [closeGap_linp sorter (old left leftNormal)] at leftSize
      rw [closeGap_linp sorter (old right rightNormal)] at rightSize
      have leftAligned := le_maxAlignUp (page.linp left).liLen
      have rightAligned := le_maxAlignUp (page.linp right).liLen
      dsimp only at leftSize rightSize
      have apart := layout.apart left right (old left leftNormal)
        (old right rightNormal) ne leftSize rightSize
      have leftClear := gap.clear left (old left leftNormal) leftSize
      have rightClear := gap.clear right (old right rightNormal) rightSize
      rw [ItemEntry.Apart] at apart ⊢
      simp only [entry, closeGap_linp sorter (old left leftNormal),
        closeGap_linp sorter (old right rightNormal), raisedOff] at apart ⊢
      split_ifs
      all_goals omega
  · intro _ outside
    rw [closeGap_eq]
    apply page.relocate_bytes_outside
    intro _ mem hits
    have bounds := gap.bounds_of_hits sorter layout mem hits
    omega

end

/-! ## The operations -/

theorem Kept.trans (first : Kept page between offset) (second : Kept between after offset) :
    Kept page after offset :=
  ⟨second.normal, second.length.trans first.length, second.bytes.trans first.bytes⟩

theorem Thinned.sound_trans (thinned : Thinned page between Removed)
    (sound : Sound between after) : Sound page after := by
  refine ⟨sound.layout, sound.special.trans thinned.special, ?_⟩
  intro address outside
  rw [← thinned.special] at outside
  rw [sound.confined address outside, thinned.bytes]

theorem Sound.withFlags (sound : Sound page after)
    (flags : BitVec 16) : Sound page { after with pdFlags := flags } :=
  ⟨{ sound.layout with }, sound.special, sound.confined⟩

theorem Kept.withFlags (kept : Kept page after offset) (flags : BitVec 16) :
    Kept page { after with pdFlags := flags } offset :=
  ⟨kept.normal, kept.length, kept.bytes⟩

/-- The line pointer is cleared, and the array shrinks if it was the last. -/
def withoutItem (page : PageData) (offset : Nat) : PageData :=
  if offset = page.maxOffsetNumber then (page.clearItem offset).shrinkLower page.maxOffsetNumber
  else page.clearItem offset

theorem thinned_withoutItem (header : kPageHeaderSize ≤ page.pdLower) (removed : Nat) :
    Thinned page (page.withoutItem removed) fun offset => offset = removed := by
  have cleared := thinned_clearItem header removed
  rw [withoutItem]
  split_ifs
  · have shrunk := thinned_shrinkLower cleared.header
    apply (cleared.trans shrunk).congr
    intro offset _
    exact Iff.of_eq (or_false _)
  · exact cleared

theorem indexTupleDelete_of_normal (normal : page.IsNormal removed) :
    page.indexTupleDelete sorter removed = .ok (if maxAlignUp (page.linp removed).liLen = 0 then
        page.withoutItem removed
      else (page.withoutItem removed).closeGap sorter (page.linp removed).liOff
        (maxAlignUp (page.linp removed).liLen)) := by
  obtain ⟨_, _, flag⟩ := normal
  have inRange : ¬(removed < 1 ∨ page.maxOffsetNumber < removed) := by omega
  simp only [indexTupleDelete, if_neg inRange, flag]
  rfl

theorem indexTupleDelete_of_not_normal (absent : ¬page.IsNormal removed) :
    ∃ message, page.indexTupleDelete sorter removed = .error message := by
  rw [indexTupleDelete]
  split_ifs with outside notNormal
  · exact ⟨_, rfl⟩
  · exact ⟨_, rfl⟩
  refine absurd ⟨?_, ?_, not_not.1 notNormal⟩ absent
  · omega
  · omega

theorem clearItems_pdLower : (page.clearItems nline itemids).pdLower = page.pdLower := by
  induction itemids generalizing page with
  | nil => rfl
  | cons _ _ ih =>
    rw [clearItems, foldl_cons]
    split_ifs
    · exact ih
    · exact ih

section

variable (layout : page.Layout)

include layout

theorem Layout.gap (normal : page.IsNormal removed)
    (takes : maxAlignUp (page.linp removed).liLen ≠ 0) :
    (page.withoutItem removed).Gap (page.linp removed).liOff
      (maxAlignUp (page.linp removed).liLen) := by
  have thinned := thinned_withoutItem layout.header removed
  have size : 0 < (page.linp removed).liLen :=
    Nat.pos_of_ne_zero fun empty => takes (maxAlignUp_eq_zero.2 empty)
  constructor
  · exact Nat.pos_of_ne_zero takes
  · rw [thinned.upper]
    exact layout.above removed normal size
  · rw [thinned.special]
    exact layout.below removed normal
  intro offset left occupied
  obtain ⟨before, ne⟩ := (thinned.normal offset).1 left
  rw [thinned.linp offset left] at occupied ⊢
  exact layout.apart offset removed before normal ne occupied size

/-- The items that are not to be deleted stay. -/
structure Deletes (page after : PageData) (Removed : Nat → Prop) : Prop where
  sound : Sound page after
  kept : ∀ offset, page.IsNormal offset → ¬Removed offset → Kept page after offset

theorem Layout.deletes_indexTupleDelete (removed : Nat) :
    Deletes page (run sorter page (.indexTupleDelete removed)) fun offset => offset = removed := by
  rw [run]
  by_cases normal : page.IsNormal removed
  · rw [indexTupleDelete_of_normal sorter normal]
    have thinned := thinned_withoutItem layout.header removed
    split_ifs with takes
    · exact ⟨thinned.sound layout, fun offset => thinned.kept⟩
    have gap := layout.gap normal takes
    have between := thinned.layout layout
    refine ⟨thinned.sound_trans (gap.sound sorter between), ?_⟩
    intro offset before stays
    have kept := thinned.kept before stays
    exact kept.trans (gap.kept sorter between kept.normal)
  · obtain ⟨_, failed⟩ := indexTupleDelete_of_not_normal sorter normal
    rw [failed]
    exact ⟨layout.sound_self, fun offset before _ => before.kept_self⟩

theorem Layout.deletes_indexTupleDeleteNoCompact (removed : Nat) :
    Deletes page (page.indexTupleDeleteNoCompact removed) fun offset => offset = removed := by
  have thinned := thinned_withoutItem layout.header removed
  rw [withoutItem] at thinned
  rw [indexTupleDeleteNoCompact]
  split_ifs at thinned ⊢ with outside last
  · exact ⟨layout.sound_self, fun offset before _ => before.kept_self⟩
  · exact ⟨layout.sound_self, fun offset before _ => before.kept_self⟩
  · exact ⟨thinned.sound layout, fun offset => thinned.kept⟩
  · exact ⟨(thinned.sound layout).withFlags _,
      fun offset before stays => (thinned.kept before stays).withFlags _⟩

theorem Layout.deletes_indexMultiDelete (itemids : List Nat) :
    Deletes page (page.indexMultiDelete sorter itemids) fun offset => offset ∈ itemids := by
  have cleared := thinned_clearItems layout.header rfl itemids
  have shrunk := thinned_shrinkLower cleared.header
  have count : (page.clearItems page.maxOffsetNumber itemids).maxOffsetNumber =
        page.maxOffsetNumber := by
    rw [maxOffsetNumber, maxOffsetNumber, clearItems_pdLower]
  rw [count] at shrunk
  have thinned := (cleared.trans shrunk).congr fun offset _ => Iff.of_eq (or_false _)
  have between := thinned.layout layout
  constructor
  · exact (thinned.sound_trans (between.sound_compactifyTuples sorter)).withFlags _
  intro offset before stays
  have kept := thinned.kept before stays
  exact (kept.trans (between.kept_compactifyTuples sorter kept.normal)).withFlags _

theorem Layout.normalFrom_compactifyTuples :
    normalFrom (page.compactifyTuples sorter).linp 1 page.maxOffsetNumber = page.normalOffsets := by
  have count : (page.compactifyTuples sorter).maxOffsetNumber = page.maxOffsetNumber := by
    rw [compactifyTuples_eq, maxOffsetNumber, maxOffsetNumber, relocate_pdLower]
  apply filter_congr
  intro index mem
  obtain ⟨low, _⟩ := mem_range'_1.1 mem
  have same : (page.compactifyTuples sorter).IsNormal index ↔
      page.IsNormal index := layout.isNormal_compactifyTuples sorter
  rw [decide_eq_decide]
  constructor
  · intro flag
    exact (same.1 ⟨low, by omega, flag⟩).2.2
  · intro flag
    exact (same.2 ⟨low, by omega, flag⟩).2.2

end

/-- Line pointers that were packed refer to the storage they referred to. -/
structure Packs (page after : PageData) : Prop where
  upper : after.pdUpper = page.pdUpper
  special : after.pdSpecial = page.pdSpecial
  bytes : after.bytes = page.bytes
  count : after.maxOffsetNumber = page.normalOffsets.length
  linp : ∀ position offset, page.normalOffsets[position]? = some offset →
    after.linp (position + 1) = page.linp offset

namespace Packs

section

variable (packs : Packs page after)

include packs

theorem origin (normal : after.IsNormal offset) :
    ∃ index, page.normalOffsets[offset - 1]? = some index ∧
      after.linp offset = page.linp index ∧ page.IsNormal index := by
  obtain ⟨low, high, -⟩ := normal
  rw [packs.count] at high
  have inside : offset - 1 < page.normalOffsets.length := by omega
  have found := getElem?_eq_getElem inside
  refine ⟨_, found, ?_, mem_normalOffsets.1 (getElem_mem inside)⟩
  have moved := packs.linp _ _ found
  rwa [Nat.sub_add_cancel low] at moved

theorem layout (layout : page.Layout) (header : kPageHeaderSize ≤ after.pdLower)
    (lower : after.pdLower ≤ page.pdLower) : after.Layout := by
  constructor
  case header => exact header
  case lower =>
    rw [packs.upper]
    exact lower.trans layout.lower
  case upper =>
    rw [packs.upper, packs.special]
    exact layout.upper
  case above =>
    intro offset normal takes
    obtain ⟨index, -, same, before⟩ := packs.origin normal
    rw [same] at takes ⊢
    rw [packs.upper]
    exact layout.above index before takes
  case below =>
    intro offset normal
    obtain ⟨index, -, same, before⟩ := packs.origin normal
    rw [same, packs.special]
    exact layout.below index before
  case apart =>
    intro _ _ leftNormal rightNormal _ leftSize rightSize
    obtain ⟨leftIndex, leftFound, leftSame, leftBefore⟩ := packs.origin leftNormal
    obtain ⟨rightIndex, rightFound, rightSame, rightBefore⟩ := packs.origin rightNormal
    have indices : leftIndex ≠ rightIndex := by
      rintro rfl
      have place := (getElem?_inj (List.getElem?_eq_some_iff.1 leftFound).1
        page.normalOffsets_nodup).1 (leftFound.trans rightFound.symm)
      have leftLow := leftNormal.1
      have rightLow := rightNormal.1
      omega
    rw [leftSame] at leftSize
    rw [rightSame] at rightSize
    have apart := layout.apart leftIndex rightIndex leftBefore rightBefore
      indices leftSize rightSize
    simp only [ItemEntry.Apart, entry, leftSame, rightSame] at apart ⊢
    exact apart

theorem repaired : Repaired page after := by
  refine ⟨packs.count, ?_, ?_⟩
  · intro pos inside
    have found := getElem?_eq_getElem inside
    have normal := mem_normalOffsets.1 (getElem_mem inside)
    rw [packs.linp pos _ found]
    exact normal.2.2
  · intro pos offset found
    rw [item, item, packs.linp pos offset found, packs.bytes]

end

end Packs

theorem normalOffsets_length_le (page : PageData) :
    page.normalOffsets.length ≤ page.maxOffsetNumber := by
  have fewer := length_filter_le (fun offset => (page.linp offset).liFlags = .normal)
    (List.range' 1 page.maxOffsetNumber)
  rwa [length_range'] at fewer

/-- The page after the line pointers of a compacted page were packed. -/
def packed (page : PageData) : PageData :=
  { page with
    linp := (packLinp page.linp 0 1 page.maxOffsetNumber).1
    pdLower := kPageHeaderSize + (packLinp page.linp 0 1 page.maxOffsetNumber).2 * kItemIdSize
    pdFlags := page.pdFlags &&& ~~~kPageHasFreeLines }

theorem packs_packed (page : PageData) : Packs page page.packed := by
  have result := packLinp_packed page.linp Nat.one_pos page.maxOffsetNumber
  refine ⟨rfl, rfl, rfl, ?_, ?_⟩
  · apply maxOffsetNumber_of_lower
    rw [packed, result.count, zero_add]
    rfl
  · intro pos offset found
    have follows := result.follow pos offset found
    rwa [zero_add, add_comm] at follows

theorem Layout.sound_packed (layout : page.Layout) : Sound page page.packed := by
  have packs := page.packs_packed
  refine ⟨packs.layout layout (Nat.le_add_right ..) ?_, rfl, fun _ _ => rfl⟩
  have lower : page.packed.pdLower = kPageHeaderSize + page.normalOffsets.length * kItemIdSize := by
    have result := packLinp_packed page.linp Nat.one_pos page.maxOffsetNumber
    rw [packed, result.count, zero_add]
    rfl
  rw [lower]
  apply le_trans _ (header_add_maxOffsetNumber_le layout.header)
  exact Nat.add_le_add_left (Nat.mul_le_mul_right _ page.normalOffsets_length_le) _

theorem Layout.repair_empty (layout : page.Layout) (none : page.normalOffsets.length = 0) :
    Sound page (page.repairFragmentation sorter) ∧
      Repaired page (page.repairFragmentation sorter) := by
  rw [repairFragmentation, if_pos none]
  have count : maxOffsetNumber
      { page with
        pdUpper := page.pdSpecial, pdLower := kPageHeaderSize, linp := fun offset =>
          if 1 ≤ offset ∧ offset ≤ page.maxOffsetNumber then .cleared else page.linp offset
        pdFlags := page.pdFlags &&& ~~~kPageHasFreeLines } = 0 :=
    maxOffsetNumber_of_lower rfl
  refine ⟨⟨⟨le_rfl, ?_, le_rfl, ?_, ?_, ?_⟩, rfl, fun _ _ => rfl⟩, ⟨?_, ?_, ?_⟩⟩
  · exact layout.header.trans (layout.lower.trans layout.upper)
  · rintro offset ⟨low, high, -⟩
    omega
  · rintro offset ⟨low, high, -⟩
    omega
  · rintro _ _ ⟨low, high, -⟩
    omega
  · rw [count, none]
  · intro pos _
    omega
  intro pos offset found
  have := length_pos_of_mem (mem_of_getElem? found)
  omega

theorem Layout.repair (layout : page.Layout) : Sound page (page.repairFragmentation sorter) ∧
      Repaired page (page.repairFragmentation sorter) := by
  by_cases none : page.normalOffsets.length = 0
  · exact layout.repair_empty sorter none
  have sound := layout.sound_compactifyTuples sorter
  have count : (page.compactifyTuples sorter).maxOffsetNumber = page.maxOffsetNumber := by
    rw [compactifyTuples_eq, maxOffsetNumber, maxOffsetNumber, relocate_pdLower]
  have result : page.repairFragmentation sorter = (page.compactifyTuples sorter).packed := by
    rw [repairFragmentation, if_neg none, packed, count]
  have listed : (page.compactifyTuples sorter).normalOffsets = page.normalOffsets := by
    rw [normalOffsets, count]
    exact layout.normalFrom_compactifyTuples sorter
  have packing := sound.layout.sound_packed
  have repaired := (packs_packed (page.compactifyTuples sorter)).repaired
  rw [result]
  refine ⟨⟨packing.layout, packing.special.trans sound.special, ?_⟩, ⟨?_, ?_, ?_⟩⟩
  · intro address outside
    exact sound.confined address outside
  · rw [repaired.count, listed]
  · rw [← listed]
    exact repaired.normal
  intro pos offset found
  have normal := mem_normalOffsets.1 (mem_of_getElem? found)
  rw [← (layout.kept_compactifyTuples sorter normal).bytes]
  rw [← listed] at found
  exact repaired.items pos offset found

theorem repairFragmentation_repaired (formed : page.WellFormed) :
    Repaired page (page.repairFragmentation insertionOrder) := by
  exact (formed.layout.repair insertionOrder).2

end PageData

namespace PageCall

/-- The items that a call was not asked to delete are there with the same bytes:
at the same offset number, or after a repair in the same order. -/
def Keeps (page after : PageData) : PageCall → Prop
  | .addItem _ => ∀ offset, page.IsNormal offset → page.Kept after offset
  | .indexTupleDelete deleted => ∀ offset, page.IsNormal offset →
      offset ≠ deleted → page.Kept after offset
  | .indexMultiDelete itemids => ∀ offset, page.IsNormal offset →
      offset ∉ itemids → page.Kept after offset
  | .indexTupleDeleteNoCompact deleted => ∀ offset, page.IsNormal offset →
      offset ≠ deleted → page.Kept after offset
  | .repairFragmentation => after.normalOffsets.map after.item = page.normalOffsets.map page.item

variable (sorter : PageData.DescendingSort) {page : PageData}

theorem sound_run (layout : page.Layout) (call : PageCall) : page.Sound (call.run sorter page) := by
  cases call with
  | addItem item => exact layout.sound_addItem item
  | indexTupleDelete offset => exact (layout.deletes_indexTupleDelete sorter offset).sound
  | indexMultiDelete itemids => exact (layout.deletes_indexMultiDelete sorter itemids).sound
  | indexTupleDeleteNoCompact offset =>
    exact (layout.deletes_indexTupleDeleteNoCompact offset).sound
  | repairFragmentation => exact (layout.repair sorter).1

theorem keeps_run (layout : page.Layout) (call : PageCall) :
    call.Keeps page (call.run sorter page) := by
  cases call with
  | addItem item => exact fun offset => layout.kept_addItem item
  | indexTupleDelete offset => exact (layout.deletes_indexTupleDelete sorter offset).kept
  | indexMultiDelete itemids => exact (layout.deletes_indexMultiDelete sorter itemids).kept
  | indexTupleDeleteNoCompact offset => exact (layout.deletes_indexTupleDeleteNoCompact offset).kept
  | repairFragmentation =>
    have repaired := (layout.repair sorter).2
    rw [Keeps, run, repaired.normalOffsets_eq]
    exact repaired.map_item

theorem layout_foldl_run (layout : page.Layout) (calls : List PageCall) :
    (calls.foldl (run sorter) page).Layout ∧
      (calls.foldl (run sorter) page).pdSpecial = page.pdSpecial := by
  induction calls generalizing page with
  | nil => exact ⟨layout, rfl⟩
  | cons call _ ih =>
    have sound := sound_run sorter layout call
    obtain ⟨later, special⟩ := ih sound.layout
    exact ⟨later, special.trans sound.special⟩

/-- The layout of a page after any calls, and what the next call keeps.  Any
function may sort that does what `std::sort` promises. -/
theorem soundLayout_and_keeps {specialSize : Nat} (room : kPageHeaderSize + specialSize ≤ kBlckSz)
    (calls : List PageCall) (call : PageCall) :
    let page := calls.foldl (run sorter) (pageInit kBlckSz specialSize)
    page.SoundLayout (kBlckSz - specialSize) ∧ call.Keeps page (call.run sorter page) := by
  intro page
  obtain ⟨layout, special⟩ := layout_foldl_run sorter
    (pageInit_wellFormed room).layout calls
  exact ⟨layout.soundLayout special, keeps_run sorter layout call⟩

theorem soundLayout_and_keeps_with_hole : let calls : List PageCall :=
      [.addItem [1, 2, 3], .addItem [], .addItem [4, 5, 6, 7, 8], .indexTupleDeleteNoCompact 1]
    let page := calls.foldl (run insertionOrder) (pageInit kBlckSz 16)
    page.SoundLayout (kBlckSz - 16) ∧ repairFragmentation.Keeps page
        (repairFragmentation.run insertionOrder page) :=
  soundLayout_and_keeps insertionOrder (by decide) ..

end PageCall

end Pgcpp.Storage
