import Pgcpp.Storage.PageMoves

/-!
# The layout of pages

Every run of the page operations keeps the header, the line pointers and the
items of a page apart, and every operation keeps the items it was not asked to
delete.  An empty item has a line pointer but no storage.
-/

namespace Pgcpp.Storage

open Lib
open List hiding after all count length

namespace PageData

/-- The storage of line pointer `offset` has the address. -/
def Occupies (page : PageData) (offset address : Nat) : Prop :=
  (page.linp offset).liOff ≤ address ∧ address < (page.linp offset).liOff + (page.linp offset).liLen

/-- The layout of a page whose special space starts at `special`. -/
structure SoundLayout (page : PageData) (special : Nat) : Prop where
  header : kPageHeaderSize ≤ page.pdLower
  lower : page.pdLower ≤ page.pdUpper
  upper : page.pdUpper ≤ page.pdSpecial
  special_eq : page.pdSpecial = special
  inside : ∀ offset, page.IsNormal offset → ∀ address, page.Occupies offset address →
      page.pdUpper ≤ address ∧ address < page.pdSpecial
  apart : ∀ left right, page.IsNormal left → page.IsNormal right → left ≠ right → ∀ address,
      page.Occupies left address → ¬page.Occupies right address

/-- The item is where it was, with the same length and bytes. -/
structure Kept (page after : PageData) (offset : Nat) : Prop where
  normal : after.IsNormal offset
  length : (after.linp offset).liLen = (page.linp offset).liLen
  bytes : after.item offset = page.item offset

/-- The layout with the space that alignment takes. -/
structure Layout (page : PageData) : Prop where
  header : kPageHeaderSize ≤ page.pdLower
  lower : page.pdLower ≤ page.pdUpper
  upper : page.pdUpper ≤ page.pdSpecial
  above : ∀ offset, page.IsNormal offset → 0 < (page.linp offset).liLen →
    page.pdUpper ≤ (page.linp offset).liOff
  below : ∀ offset, page.IsNormal offset →
    (page.linp offset).liOff + maxAlignUp (page.linp offset).liLen ≤ page.pdSpecial
  apart : ∀ left right, page.IsNormal left → page.IsNormal right →
    left ≠ right → 0 < (page.linp left).liLen →
    0 < (page.linp right).liLen → (page.entry left).Apart (page.entry right)

/-- What an operation does to the rest of the page. -/
structure Sound (page after : PageData) : Prop where
  layout : after.Layout
  special : after.pdSpecial = page.pdSpecial
  confined : ∀ address, address < after.pdUpper ∨ page.pdSpecial ≤ address →
    after.bytes address = page.bytes address

theorem Layout.sound_self (layout : page.Layout) : Sound page page :=
  ⟨layout, rfl, fun _ _ => rfl⟩

theorem IsNormal.kept_self (normal : page.IsNormal offset) : Kept page page offset :=
  ⟨normal, rfl, rfl⟩

theorem maxAlignUp_eq_zero : maxAlignUp size = 0 ↔ size = 0 := by
  unfold maxAlignUp kItemIdSize
  omega

theorem Layout.soundLayout {page : PageData} (layout : page.Layout)
    (isSpecial : page.pdSpecial = special) : page.SoundLayout special := by
  refine ⟨layout.header, layout.lower, layout.upper, isSpecial, ?_, ?_⟩
  · rintro offset normal address ⟨low, _⟩
    have above := layout.above offset normal (by omega)
    have below := layout.below offset normal
    have aligned := le_maxAlignUp (page.linp offset).liLen
    exact ⟨above.trans low, by omega⟩
  rintro left right leftNormal rightNormal ne address ⟨_, _⟩ ⟨_, _⟩
  have leftAligned := le_maxAlignUp (page.linp left).liLen
  have rightAligned := le_maxAlignUp (page.linp right).liLen
  have apart := layout.apart left right leftNormal rightNormal ne (by omega) (by omega)
  rcases apart with before | behind
  · dsimp only [entry] at before
    omega
  · dsimp only [entry] at behind
    omega

variable {page : PageData}

theorem WellFormed.layout (formed : page.WellFormed) : page.Layout :=
  ⟨formed.header, formed.lower, formed.upper,
    fun offset normal _ => formed.above offset normal, formed.below,
    fun left right leftNormal rightNormal ne _ _ =>
      formed.apart left right leftNormal rightNormal ne⟩

theorem Layout.appended (layout : page.Layout) {item : List UInt8}
    (fits : page.Fits item) : (page.appended item).Layout := by
  have special := layout.upper
  have newLower := fits.2
  have lowered : (page.appended item).pdUpper = page.pdUpper - maxAlignUp item.length := rfl
  constructor
  case header => exact Nat.le_add_right ..
  case lower =>
    simp only [PageData.appended]
    omega
  case upper =>
    simp only [PageData.appended]
    omega
  case above =>
    intro offset normal occupied
    rcases normal.of_appended with ⟨old, other⟩ | rfl
    · rw [appended_linp_other page item other] at occupied ⊢
      have := layout.above offset old occupied
      omega
    · rw [appended_linp_last]
      exact le_refl _
  case below =>
    intro offset normal
    rcases normal.of_appended with ⟨old, other⟩ | rfl
    · rw [appended_linp_other page item other]
      exact layout.below offset old
    rw [appended_linp_last]
    simp only [PageData.appended]
    omega
  case apart =>
    have newest (offset : Nat) (old : page.IsNormal offset)
        (other : offset ≠ page.maxOffsetNumber + 1)
        (occupied : 0 < ((page.appended item).linp offset).liLen) :
        ((page.appended item).entry (page.maxOffsetNumber + 1)).Apart
          ((page.appended item).entry offset) := by
      rw [appended_linp_other page item other] at occupied
      have above := layout.above offset old occupied
      left
      simp only [entry, appended_linp_last, appended_linp_other page item other]
      omega
    intro left right leftNormal rightNormal ne leftSize rightSize
    rcases leftNormal.of_appended with ⟨leftOld, leftOther⟩ | rfl
    · rcases rightNormal.of_appended with ⟨rightOld, rightOther⟩ | rfl
      · rw [appended_linp_other page item leftOther] at leftSize
        rw [appended_linp_other page item rightOther] at rightSize
        unfold entry
        rw [appended_linp_other page item leftOther, appended_linp_other page item rightOther]
        exact layout.apart left right leftOld rightOld ne leftSize rightSize
      · exact (newest left leftOld leftOther leftSize).symm
    · rcases rightNormal.of_appended with ⟨rightOld, rightOther⟩ | rfl
      · exact newest right rightOld rightOther rightSize
      · exact absurd rfl ne

theorem WellFormed.appended (formed : page.WellFormed) {item : List UInt8}
    (nonempty : item ≠ []) (fits : page.Fits item) : (page.appended item).WellFormed := by
  have layout := formed.layout.appended fits
  have takes (offset : Nat) (normal : (page.appended item).IsNormal offset) :
      0 < ((page.appended item).linp offset).liLen := by
    rcases normal.of_appended with ⟨old, other⟩ | rfl
    · rw [appended_linp_other page item other]
      exact formed.nonempty offset old
    · rw [appended_linp_last]
      exact length_pos_iff.2 nonempty
  refine ⟨layout.header, layout.lower, layout.upper, ?_, layout.below, takes, ?_⟩
  · intro offset normal
    exact layout.above offset normal (takes offset normal)
  · intro left right isLeft isRight ne
    exact layout.apart left right isLeft isRight ne (takes left isLeft) (takes right isRight)

theorem Layout.sound_addItem (layout : page.Layout) (item : List UInt8) :
    Sound page (page.addItem item kInvalidOffsetNumber).1 := by
  by_cases fits : page.Fits item
  · rw [addItem_of_fits fits]
    refine ⟨layout.appended fits, rfl, ?_⟩
    intro _ outside
    have room := fits.1
    have special := layout.upper
    have aligned := le_maxAlignUp item.length
    have lowered : (page.appended item).pdUpper = page.pdUpper - maxAlignUp item.length := rfl
    dsimp only at outside
    exact if_neg (by omega)
  · rw [addItem_of_not_fits fits]
    exact layout.sound_self

theorem Layout.kept_addItem (layout : page.Layout) (item : List UInt8)
    (normal : page.IsNormal offset) :
    Kept page (page.addItem item kInvalidOffsetNumber).1 offset := by
  by_cases fits : page.Fits item
  · rw [addItem_of_fits fits]
    have bound := normal.2.1
    have other : offset ≠ page.maxOffsetNumber + 1 := by omega
    have same := appended_linp_other page item other
    refine ⟨⟨normal.1, ?_, ?_⟩, ?_, ?_⟩
    · rw [appended_maxOffsetNumber]
      exact Nat.le_succ_of_le bound
    · rw [same]
      exact normal.2.2
    · rw [same]
    rw [PageData.item, same]
    apply ByteMem.slice_congr
    intro _ _
    have above := layout.above offset normal (by omega)
    have room := fits.1
    have aligned := le_maxAlignUp item.length
    exact if_neg (by omega)
  · rw [addItem_of_not_fits fits]
    exact normal.kept_self

/-! ## Line pointers that go -/

/-- Some items are gone and their space is not yet used again. -/
structure Thinned (page after : PageData) (Removed : Nat → Prop) : Prop where
  header : kPageHeaderSize ≤ after.pdLower
  lower : after.pdLower ≤ page.pdLower
  upper : after.pdUpper = page.pdUpper
  special : after.pdSpecial = page.pdSpecial
  bytes : after.bytes = page.bytes
  normal : ∀ offset, after.IsNormal offset ↔ page.IsNormal offset ∧ ¬Removed offset
  linp : ∀ offset, after.IsNormal offset → after.linp offset = page.linp offset

namespace Thinned

variable {Removed Later : Nat → Prop}

theorem trans (first : Thinned page after Removed) (second : Thinned after final Later) :
    Thinned page final fun offset => Removed offset ∨ Later offset := by
  refine ⟨second.header, second.lower.trans first.lower,
    second.upper.trans first.upper, second.special.trans first.special,
    second.bytes.trans first.bytes, ?_, ?_⟩
  · intro offset
    rw [second.normal, first.normal, not_or, and_assoc]
  intro offset normal
  have between := ((second.normal offset).1 normal).1
  rw [second.linp offset normal, first.linp offset between]

section

variable (thinned : Thinned page after Removed)

include thinned

theorem congr (same : ∀ offset, page.IsNormal offset →
      (Removed offset ↔ Later offset)) : Thinned page after Later := by
  refine ⟨thinned.header, thinned.lower, thinned.upper, thinned.special,
    thinned.bytes, ?_, thinned.linp⟩
  intro offset
  rw [thinned.normal]
  exact and_congr_right fun normal => not_congr (same offset normal)

theorem layout (layout : page.Layout) : after.Layout := by
  have old (offset : Nat) (normal : after.IsNormal offset) :
      page.IsNormal offset := ((thinned.normal offset).1 normal).1
  constructor
  case header => exact thinned.header
  case lower =>
    rw [thinned.upper]
    exact thinned.lower.trans layout.lower
  case upper =>
    rw [thinned.upper, thinned.special]
    exact layout.upper
  case above =>
    intro offset normal occupied
    rw [thinned.linp offset normal] at occupied ⊢
    rw [thinned.upper]
    exact layout.above offset (old offset normal) occupied
  case below =>
    intro offset normal
    rw [thinned.linp offset normal, thinned.special]
    exact layout.below offset (old offset normal)
  case apart =>
    intro left right leftNormal rightNormal ne leftSize rightSize
    rw [thinned.linp left leftNormal] at leftSize
    rw [thinned.linp right rightNormal] at rightSize
    have apart := layout.apart left right (old left leftNormal)
      (old right rightNormal) ne leftSize rightSize
    simp only [entry, thinned.linp left leftNormal, thinned.linp right rightNormal]
    exact apart

theorem sound (layout : page.Layout) : Sound page after := by
  refine ⟨thinned.layout layout, thinned.special, ?_⟩
  intro _ _
  rw [thinned.bytes]

theorem kept (normal : page.IsNormal offset) (stays : ¬Removed offset) :
    Kept page after offset := by
  have still := (thinned.normal offset).2 ⟨normal, stays⟩
  have same := thinned.linp offset still
  refine ⟨still, ?_, ?_⟩
  · rw [same]
  · rw [item, item, same, thinned.bytes]

end

end Thinned

theorem dropUnused_le (linp : Nat → ItemIdData) (nline : Nat) : dropUnused linp nline ≤ nline := by
  induction nline with
  | zero => exact le_rfl
  | succ nline ih =>
    rw [dropUnused]
    split_ifs
    · exact Nat.le_succ_of_le ih
    · exact le_rfl

theorem le_dropUnused {linp : Nat → ItemIdData}
    (used : (linp offset).liFlags ≠ .unused) (bound : offset ≤ nline) :
    offset ≤ dropUnused linp nline := by
  induction nline with
  | zero => exact bound
  | succ nline ih =>
    rw [dropUnused]
    split_ifs with unused
    · apply ih
      apply Nat.le_of_lt_succ
      apply lt_of_le_of_ne bound
      rintro rfl
      exact used unused
    · exact bound

section

variable (header : kPageHeaderSize ≤ page.pdLower)

include header

theorem thinned_clearItem (removed : Nat) :
    Thinned page (page.clearItem removed) fun offset => offset = removed := by
  have other {offset : Nat} (ne : offset ≠ removed) :
      (page.clearItem removed).linp offset = page.linp offset :=
    Function.update_of_ne ne ..
  have gone : ¬(page.clearItem removed).IsNormal removed := by
    rintro ⟨-, -, flag⟩
    simp [clearItem, ItemIdData.cleared] at flag
  refine ⟨header, le_rfl, rfl, rfl, rfl, ?_, ?_⟩
  · intro offset
    by_cases same : offset = removed
    · rw [same]
      exact iff_of_false gone fun both => both.2 rfl
    · simp only [IsNormal, other same]
      exact ⟨fun normal => ⟨normal, same⟩, fun both => both.1⟩
  · intro offset normal
    apply other
    rintro rfl
    exact gone normal

theorem thinned_clearItems (isCount : page.maxOffsetNumber = nline) (itemids : List Nat) :
    Thinned page (page.clearItems nline itemids) fun offset => offset ∈ itemids := by
  induction itemids generalizing page with
  | nil =>
    refine ⟨header, le_rfl, rfl, rfl, rfl, ?_, fun _ _ => rfl⟩
    intro offset
    exact (and_iff_left not_mem_nil).symm
  | cons removed _ ih =>
    rw [clearItems, foldl_cons]
    split_ifs with outside
    · apply (ih header isCount).congr
      intro offset normal
      rw [mem_cons, or_iff_right]
      rintro rfl
      have low := normal.1
      have high := normal.2.1
      omega
    · have first := thinned_clearItem header removed
      apply (first.trans (ih first.header isCount)).congr
      intro offset _
      exact mem_cons.symm

theorem header_add_maxOffsetNumber_le :
    kPageHeaderSize + page.maxOffsetNumber * kItemIdSize ≤ page.pdLower := by
  have counted := Nat.div_mul_le_self (page.pdLower - kPageHeaderSize) kItemIdSize
  rw [maxOffsetNumber]
  omega

theorem thinned_shrinkLower :
    Thinned page (page.shrinkLower page.maxOffsetNumber) fun _ => False := by
  have fewer := dropUnused_le page.linp page.maxOffsetNumber
  have count : (page.shrinkLower page.maxOffsetNumber).maxOffsetNumber =
      dropUnused page.linp page.maxOffsetNumber :=
    maxOffsetNumber_of_lower rfl
  refine ⟨Nat.le_add_right .., ?_, rfl, rfl, rfl, ?_, fun _ _ => rfl⟩
  · apply le_trans _ (header_add_maxOffsetNumber_le header)
    exact Nat.add_le_add_left (Nat.mul_le_mul_right _ fewer) _
  intro _
  rw [not_false_iff, and_true]
  simp only [IsNormal, count]
  constructor
  · rintro ⟨low, high, flag⟩
    exact ⟨low, high.trans fewer, flag⟩
  rintro ⟨low, high, flag⟩
  refine ⟨low, le_dropUnused ?_ high, flag⟩
  rw [flag]
  decide

end

/-! ## Items that move -/

theorem kept_of_place (lower : after.pdLower = page.pdLower) (normal : page.IsNormal offset)
    (placed : after.linp offset = { page.linp offset with liOff := place })
    (copied : ∀ index < (page.linp offset).liLen, after.bytes (place + index) =
        page.bytes ((page.linp offset).liOff + index)) : Kept page after offset := by
  have count : after.maxOffsetNumber = page.maxOffsetNumber := by
    rw [maxOffsetNumber, maxOffsetNumber, lower]
  refine ⟨⟨normal.1, ?_, ?_⟩, ?_, ?_⟩
  · rw [count]
    exact normal.2.1
  · rw [placed]
    exact normal.2.2
  · rw [placed]
  · rw [item, placed]
    exact ByteMem.slice_congr copied

/-- The entries of some normal line pointers, from high to low. -/
structure Sorted (page : PageData) (entries : List ItemEntry) : Prop where
  own : ∀ entry ∈ entries, page.IsNormal entry.offset ∧ entry = page.entry entry.offset
  distinct : (entries.map ItemEntry.offset).Nodup
  sorted : entries.Pairwise fun left right => right.itemOff ≤ left.itemOff

theorem sorted_filter (sorter : DescendingSort) (select : ItemEntry → Bool) :
    page.Sorted (sorter.sort ((page.normalOffsets.map page.entry).filter select)) := by
  have perm := sorter.perm ((page.normalOffsets.map page.entry).filter select)
  refine ⟨?_, ?_, sorter.sorted _⟩
  · intro entry mem
    have listed := mem_of_mem_filter (perm.mem_iff.1 mem)
    obtain ⟨offset, normal, rfl⟩ := mem_map.1 listed
    exact ⟨mem_normalOffsets.1 normal, rfl⟩
  rw [(perm.map ItemEntry.offset).nodup_iff]
  have all : ((page.normalOffsets.map page.entry).map ItemEntry.offset).Nodup := by
    rw [map_map]
    exact (map_id _).symm ▸ page.normalOffsets_nodup
  exact all.sublist (filter_sublist.map _)

namespace Sorted

section

variable (sorted : page.Sorted entries)

include sorted

theorem occupied {entry : ItemEntry} (mem : entry ∈ entries) (takes : entry.alignedLen ≠ 0) :
    0 < (page.linp entry.offset).liLen := by
  rw [(sorted.own entry mem).2] at takes
  exact Nat.pos_of_ne_zero fun empty => takes (maxAlignUp_eq_zero.2 empty)

theorem short {entry : ItemEntry} (mem : entry ∈ entries) : entry.rawLen ≤ entry.alignedLen := by
  rw [(sorted.own entry mem).2]
  exact le_maxAlignUp _

theorem apart (layout : page.Layout) : entries.Pairwise fun left right =>
      left.alignedLen ≠ 0 → right.alignedLen ≠ 0 → left.Apart right := by
  have ne := pairwise_map.1 sorted.distinct
  apply ne.imp_of_mem
  intro left right leftIn rightIn offsets leftTakes rightTakes
  obtain ⟨leftNormal, leftOwn⟩ := sorted.own left leftIn
  obtain ⟨rightNormal, rightOwn⟩ := sorted.own right rightIn
  rw [leftOwn, rightOwn]
  exact layout.apart left.offset right.offset leftNormal rightNormal offsets
    (sorted.occupied leftIn leftTakes) (sorted.occupied rightIn rightTakes)

theorem descending (layout : page.Layout) : Descending page.pdSpecial entries := by
  apply descending_of_sorted sorted.sorted (sorted.apart layout)
  intro entry mem _
  obtain ⟨normal, own⟩ := sorted.own entry mem
  rw [own]
  exact layout.below entry.offset normal

end

end Sorted

section Compaction

variable (sorter : DescendingSort)

/-- The entries in the order in which they are moved. -/
def orderedEntries (page : PageData) : List ItemEntry :=
  sorter.sort (page.normalOffsets.map page.entry)

theorem orderedEntries_sorted : page.Sorted (page.orderedEntries sorter) := by
  have all : (page.normalOffsets.map page.entry).filter (fun _ => true) =
      page.normalOffsets.map page.entry :=
    filter_eq_self.2 fun _ _ => rfl
  have sorted := page.sorted_filter sorter fun _ => true
  rwa [all] at sorted

theorem compactifyTuples_eq : page.compactifyTuples sorter = { page.relocate
          (placements page.pdSpecial (page.orderedEntries sorter)) with
        pdUpper := finalUpper page.pdSpecial (page.orderedEntries sorter) } :=
  moveItems_eq ..

theorem exists_placement (normal : page.IsNormal offset) : ∃ place, (page.entry offset, place) ∈
      placements page.pdSpecial (page.orderedEntries sorter) := by
  have listed : page.entry offset ∈ page.orderedEntries sorter := by
    apply (sorter.perm _).mem_iff.2
    exact mem_map_of_mem (mem_normalOffsets.2 normal)
  rw [← map_fst_placements page.pdSpecial (page.orderedEntries sorter)] at listed
  obtain ⟨move, mem, isEntry⟩ := mem_map.1 listed
  exact ⟨move.2, isEntry ▸ mem⟩

theorem placements_distinct : (placements page.pdSpecial (page.orderedEntries sorter)).Pairwise
      fun left right => left.1.offset ≠ right.1.offset := by
  have distinct := (page.orderedEntries_sorted sorter).distinct
  rw [← map_fst_placements page.pdSpecial (page.orderedEntries sorter)] at distinct
  rw [map_map] at distinct
  exact pairwise_map.1 distinct

/-- Where compaction puts an item. -/
structure Placed (page after : PageData) (offset place : Nat) : Prop where
  linp : after.linp offset = { page.linp offset with liOff := place }
  above : after.pdUpper ≤ place
  below : place + maxAlignUp (page.linp offset).liLen ≤ page.pdSpecial
  member : (page.entry offset, place) ∈ placements page.pdSpecial (page.orderedEntries sorter)

section

variable (layout : page.Layout)

include layout

theorem Layout.placed (normal : page.IsNormal offset) :
    ∃ place, Placed sorter page (page.compactifyTuples sorter) offset place := by
  obtain ⟨place, mem⟩ := exists_placement sorter normal
  have descending := (page.orderedEntries_sorted sorter).descending layout
  rw [compactifyTuples_eq]
  refine ⟨place, ?_, finalUpper_le_of_mem mem, descending.placed le_rfl mem, mem⟩
  exact page.relocate_linp (placements_distinct sorter) mem

theorem Layout.kept_compactifyTuples (normal : page.IsNormal offset) :
    Kept page (page.compactifyTuples sorter) offset := by
  obtain ⟨_, placed⟩ := layout.placed sorter normal
  have sorted := page.orderedEntries_sorted sorter
  apply kept_of_place _ normal placed.linp
  · intro _ inside
    rw [compactifyTuples_eq]
    have clears := (sorted.descending layout).clears le_rfl fun _ => sorted.short
    exact page.relocate_bytes clears placed.member inside
  · rw [compactifyTuples_eq]
    exact page.relocate_pdLower _

theorem Layout.isNormal_compactifyTuples :
    (page.compactifyTuples sorter).IsNormal offset ↔ page.IsNormal offset := by
  constructor
  · intro normal
    by_contra notBefore
    obtain ⟨low, high, flag⟩ := normal
    rw [compactifyTuples_eq] at high flag
    apply notBefore
    have count : (page.relocate (placements page.pdSpecial
        (page.orderedEntries sorter))).maxOffsetNumber = page.maxOffsetNumber := by
      rw [maxOffsetNumber, maxOffsetNumber, relocate_pdLower]
    refine ⟨low, count ▸ high, ?_⟩
    have same : (page.relocate (placements page.pdSpecial
        (page.orderedEntries sorter))).linp offset = page.linp offset := by
      apply page.relocate_linp_other
      rintro move mem rfl
      have listed := mem_of_mem_placements mem
      exact notBefore ((page.orderedEntries_sorted sorter).own move.1 listed).1
    rw [← same]
    exact flag
  · exact fun normal => (layout.kept_compactifyTuples sorter normal).normal

theorem Layout.sound_compactifyTuples : Sound page (page.compactifyTuples sorter) := by
  have sorted := page.orderedEntries_sorted sorter
  have descending := sorted.descending layout
  have upper : (page.compactifyTuples sorter).pdUpper =
      finalUpper page.pdSpecial (page.orderedEntries sorter) := by
    rw [compactifyTuples_eq]
  have lower : (page.compactifyTuples sorter).pdLower = page.pdLower := by
    rw [compactifyTuples_eq]
    exact page.relocate_pdLower _
  have special : (page.compactifyTuples sorter).pdSpecial = page.pdSpecial := by
    rw [compactifyTuples_eq]
    exact page.relocate_pdSpecial _
  have old (offset : Nat) (normal : (page.compactifyTuples sorter).IsNormal offset) :
      page.IsNormal offset :=
    (layout.isNormal_compactifyTuples sorter).1 normal
  refine ⟨?_, special, ?_⟩
  · constructor
    case header =>
      rw [lower]
      exact layout.header
    case lower =>
      rw [lower, upper]
      apply layout.lower.trans
      apply descending.floor_le le_rfl layout.upper
      intro entry mem takes
      have occupied := sorted.occupied mem takes
      obtain ⟨normal, own⟩ := sorted.own entry mem
      rw [own]
      exact layout.above entry.offset normal occupied
    case upper =>
      rw [upper, special]
      exact finalUpper_le ..
    case above =>
      intro offset normal _
      obtain ⟨place, placed⟩ := layout.placed sorter (old offset normal)
      rw [placed.linp]
      exact placed.above
    case below =>
      intro offset normal
      obtain ⟨place, placed⟩ := layout.placed sorter (old offset normal)
      rw [placed.linp, special]
      exact placed.below
    case apart =>
      intro left right leftNormal rightNormal ne _ _
      obtain ⟨_, leftPlaced⟩ := layout.placed sorter (old left leftNormal)
      obtain ⟨_, rightPlaced⟩ := layout.placed sorter (old right rightNormal)
      have apart := descending.apart le_rfl leftPlaced.member rightPlaced.member fun same =>
          ne (congrArg (fun move => move.1.offset) same)
      simp only [entry, leftPlaced.linp, rightPlaced.linp]
      exact apart
  · intro _ _
    rw [compactifyTuples_eq]
    apply page.relocate_bytes_outside
    rintro move mem ⟨_, _⟩
    have placed := descending.placed le_rfl mem
    have aboveUpper := finalUpper_le_of_mem mem
    have short := sorted.short (mem_of_mem_placements mem)
    omega

end

end Compaction

end PageData

end Pgcpp.Storage
