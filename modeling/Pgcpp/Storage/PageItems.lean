import Pgcpp.Storage.PageRuns

/-!
# Items at a given place

`PageIndexTupleOverwrite` leaves the new item where the old one started, and
closes the gap behind it by moving the items below: they move over the new item.
`PageAddItem` at a given offset lets the line pointers end there.
-/

namespace Pgcpp.Storage

open Lib Function ByteMem List

namespace PageData

def writeOver (page : PageData) (offset : Nat) (item : List UInt8) : PageData :=
  { page with
    bytes := page.bytes.store (page.linp offset).liOff item
    linp := update page.linp offset { page.linp offset with liLen := item.length } }

def indexTupleOverwrite (sorter : DescendingSort) (page : PageData) (offset : Nat)
    (item : List UInt8) : PageData × Bool :=
  let lp := page.linp offset
  if offset < 1 ∨ page.maxOffsetNumber < offset then (page, false)
  else if lp.liFlags ≠ .normal then (page, false)
  else if lp.liLen < item.length then (page, false)
  else
    let page := page.writeOver offset item
    if maxAlignUp item.length < maxAlignUp lp.liLen then
      (page.closeGap sorter lp.liOff (maxAlignUp lp.liLen - maxAlignUp item.length), true)
    else (page, true)

end PageData

open PageData

/-- A normal item and a new one that is no longer. -/
structure Overwrite where
  page : PageData
  offset : Nat
  item : List UInt8
  layout : page.Layout
  normal : page.IsNormal offset
  shorter : item.length ≤ (page.linp offset).liLen

namespace Overwrite

variable (call : Overwrite) (sorter : DescendingSort)

def start : Nat := (call.page.linp call.offset).liOff

def written : PageData := call.page.writeOver call.offset call.item

def shrinkage : Nat := maxAlignUp (call.page.linp call.offset).liLen - maxAlignUp call.item.length

def after : PageData :=
  if 0 < call.shrinkage then call.written.closeGap sorter call.start call.shrinkage
  else call.written

theorem indexTupleOverwrite_eq :
    call.page.indexTupleOverwrite sorter call.offset call.item = (call.after sorter, true) := by
  obtain ⟨low, high, flag⟩ := call.normal
  have shrinks : maxAlignUp call.item.length <
      maxAlignUp (call.page.linp call.offset).liLen ↔ 0 < call.shrinkage := by
    rw [shrinkage]
    omega
  simp only [indexTupleOverwrite, flag, not_lt.2 low, not_lt.2 high, not_lt.2 call.shorter, shrinks,
    after, or_self, ne_eq, not_true_eq_false, if_false]
  split <;> rfl

/-- An item that the new one is not written over. -/
structure Other (other : Nat) : Prop where
  normal : call.page.IsNormal other
  different : other ≠ call.offset

variable {call}

theorem aligned_le : maxAlignUp call.item.length ≤
    maxAlignUp (call.page.linp call.offset).liLen := by
  have shorter := call.shorter
  unfold maxAlignUp kItemIdSize
  omega

section

variable (isOther : call.Other other)

include isOther

theorem Other.apart (inside : index < (call.page.linp other).liLen) :
    call.item.length = 0 ∧ call.shrinkage = 0 ∨
    (call.page.linp other).liOff + maxAlignUp (call.page.linp other).liLen ≤ call.start ∨
      call.start + maxAlignUp (call.page.linp call.offset).liLen ≤
        (call.page.linp other).liOff := by
  have shorter := call.shorter
  by_cases takes : 0 < (call.page.linp call.offset).liLen
  · right
    exact call.layout.apart other call.offset isOther.normal call.normal isOther.different
      (Nat.zero_lt_of_lt inside) takes
  left
  have none : call.item.length = 0 := by omega
  have empty : (call.page.linp call.offset).liLen = 0 := by omega
  exact ⟨none, by rw [shrinkage, none, empty, Nat.sub_self]⟩

theorem Other.written_linp : call.written.linp other = call.page.linp other :=
  update_of_ne isOther.different ..

theorem Other.written_bytes (inside : index < (call.page.linp other).liLen) :
    call.written.bytes ((call.page.linp other).liOff + index) =
      call.page.bytes ((call.page.linp other).liOff + index) := by
  apply if_neg
  have apart := isOther.apart inside
  have aligned := le_maxAlignUp (call.page.linp other).liLen
  have shorter := (le_maxAlignUp call.item.length).trans call.aligned_le
  rw [start] at apart
  omega

end

theorem written_layout : call.written.Layout := by
  have normal (offset : Nat) : call.written.IsNormal offset ↔ call.page.IsNormal offset := by
    by_cases same : offset = call.offset
    all_goals simp [IsNormal, maxOffsetNumber, written, writeOver, same]
  have place (offset : Nat) : (call.written.linp offset).liOff = (call.page.linp offset).liOff := by
    by_cases same : offset = call.offset <;> simp [written, writeOver, same]
  have length (offset : Nat) : (call.written.linp offset).liLen ≤ (call.page.linp offset).liLen ∧
      maxAlignUp (call.written.linp offset).liLen ≤ maxAlignUp (call.page.linp offset).liLen := by
    by_cases same : offset = call.offset
    · simp [written, writeOver, same, call.shorter, aligned_le]
    · simp [written, writeOver, same]
  have layout := call.layout
  refine ⟨layout.header, layout.lower, layout.upper, ?_, ?_, ?_⟩
  · intro offset isNormal takes
    rw [place]
    exact layout.above offset ((normal offset).1 isNormal) (takes.trans_le (length offset).1)
  · intro offset isNormal
    rw [place]
    exact (Nat.add_le_add_left (length offset).2 _).trans
      (layout.below offset ((normal offset).1 isNormal))
  intro left right isLeft isRight ne leftTakes rightTakes
  have apart := layout.apart left right ((normal left).1 isLeft) ((normal right).1 isRight) ne
    (leftTakes.trans_le (length left).1)
    (rightTakes.trans_le (length right).1)
  have leftShorter := (length left).2
  have rightShorter := (length right).2
  simp only [ItemEntry.Apart, PageData.entry, place] at apart ⊢
  omega

theorem Other.written_normal (isOther : call.Other other) : call.written.IsNormal other := by
  refine ⟨isOther.normal.1, isOther.normal.2.1, ?_⟩
  rw [isOther.written_linp]
  exact isOther.normal.2.2

theorem Other.after_bytes_of_lt (isOther : call.Other other)
    (low : (call.page.linp other).liOff < call.start)
    (inside : index < (call.page.linp other).liLen) :
    (call.after sorter).bytes ((call.page.linp other).liOff + call.shrinkage + index) =
      call.page.bytes ((call.page.linp other).liOff + index) := by
  rw [← isOther.written_bytes inside, after]
  split
  next shrinks =>
    have mem : (call.written.entry other, (call.written.entry other).itemOff + call.shrinkage) ∈
          raises call.shrinkage (call.written.itemsBelow sorter call.start) := by
      apply mem_map_of_mem
      apply mem_itemsBelow sorter isOther.written_normal
      rwa [isOther.written_linp]
    have moved := @relocate_bytes call.written _ _ index
      (raises_clears sorter written_layout shrinks) mem
    simp only [PageData.entry, isOther.written_linp] at moved
    rw [closeGap_eq]
    exact moved inside
  next same => rw [Nat.eq_zero_of_not_pos same, add_zero]

theorem after_bytes_of_free (free : ∀ other index, call.Other other →
      (call.page.linp other).liOff < call.start → index < (call.page.linp other).liLen →
        address ≠ (call.page.linp other).liOff + call.shrinkage + index) :
    (call.after sorter).bytes address = call.written.bytes address := by
  rw [after]
  split
  · rw [closeGap_eq]
    apply call.written.relocate_bytes_outside
    rintro _ mem ⟨low, high⟩
    obtain ⟨entry, listed, rfl⟩ := mem_map.1 mem
    have sorted := call.written.itemsBelow_sorted sorter call.start
    obtain ⟨normal, own⟩ := sorted.own entry listed
    have under := itemOff_lt_of_mem sorter listed
    rw [own] at under low high
    have ne : entry.offset ≠ call.offset := by
      intro same
      simp [same, PageData.entry, written, writeOver, start] at under
    have linp : call.written.linp entry.offset = call.page.linp entry.offset := update_of_ne ne ..
    have isOther : call.Other entry.offset := ⟨⟨normal.1, normal.2.1, linp ▸ normal.2.2⟩, ne⟩
    simp only [PageData.entry, linp] at under low high
    exact free entry.offset (address -
      ((call.page.linp entry.offset).liOff + call.shrinkage)) isOther under (by omega) (by omega)
  · rfl

/-- No item that moves brings other bytes over the new item. -/
def Spared (call : Overwrite) : Prop :=
  ∀ other index, call.Other other → (call.page.linp other).liOff < call.start →
    index < (call.page.linp other).liLen →
    ∀ position < call.item.length,
      (call.page.linp other).liOff + call.shrinkage + index = call.start + position →
        call.page.bytes ((call.page.linp other).liOff + index) = call.item.getD position 0

theorem after_linp (normal : call.written.IsNormal other) :
    (call.after sorter).linp other = { call.written.linp other with
      liOff := call.written.raisedOff call.start call.shrinkage other } := by
  rw [after]
  split
  · exact closeGap_linp sorter normal
  next same => rw [Nat.eq_zero_of_not_pos same, raisedOff, add_zero, ite_self]

theorem after_lower : (call.after sorter).pdLower = call.page.pdLower := by
  rw [after]
  split
  · rw [closeGap_eq]
    exact call.written.relocate_pdLower _
  · rfl

theorem after_linp_self : (call.after sorter).linp call.offset =
    { call.page.linp call.offset with liLen := call.item.length } := by
  have own : call.written.linp call.offset =
      { call.page.linp call.offset with liLen := call.item.length } := update_self ..
  have normal : call.written.IsNormal call.offset :=
    ⟨call.normal.1, call.normal.2.1, own ▸ call.normal.2.2⟩
  rw [after_linp sorter normal, raisedOff, own]
  simp [start]

theorem Other.kept (isOther : call.Other other) : Kept call.page (call.after sorter) other := by
  have linp := isOther.written_linp
  apply kept_of_place (after_lower sorter) isOther.normal
    (linp ▸ after_linp sorter isOther.written_normal)
  intro _ inside
  rw [raisedOff, linp]
  split_ifs with low
  · exact isOther.after_bytes_of_lt sorter low inside
  rw [after_bytes_of_free]
  · exact isOther.written_bytes inside
  -- What moves ends below the end of the old item.
  intro moved _ isMoved under within
  have clear := isOther.apart inside
  have clearMoved := isMoved.apart within
  have aligned := le_maxAlignUp (call.page.linp other).liLen
  have alignedMoved := le_maxAlignUp (call.page.linp moved).liLen
  have amount : call.shrinkage ≤ maxAlignUp (call.page.linp call.offset).liLen := Nat.sub_le ..
  have ne : moved ≠ other := by
    rintro rfl
    exact low under
  have apart := call.layout.apart moved other isMoved.normal isOther.normal ne
    (Nat.zero_lt_of_lt within) (Nat.zero_lt_of_lt inside)
  simp only [ItemEntry.Apart, PageData.entry] at apart
  omega

theorem after_item_iff : (call.after sorter).item call.offset = call.item ↔ call.Spared := by
  have reads : (call.after sorter).item call.offset = call.item ↔
      ∀ pos < call.item.length, (call.after sorter).bytes (call.start + pos) =
        call.item.getD pos 0 := by
    rw [PageData.item, after_linp_self]
    exact slice_eq_iff
  rw [reads]
  constructor
  · intro own other index isOther low inside pos within arrives
    rw [← own pos within, ← arrives]
    exact (isOther.after_bytes_of_lt sorter low inside).symm
  intro spared pos within
  by_cases free : ∀ other index, call.Other other → (call.page.linp other).liOff < call.start →
    index < (call.page.linp other).liLen →
      call.start + pos ≠ (call.page.linp other).liOff + call.shrinkage + index
  · rw [after_bytes_of_free sorter free]
    simp [written, writeOver, start, store, within]
  push Not at free
  obtain ⟨other, index, isOther, low, inside, arrives⟩ := free
  rw [arrives, isOther.after_bytes_of_lt sorter low inside]
  exact spared other index isOther low inside pos within arrives.symm

/-- The call succeeds and keeps the other items; the new item reads back exactly
when no item was moved over it. -/
theorem indexTupleOverwrite_writes_iff (call : Overwrite) (sorter : DescendingSort) :
    (call.page.indexTupleOverwrite sorter call.offset call.item).2 ∧
      (call.page.indexTupleOverwrite sorter call.offset call.item).1.item call.offset = call.item ∧
      (∀ other, call.page.IsNormal other → other ≠ call.offset → Kept call.page
        (call.page.indexTupleOverwrite sorter call.offset call.item).1 other) ↔ call.Spared := by
  rw [call.indexTupleOverwrite_eq sorter]
  constructor
  · rintro ⟨-, own, -⟩
    exact (after_item_iff sorter).1 own
  intro spared
  refine ⟨rfl, (after_item_iff sorter).2 spared, ?_⟩
  intro other normal different
  exact Other.kept sorter ⟨normal, different⟩

/-- Two items of eight bytes, of which the first is to become one of four. -/
def shortened : Overwrite where
  page := (((pageInit 64 0).addItem (replicate 8 1) 0).1.addItem (replicate 8 2) 0).1
  offset := 1
  item := replicate 4 3
  layout :=
    (((pageInit_wellFormed (by decide)).layout.sound_addItem _).layout.sound_addItem _).layout
  normal := ⟨by decide, by decide, by decide⟩
  shorter := by decide

theorem shortened_reads_moved_item :
    (shortened.page.indexTupleOverwrite insertionOrder 1 shortened.item).1.item 1 =
        replicate 4 2 ∧ shortened.item = replicate 4 3 := by
  decide +kernel

end Overwrite

/-! ## Adding at a given offset -/

/-- An item for an unused line pointer or for the next one. -/
structure Placement where
  page : PageData
  item : List UInt8
  offset : Nat
  layout : page.Layout
  whole : page.pdLower = kPageHeaderSize + page.maxOffsetNumber * kItemIdSize
  positive : 1 ≤ offset
  vacant : offset ≤ page.maxOffsetNumber ∧ (page.linp offset).liFlags = .unused ∨
    offset = page.maxOffsetNumber + 1

namespace Placement

variable (call : Placement)

/-- The item fits between the line pointers and the other items. -/
def Fits : Prop :=
  call.page.pdLower + maxAlignUp call.item.length ≤ call.page.pdUpper ∧
    kPageHeaderSize + call.offset * kItemIdSize + maxAlignUp call.item.length ≤ call.page.pdUpper

structure Stored (after : PageData × Nat) : Prop where
  returned : after.2 = call.offset
  normal : after.1.IsNormal call.offset
  bytes : after.1.item call.offset = call.item

/-- The line pointer still exists and refers to the same bytes. -/
structure Remains (after : PageData) (other : Nat) : Prop where
  exists_ : other ≤ after.maxOffsetNumber
  linp : after.linp other = call.page.linp other
  bytes : call.page.IsNormal other → after.item other = call.page.item other

def placed : PageData :=
  { call.page with
    bytes := call.page.bytes.store (call.page.pdUpper - maxAlignUp call.item.length) call.item
    linp := update call.page.linp call.offset
      { liOff := call.page.pdUpper - maxAlignUp call.item.length, liFlags := .normal
        liLen := call.item.length }
    pdLower := kPageHeaderSize + call.offset * kItemIdSize
    pdUpper := call.page.pdUpper - maxAlignUp call.item.length }

variable {call}

theorem addItem_of_room (fits : call.Fits) :
    call.page.addItem call.item call.offset = (call.placed, call.offset) := by
  have pos := call.positive
  have given : call.offset ≠ kInvalidOffsetNumber := by
    rw [kInvalidOffsetNumber]
    omega
  have room := not_or.2 ⟨not_lt.2 fits.1, not_lt.2 fits.2⟩
  simp only [addItem, if_neg given, if_neg room]
  rfl

theorem placed_maxOffsetNumber : call.placed.maxOffsetNumber = call.offset := by
  simp [maxOffsetNumber, placed, kItemIdSize]

theorem placed_stored : call.Stored (call.placed, call.offset) := by
  refine ⟨rfl, ⟨call.positive, placed_maxOffsetNumber.ge, ?_⟩, ?_⟩
  · simp [placed]
  · simp [PageData.item, placed, slice_store_self]

theorem placed_remains (fits : call.Fits) (ne : other ≠ call.offset)
    (present : other ≤ call.offset) : call.Remains call.placed other := by
  have same : call.placed.linp other = call.page.linp other := update_of_ne ne ..
  refine ⟨placed_maxOffsetNumber ▸ present, same, ?_⟩
  intro normal
  rw [PageData.item, same]
  apply slice_congr
  intro _ inside
  have above := call.layout.above other normal (Nat.zero_lt_of_lt inside)
  have aligned := le_maxAlignUp call.item.length
  have room := fits.1
  exact if_neg (by omega)

theorem remains_iff (fits : call.Fits) :
    (∀ other, 1 ≤ other → other ≤ call.page.maxOffsetNumber → other ≠ call.offset →
      call.Remains call.placed other) ↔ call.page.maxOffsetNumber ≤ call.offset := by
  constructor
  · intro remains
    by_contra short
    have last := remains call.page.maxOffsetNumber (by omega) le_rfl (by omega)
    exact short (placed_maxOffsetNumber ▸ last.exists_)
  · intro last other _ present ne
    exact placed_remains fits ne (present.trans last)

theorem append_iff : (call.page.addItem call.item kInvalidOffsetNumber).2 ≠ kInvalidOffsetNumber ↔
      call.page.pdLower + kItemIdSize + maxAlignUp call.item.length ≤ call.page.pdUpper := by
  have next : kPageHeaderSize + (call.page.maxOffsetNumber + 1) * kItemIdSize =
      call.page.pdLower + kItemIdSize := by
    rw [call.whole, Nat.add_mul, one_mul, add_assoc]
  by_cases fits : call.page.Fits call.item
  · rw [addItem_of_fits fits]
    exact iff_of_true (Nat.succ_ne_zero _) (next ▸ fits.2)
  rw [addItem_of_not_fits fits]
  apply iff_of_false (by simp)
  intro room
  exact fits ⟨by omega, next.symm ▸ room⟩

/-- The other line pointers survive exactly when the item goes to one of the last
two, and the free space answers for an append exactly when there is room for its
line pointer or the item is not empty. -/
theorem addItem_frame_iff (call : Placement) :
    ((call.Fits → call.Stored (call.page.addItem call.item call.offset) ∧
        ∀ other, 1 ≤ other → other ≤ call.page.maxOffsetNumber → other ≠ call.offset →
          call.Remains (call.page.addItem call.item call.offset).1 other) ∧
      ((call.page.addItem call.item kInvalidOffsetNumber).2 ≠ kInvalidOffsetNumber ↔
        call.item.length ≤ call.page.heapFreeSpace)) ↔
      (call.Fits → call.page.maxOffsetNumber ≤ call.offset) ∧
        (call.page.pdLower + kItemIdSize ≤ call.page.pdUpper ∨ call.item ≠ []) := by
  apply and_congr
  · apply imp_congr_right
    intro fits
    rw [addItem_of_room fits, and_iff_right placed_stored]
    exact remains_iff fits
  · rw [append_iff, ← length_pos_iff]
    unfold heapFreeSpace maxAlignDown maxAlignUp kItemIdSize
    omega

/-- A page with two items, of which the first is deleted. -/
def reused : Placement where
  page := (((pageInit 64 0).addItem [1] 0).1.addItem [2] 0).1.indexTupleDeleteNoCompact 1
  item := [3]
  offset := 1
  layout := (Layout.deletes_indexTupleDeleteNoCompact
    (((pageInit_wellFormed (by decide)).layout.sound_addItem _).layout.sound_addItem
      _).layout 1).sound.layout
  whole := by decide
  positive := by decide
  vacant := by decide

theorem reused_loses_last : reused.Fits ∧ reused.page.IsNormal 2 ∧
    ¬reused.Remains (reused.page.addItem reused.item reused.offset).1 2 := by
  refine ⟨⟨by decide, by decide⟩, ⟨by decide, by decide, by decide⟩, ?_⟩
  intro remains
  exact absurd remains.exists_ (by decide)

end Placement

end Pgcpp.Storage
