import Pgcpp.Storage.BufPage

/-!
# Well-formed pages and the packing of line pointers

On a well-formed page the items lie apart in the tuple area.  Packing the line
pointers keeps the items in order but changes their offset numbers.
-/

namespace Pgcpp.Storage

open Function
open List hiding after count tail

namespace PageData

/-- Line pointer `offset` exists and has storage. -/
def IsNormal (page : PageData) (offset : Nat) : Prop :=
  1 ≤ offset ∧ offset ≤ page.maxOffsetNumber ∧ (page.linp offset).liFlags = .normal

theorem mem_normalOffsets {page : PageData} :
    offset ∈ page.normalOffsets ↔ page.IsNormal offset := by
  simp only [normalOffsets, mem_filter, mem_range'_1, decide_eq_true_eq]
  constructor
  · rintro ⟨⟨lower, upper⟩, normal⟩
    exact ⟨lower, by omega, normal⟩
  · rintro ⟨lower, upper, normal⟩
    exact ⟨⟨lower, by omega⟩, normal⟩

theorem normalOffsets_nodup (page : PageData) : page.normalOffsets.Nodup :=
  List.Nodup.filter _ nodup_range'

/-- The layout every page operation keeps: the line pointers end where the
free space starts, and the items lie apart in the tuple area. -/
structure WellFormed (page : PageData) : Prop where
  header : kPageHeaderSize ≤ page.pdLower
  lower : page.pdLower ≤ page.pdUpper
  upper : page.pdUpper ≤ page.pdSpecial
  above : ∀ offset, page.IsNormal offset → page.pdUpper ≤ (page.linp offset).liOff
  below : ∀ offset, page.IsNormal offset →
    (page.linp offset).liOff + maxAlignUp (page.linp offset).liLen ≤ page.pdSpecial
  nonempty : ∀ offset, page.IsNormal offset → 0 < (page.linp offset).liLen
  apart : ∀ left right, page.IsNormal left → page.IsNormal right → left ≠ right →
    (page.linp left).liOff + maxAlignUp (page.linp left).liLen ≤ (page.linp right).liOff ∨
      (page.linp right).liOff + maxAlignUp (page.linp right).liLen ≤ (page.linp left).liOff

theorem pageInit_wellFormed (room : kPageHeaderSize + specialSize ≤ pageSize) :
    (pageInit pageSize specialSize).WellFormed := by
  have none : ∀ offset, ¬(pageInit pageSize specialSize).IsNormal offset := by
    intro offset normal
    have := normal.1
    have := normal.2.1
    simp only [maxOffsetNumber, pageInit, Nat.sub_self, Nat.zero_div] at this
    omega
  constructor
  case header => exact le_refl _
  case lower =>
    simp only [pageInit]
    omega
  case upper => exact le_refl _
  case above => exact fun offset normal => absurd normal (none offset)
  case below => exact fun offset normal => absurd normal (none offset)
  case nonempty => exact fun offset normal => absurd normal (none offset)
  case apart => exact fun left _ normal => absurd normal (none left)

theorem IsNormal.of_appended {page : PageData} {item : List UInt8}
    (normal : (page.appended item).IsNormal offset) :
    (page.IsNormal offset ∧ offset ≠ page.maxOffsetNumber + 1) ∨
      offset = page.maxOffsetNumber + 1 := by
  by_cases last : offset = page.maxOffsetNumber + 1
  · exact .inr last
  obtain ⟨pos, bound, flag⟩ := normal
  rw [appended_linp_other page item last] at flag
  rw [appended_maxOffsetNumber] at bound
  exact .inl ⟨⟨pos, by omega, flag⟩, last⟩

/-- Two entries occupy separate parts of the page. -/
def ItemEntry.Apart (left right : ItemEntry) : Prop :=
  left.itemOff + left.alignedLen ≤ right.itemOff ∨ right.itemOff + right.alignedLen ≤ left.itemOff

/-- The normal line pointers among the `remaining` ones from `offset` on. -/
def normalFrom (linp : Nat → ItemIdData) (offset remaining : Nat) : List Nat :=
  (List.range' offset remaining).filter fun index => (linp index).liFlags = .normal

variable {linp : Nat → ItemIdData}

theorem normalFrom_congr (same : ∀ index, offset ≤ index → linp' index = linp index) :
    normalFrom linp' offset remaining = normalFrom linp offset remaining := by
  apply filter_congr
  intro index mem
  rw [same index (mem_range'_1.1 mem).1]

theorem le_of_mem_normalFrom (mem : index ∈ normalFrom linp offset remaining) : offset ≤ index :=
  (mem_range'_1.1 (mem_of_mem_filter mem)).1

/-- What packing from `offset` on, behind the first `newIdx` line pointers,
comes to: the normal ones follow in order. -/
structure Packed (linp : Nat → ItemIdData) (newIdx offset remaining : Nat)
    (result : (Nat → ItemIdData) × Nat) : Prop where
  count : result.2 = newIdx + (normalFrom linp offset remaining).length
  front : ∀ index ≤ newIdx, result.1 index = linp index
  follow : ∀ position index, (normalFrom linp offset remaining)[position]? = some index →
    result.1 (newIdx + 1 + position) = linp index

theorem Packed.cons {linp' : Nat → ItemIdData} {newIdx remaining : Nat}
    {result : (Nat → ItemIdData) × Nat} (normal : (linp offset).liFlags = .normal)
    (front : ∀ index ≤ newIdx, linp' index = linp index) (here : linp' (newIdx + 1) = linp offset)
    (later : ∀ index, offset + 1 ≤ index → linp' index = linp index)
    (packed : Packed linp' (newIdx + 1) (offset + 1) remaining result) :
    Packed linp newIdx offset (remaining + 1) result := by
  have listed : normalFrom linp offset (remaining + 1) =
      offset :: normalFrom linp' (offset + 1) remaining := by
    rw [normalFrom_congr later]
    simp [normalFrom, range'_succ, normal]
  constructor
  case count =>
    rw [packed.count, listed, length_cons]
    omega
  case front =>
    intro index bound
    rw [packed.front index (by omega), front index bound]
  case follow =>
    intro position index found
    rw [listed] at found
    cases position with
    | zero =>
      obtain rfl : offset = index := by simpa using found
      rw [packed.front _ (by omega)]
      exact here
    | succ position =>
      have tail : (normalFrom linp' (offset + 1) remaining)[position]? =
          some index := by simpa using found
      have moved := packed.follow position index tail
      rw [later index (le_of_mem_normalFrom (mem_of_getElem? tail))] at moved
      have place : newIdx + 1 + (position + 1) = newIdx + 1 + 1 + position := by omega
      rw [place]
      exact moved

theorem packLinp_packed (linp : Nat → ItemIdData) (behind : newIdx < offset) (remaining : Nat) :
    Packed linp newIdx offset remaining (packLinp linp newIdx offset remaining) := by
  induction remaining generalizing linp newIdx offset with
  | zero =>
    constructor
    · rfl
    · intro index _
      rfl
    · simp [normalFrom]
  | succ remaining ih =>
    unfold packLinp
    split
    · next normal =>
        split
        · next moves =>
            apply Packed.cons normal _ _ _ (ih _ (by omega))
            · intro index bound
              rw [update_of_ne (by omega), update_of_ne (by omega)]
            · rw [update_of_ne moves, update_self]
            · intro index bound
              rw [update_of_ne (by omega), update_of_ne (by omega)]
        · next stays =>
            have same : newIdx + 1 = offset := not_ne_iff.1 stays
            exact Packed.cons normal (fun _ _ => rfl) (by rw [same])
              (fun _ _ => rfl) (ih linp (by omega))
    next skipped =>
      have tail := ih (update linp offset .cleared) (show newIdx < offset + 1 by omega)
      have later : ∀ index, offset + 1 ≤ index → update linp offset ItemIdData.cleared index =
            linp index :=
        fun index bound => update_of_ne (by omega) ..
      have listed : normalFrom linp offset (remaining + 1) =
          normalFrom (update linp offset .cleared) (offset + 1)
            remaining := by
        rw [normalFrom_congr later]
        simp [normalFrom, range'_succ, skipped]
      constructor
      case count => rw [tail.count, listed]
      case front =>
        intro index bound
        rw [tail.front index bound, update_of_ne (by omega)]
      case follow =>
        intro pos index found
        rw [listed] at found
        rw [tail.follow pos index found, later index (le_of_mem_normalFrom (mem_of_getElem? found))]

/-- After `PageRepairFragmentation` the page holds exactly the normal items,
in order, under the offset numbers from 1 on. -/
structure Repaired (page after : PageData) : Prop where
  count : after.maxOffsetNumber = page.normalOffsets.length
  normal : ∀ position < page.normalOffsets.length, (after.linp (position + 1)).liFlags = .normal
  items : ∀ position offset, page.normalOffsets[position]? = some offset →
    after.item (position + 1) = page.item offset

variable {after : PageData}

theorem Repaired.normalOffsets_eq (repaired : Repaired page after) :
    after.normalOffsets = List.range' 1 page.normalOffsets.length := by
  unfold normalOffsets
  rw [repaired.count]
  apply filter_eq_self.2
  intro offset listed
  have bounds := mem_range'_1.1 listed
  have used := repaired.normal (offset - 1) (by omega)
  rw [Nat.sub_add_cancel bounds.1] at used
  simp [used]

theorem Repaired.map_item (repaired : Repaired page after) :
    (List.range' 1 page.normalOffsets.length).map after.item =
      page.normalOffsets.map page.item := by
  apply ext_getElem
  · simp
  intro pos _ right
  simp only [length_map] at right
  have found := getElem?_eq_getElem right
  simp only [getElem_map, getElem_range', one_mul]
  rw [add_comm]
  exact repaired.items pos _ found

theorem maxOffsetNumber_of_lower (lower : after.pdLower = kPageHeaderSize + count * kItemIdSize) :
    after.maxOffsetNumber = count := by
  unfold maxOffsetNumber
  rw [lower]
  unfold kPageHeaderSize kItemIdSize
  omega

end PageData

end Pgcpp.Storage
