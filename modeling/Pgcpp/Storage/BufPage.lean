import Mathlib.Data.List.Sort
import Pgcpp.Lib.ByteMem

/-!
# Pages

A page is a header, an array of line pointers that grows upwards and a tuple
area that grows downwards from the special space.  Line pointers and tuple
bytes never share memory on a well-formed page, so the model keeps them apart:
`linp` is indexed by offset number, from 1 on, and `bytes` by address.
-/

namespace Pgcpp.Storage

open Lib Function

def kBlckSz : Nat := 8192

def kPageHeaderSize : Nat := 24

/-- `sizeof(ItemIdData)`, which is also `kItemAlign`. -/
def kItemIdSize : Nat := 4

def kInvalidOffsetNumber : Nat := 0

def kPageHasFreeLines : BitVec 16 := 0x0001#16

inductive ItemFlags where
  | unused
  | normal
  | redirect
  | dead
  deriving DecidableEq

structure ItemIdData where
  liOff : Nat
  liFlags : ItemFlags
  liLen : Nat
  deriving DecidableEq

def ItemIdData.cleared : ItemIdData := { liOff := 0, liFlags := .unused, liLen := 0 }

structure PageData where
  pdFlags : BitVec 16
  pdLower : Nat
  pdUpper : Nat
  pdSpecial : Nat
  linp : Nat → ItemIdData
  bytes : ByteMem

def maxAlignDown (size : Nat) : Nat := size / kItemIdSize * kItemIdSize

def maxAlignUp (size : Nat) : Nat := (size + (kItemIdSize - 1)) / kItemIdSize * kItemIdSize

theorem le_maxAlignUp (size : Nat) : size ≤ maxAlignUp size := by
  unfold maxAlignUp kItemIdSize
  omega

theorem maxAlignUp_lt (size : Nat) : maxAlignUp size < size + 4 := by
  unfold maxAlignUp kItemIdSize
  omega

def pageInit (pageSize specialSize : Nat) : PageData :=
  { pdFlags := 0, pdLower := kPageHeaderSize, pdUpper := pageSize - specialSize
    pdSpecial := pageSize - specialSize, linp := fun _ => .cleared, bytes := fun _ => 0 }

namespace PageData

variable (page : PageData)

def maxOffsetNumber : Nat := (page.pdLower - kPageHeaderSize) / kItemIdSize

/-- The bytes of the item that line pointer `offset` refers to. -/
def item (offset : Nat) : List UInt8 :=
  page.bytes.slice (page.linp offset).liOff (page.linp offset).liLen

section

variable (page : PageData) (item : List UInt8)

/-- `PageAddItem`: the page afterwards and the offset number used, which is
`kInvalidOffsetNumber` when the item does not fit.  This is the function for items
of less than `2 ^ 31` bytes, whose size is the same as an `int`. -/
def addItem (offsetNumber : Nat) : PageData × Nat :=
  let lineOff :=
    if offsetNumber = kInvalidOffsetNumber then page.maxOffsetNumber + 1 else offsetNumber
  let newLower := kPageHeaderSize + lineOff * kItemIdSize
  let alignedSize := maxAlignUp item.length
  if page.pdUpper < page.pdLower + alignedSize ∨ page.pdUpper < newLower + alignedSize then
    (page, kInvalidOffsetNumber)
  else
    let itemOffset := page.pdUpper - alignedSize
    ({ page with
        bytes := page.bytes.store itemOffset item, linp := update page.linp lineOff
          { liOff := itemOffset, liFlags := .normal, liLen := item.length }
        pdLower := newLower, pdUpper := itemOffset }, lineOff)

/-- An item can be appended. -/
def Fits : Prop :=
  page.pdLower + maxAlignUp item.length ≤ page.pdUpper ∧
    kPageHeaderSize + (page.maxOffsetNumber + 1) * kItemIdSize +
      maxAlignUp item.length ≤ page.pdUpper

def appended : PageData :=
  { page with
    bytes := page.bytes.store (page.pdUpper - maxAlignUp item.length) item
    linp := update page.linp (page.maxOffsetNumber + 1)
      { liOff := page.pdUpper - maxAlignUp item.length, liFlags := .normal, liLen := item.length }
    pdLower := kPageHeaderSize + (page.maxOffsetNumber + 1) * kItemIdSize
    pdUpper := page.pdUpper - maxAlignUp item.length }

theorem addItem_of_fits {page : PageData} {item : List UInt8} (fits : page.Fits item) :
    page.addItem item kInvalidOffsetNumber = (page.appended item, page.maxOffsetNumber + 1) := by
  have room : ¬(page.pdUpper < page.pdLower + maxAlignUp item.length ∨
      page.pdUpper < kPageHeaderSize + (page.maxOffsetNumber + 1) * kItemIdSize +
          maxAlignUp item.length) := by
    rintro (low | low)
    · exact absurd fits.1 (by omega)
    · exact absurd fits.2 (by omega)
  simp [addItem, appended, room]

theorem addItem_of_not_fits {page : PageData} {item : List UInt8} (full : ¬page.Fits item) :
    page.addItem item kInvalidOffsetNumber = (page, kInvalidOffsetNumber) := by
  have noRoom : page.pdUpper < page.pdLower + maxAlignUp item.length ∨
      page.pdUpper < kPageHeaderSize + (page.maxOffsetNumber + 1) * kItemIdSize +
          maxAlignUp item.length := by
    unfold Fits at full
    omega
  simp [addItem, noRoom]

theorem appended_maxOffsetNumber :
    (page.appended item).maxOffsetNumber = page.maxOffsetNumber + 1 := by
  change (kPageHeaderSize + (page.maxOffsetNumber + 1) * kItemIdSize -
    kPageHeaderSize) / kItemIdSize = _
  rw [Nat.add_sub_cancel_left]
  exact Nat.mul_div_cancel _ (by decide)

theorem appended_linp_last : (page.appended item).linp (page.maxOffsetNumber + 1) =
      { liOff := page.pdUpper - maxAlignUp item.length, liFlags := .normal
        liLen := item.length } := by
  simp [appended]

theorem appended_linp_other (other : offset ≠ page.maxOffsetNumber + 1) :
    (page.appended item).linp offset = page.linp offset := by
  simp [appended, other]

end

/-- `PageGetHeapFreeSpace`. -/
def heapFreeSpace : Nat :=
  maxAlignDown (page.pdUpper - page.pdLower - kItemIdSize)

/-- `ItemEntry` of `compactify_tuples`. -/
structure ItemEntry where
  offset : Nat
  itemOff : Nat
  alignedLen : Nat
  rawLen : Nat
  deriving DecidableEq

/-- The offset numbers of the normal line pointers, in order. -/
def normalOffsets : List Nat :=
  (List.range' 1 page.maxOffsetNumber).filter fun offset => (page.linp offset).liFlags = .normal

def entry (offset : Nat) : ItemEntry :=
  { offset := offset, itemOff := (page.linp offset).liOff
    alignedLen := maxAlignUp (page.linp offset).liLen, rawLen := (page.linp offset).liLen }

/-- One pass of the loop of `compactify_tuples`: move the item down from
`newUpper` and point its line pointer there. -/
def moveItem (newUpper : Nat) (entry : ItemEntry) : PageData :=
  { page with
    bytes := page.bytes.copy newUpper entry.itemOff entry.rawLen
    linp := update page.linp entry.offset { page.linp entry.offset with liOff := newUpper } }

/-- The loop, over entries sorted by descending position. -/
def moveItems (page : PageData) (newUpper : Nat) : List ItemEntry → PageData
  | [] => { page with pdUpper := newUpper }
  | entry :: rest =>
    let newUpper := newUpper - entry.alignedLen
    moveItems (page.moveItem newUpper entry) newUpper rest

/-- The loop of `PageRepairFragmentation` that packs the line pointers, from
`offset` on with `remaining` of them left; the result also counts them. -/
def packLinp (linp : Nat → ItemIdData) (newIdx offset : Nat) : Nat → (Nat → ItemIdData) × Nat
  | 0 => (linp, newIdx)
  | remaining + 1 =>
    if (linp offset).liFlags = .normal then
      if newIdx + 1 ≠ offset then
        packLinp (update (update linp (newIdx + 1) (linp offset))
          offset .cleared) (newIdx + 1) (offset + 1) remaining
      else packLinp linp (newIdx + 1) (offset + 1) remaining
    else packLinp (update linp offset .cleared) newIdx (offset + 1) remaining

end PageData

end Pgcpp.Storage
