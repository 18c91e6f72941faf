import Pgcpp.Storage.PageRepair

/-!
# Deletion of items

The operations that delete items from a page, each with its own way to treat the
space: `PageIndexTupleDelete` closes the gap, `PageIndexMultiDelete` compacts
the page and `PageIndexTupleDeleteNoCompact` leaves the hole.  `std::sort` may
put items that start at the same place in any order, so the operations that sort
are given the sorting function.
-/

namespace Pgcpp.Storage

namespace PageData

/-- A function that does what `std::sort` promises for the comparison by
descending position. -/
structure DescendingSort where
  sort : List ItemEntry → List ItemEntry
  perm : ∀ entries, (sort entries).Perm entries
  sorted : ∀ entries, (sort entries).Pairwise fun left right => right.itemOff ≤ left.itemOff

/-- Insertion sort does. -/
def insertionOrder : DescendingSort where
  sort := List.insertionSort fun left right => right.itemOff ≤ left.itemOff
  perm := List.perm_insertionSort _
  sorted := List.pairwise_insertionSort _

section

variable (sorter : DescendingSort)

section

variable (page : PageData)

def compactifyTuples : PageData :=
  page.moveItems page.pdSpecial (sorter.sort (page.normalOffsets.map page.entry))

def repairFragmentation : PageData :=
  let nline := page.maxOffsetNumber
  if page.normalOffsets.length = 0 then
    { page with
      pdUpper := page.pdSpecial, pdLower := kPageHeaderSize, linp := fun offset =>
        if 1 ≤ offset ∧ offset ≤ nline then .cleared else page.linp offset
      pdFlags := page.pdFlags &&& ~~~kPageHasFreeLines }
  else
    let page := page.compactifyTuples sorter
    let (linp, newIdx) := packLinp page.linp 0 1 nline
    { page with
      linp := linp, pdLower := kPageHeaderSize + newIdx * kItemIdSize
      pdFlags := page.pdFlags &&& ~~~kPageHasFreeLines }

def clearItem (offset : Nat) : PageData :=
  { page with linp := Function.update page.linp offset .cleared }

/-- The number of line pointers without the unused ones at the end. -/
def dropUnused (linp : Nat → ItemIdData) : Nat → Nat
  | 0 => 0
  | nline + 1 => if (linp (nline + 1)).liFlags = .unused then dropUnused linp nline else nline + 1

def shrinkLower (nline : Nat) : PageData :=
  { page with
    pdLower := kPageHeaderSize + dropUnused page.linp nline * kItemIdSize }

/-- One pass of the loop that closes a gap: the item moves up. -/
def raiseItem (distance : Nat) (page : PageData) (entry : ItemEntry) : PageData :=
  let lpi := page.linp entry.offset
  { page with
    bytes := page.bytes.copy (lpi.liOff + distance) lpi.liOff lpi.liLen
    linp := Function.update page.linp entry.offset { lpi with liOff := lpi.liOff + distance } }

/-- The items below a gap move up into it. -/
def closeGap (deletedOff deletedAligned : Nat) : PageData :=
  let toMove := (page.normalOffsets.map page.entry).filter fun entry => entry.itemOff < deletedOff
  let page := (sorter.sort toMove).foldl (raiseItem deletedAligned) page
  { page with pdUpper := page.pdUpper + deletedAligned }

/-- `PageIndexTupleDelete`, with the message of its error. -/
def indexTupleDelete (offset : Nat) : Except String PageData :=
  let nline := page.maxOffsetNumber
  if offset < 1 ∨ nline < offset then .error "PageIndexTupleDelete: invalid offset"
  else if (page.linp offset).liFlags ≠ .normal then
    .error "PageIndexTupleDelete: line pointer is not normal"
  else
    let deletedOff := (page.linp offset).liOff
    let deletedAligned := maxAlignUp (page.linp offset).liLen
    let page := page.clearItem offset
    let page := if offset = nline then page.shrinkLower nline else page
    .ok (if deletedAligned = 0 then page else page.closeGap sorter deletedOff deletedAligned)

/-- The loop of `PageIndexMultiDelete` over the given offset numbers. -/
def clearItems (nline : Nat) (itemids : List Nat) : PageData :=
  itemids.foldl
    (fun page offset => if offset < 1 ∨ nline < offset then page else page.clearItem offset)
    page

def indexMultiDelete (itemids : List Nat) : PageData :=
  let nline := page.maxOffsetNumber
  let page := ((page.clearItems nline itemids).shrinkLower nline).compactifyTuples sorter
  { page with pdFlags := page.pdFlags ||| kPageHasFreeLines }

end

end

def indexTupleDeleteNoCompact (page : PageData) (offset : Nat) : PageData :=
  let nline := page.maxOffsetNumber
  if offset < 1 ∨ nline < offset then page
  else
    let page := page.clearItem offset
    if offset = nline then page.shrinkLower nline
    else { page with pdFlags := page.pdFlags ||| kPageHasFreeLines }

end PageData

/-- A call that changes the items of a page.  `PageAddItem` appends. -/
inductive PageCall where
  | addItem (item : List UInt8)
  | indexTupleDelete (offset : Nat)
  | indexMultiDelete (itemids : List Nat)
  | indexTupleDeleteNoCompact (offset : Nat)
  | repairFragmentation
  deriving DecidableEq

/-- The page after a call.  An error leaves the page as it is. -/
def PageCall.run (sorter : PageData.DescendingSort) (page : PageData) : PageCall → PageData
  | .addItem item => (page.addItem item kInvalidOffsetNumber).1
  | .indexTupleDelete offset =>
    match page.indexTupleDelete sorter offset with
    | .ok after => after
    | .error _ => page
  | .indexMultiDelete itemids => page.indexMultiDelete sorter itemids
  | .indexTupleDeleteNoCompact offset => page.indexTupleDeleteNoCompact offset
  | .repairFragmentation => page.repairFragmentation sorter

end Pgcpp.Storage
