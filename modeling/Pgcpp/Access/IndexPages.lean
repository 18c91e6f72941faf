import Pgcpp.Access.Nbtree
import Pgcpp.Lib.Cursor
import Pgcpp.Storage.BufInternals

/-!
# Chains of index pages

What the access methods other than the B-tree have in common: an index file
with a meta page, pages that are linked by `btpo_next`, the loop that adds an
item to the first page of a chain with room for it, and the loops of a scan.
-/

namespace Pgcpp.Access

open Lib Storage Transaction Function

/-- An index: the data of its meta page (block 0), its other pages and their
number.  Every page that the code changes it marks as dirty, so the pages are
those that a later `ReadBuffer` returns. -/
structure IndexFile (Meta : Type) where
  metaPage : Meta
  pages : Nat → BTPage
  nblocks : Nat

/-- The first four bytes of a key, which `memcpy` reads as an `int32_t`. -/
def int32Key (key : List UInt8) : BitVec 32 := BitVec.ofNat 32 (field key 0 4)

/-- The arguments of an insertion into an index. -/
structure IndexInsertion where
  kind : BTKeyKind
  key : List UInt8
  tid : ItemPointerData
  deriving DecidableEq

def equalKey (scanKey : BTScanKeyData) : Option (List UInt8) :=
  if scanKey.strategy = .equal then scanKey.key else none

namespace IndexFile

variable {Meta : Type} (file : IndexFile Meta)

def setPage (block : Nat) (page : BTPage) : IndexFile Meta :=
  { file with pages := update file.pages block page }

/-- `smgrextend` by one page.  It fails when there is no block number left. -/
def extend (page : BTPage) : Option (IndexFile Meta) :=
  if file.nblocks < kInvalidBlockNumber then
    some
      { file with
        pages := update file.pages file.nblocks page, nblocks := file.nblocks + 1 }
  else none

/-- The page after `PageAddItem` found room. -/
def addTo (page : BTPage) (item : List UInt8) : BTPage :=
  { page with page := (page.page.addItem item kInvalidOffsetNumber).1 }

/-- `PageAddItem` finds room. -/
def hasSpace (page : BTPage) (item : List UInt8) : Bool :=
  (page.page.addItem item kInvalidOffsetNumber).2 ≠ kInvalidOffsetNumber

/-- The page with a link to the next one. -/
def linkTo (page : BTPage) (block : Nat) : BTPage :=
  { page with special := { page.special with btpoNext := block } }

/-- The item goes to the first page of the chain with room for it; a new page is
added behind the last one when there is none.  The new page is counted on the
meta page.  Without a result the `fuel` or the block numbers were used up. -/
def addToChain (countBlocks : Meta → Nat → Meta) (newPage : BTPage)
    (item : List UInt8) : Nat → IndexFile Meta → Nat → Option (IndexFile Meta)
  | 0, _, _ => none
  | fuel + 1, file, block =>
    let page := file.pages block
    if hasSpace page item then some (file.setPage block (addTo page item))
    else if page.special.btpoNext = 0 then
      match file.extend newPage with
      | none => none
      | some extended =>
        let counted :=
          { extended with
            metaPage := countBlocks extended.metaPage extended.nblocks }
        addToChain countBlocks newPage item fuel
          (counted.setPage block (linkTo page file.nblocks)) file.nblocks
    else addToChain countBlocks newPage item fuel file page.special.btpoNext

/-- The loop over the offsets of a page that are left: the first normal item
that is accepted, and the offset behind it. -/
def scanOffsets (page : PageData) (accepts : Nat → List UInt8 → Bool) :
    List Nat → Option (List UInt8 × Nat)
  | [] => none
  | offset :: rest =>
    if (page.linp offset).liFlags ≠ .normal then scanOffsets page accepts rest
    else if accepts offset (page.item offset) then some (page.item offset, offset + 1)
    else scanOffsets page accepts rest

/-- The loop from an offset to the last one of the page. -/
def scanPage (page : PageData) (accepts : Nat → List UInt8 → Bool)
    (offset : Nat) : Option (List UInt8 × Nat) :=
  scanOffsets page accepts (List.range' offset (page.maxOffsetNumber + 1 - offset))

/-- The loop over the pages of a chain, over at most `fuel` pages: the item
found and the position behind it. -/
def scanChain (accepts : Nat → List UInt8 → Bool) :
    Nat → Nat → Nat → Option (Option (List UInt8 × Nat × Nat))
  | 0, _, _ => none
  | fuel + 1, block, offset =>
    match scanPage (file.pages block).page accepts offset with
    | some (item, next) => some (some (item, block, next))
    | none =>
      let next := (file.pages block).special.btpoNext
      if next = 0 then some none else scanChain accepts fuel next 1

/-- The loop over several chains: from a position in the first one, and on with
the first pages of the others.  The chains have numbers. -/
def scanChains (accepts : Nat → List UInt8 → Bool) (fuel : Nat) :
    Nat × Nat × Nat → List (Nat × Nat) → Option (Option (List UInt8 × Nat × Nat × Nat))
  | (number, block, offset), later =>
    match file.scanChain accepts fuel block offset with
    | none => none
    | some (some (item, block, offset)) => some (some (item, number, block, offset))
    | some none =>
      match later with
      | [] => some none
      | (number, head) :: later => scanChains accepts fuel (number, head, 1) later

end IndexFile

end Pgcpp.Access
