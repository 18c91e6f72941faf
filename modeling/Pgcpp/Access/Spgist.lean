import Pgcpp.Access.Int32Keys

/-!
# The SP-GiST access method

A binary trie of integer keys.  A full leaf becomes an internal page that tests
the highest bit in which its keys differ, with two new leaves.
-/

namespace Pgcpp.Access

open Lib Transaction IndexFile

def kSpgistLeaf : BitVec 32 := 0x0200#32

def kSpgistInternal : BitVec 32 := 0x0400#32

def kSpgistRoot : BitVec 32 := 0x0800#32

structure SpgistMetaPageData where
  root : Nat
  deriving DecidableEq

structure SpgistInternalEntry where
  bitValue : BitVec 32
  child : BitVec 32
  deriving DecidableEq

def SpgistInternalEntry.bytes (entry : SpgistInternalEntry) : List UInt8 :=
  toBytes 4 entry.bitValue.toNat ++ toBytes 4 entry.child.toNat

/-- The internal entry that an item stands for. -/
def spgistEntryOf (item : List UInt8) : SpgistInternalEntry :=
  { bitValue := BitVec.ofNat 32 (field item 0 4), child := BitVec.ofNat 32 (field item 4 4) }

abbrev SpgistIndex := IndexFile SpgistMetaPageData

def spgistbuild : SpgistIndex :=
  { metaPage := { root := 1 }, pages := fun _ => btInitPage (kSpgistLeaf ||| kSpgistRoot) 0
    nblocks := 2 }

def extractBit (key : BitVec 32) (pos : Nat) : BitVec 32 := (key >>> pos) &&& 1#32

def spgistLeafGetKey : List UInt8 → BitVec 32 := int32LeafGetKey

/-- The loop that finds the highest set bit below a position. -/
def highestSetBit (mask : BitVec 32) : Nat → Int
  | 0 => -1
  | pos + 1 => if mask &&& (1#32 <<< pos) = 0 then highestSetBit mask pos else pos

def highestDifferingBit : List (BitVec 32) → Int
  | [] => -1
  | first :: rest =>
    let mask := rest.foldl (fun mask key => mask ||| (first ^^^ key)) 0
    if mask = 0 then -1 else highestSetBit mask 32

def spgistIsLeaf (page : BTPage) : Bool := hasFlag page.special.btpoFlags kSpgistLeaf

/-- The child of an internal page that the key leads to. -/
def spgistChild (page : BTPage) (key : BitVec 32) : Option Nat :=
  ((List.range' 1 page.page.maxOffsetNumber).find? fun offset =>
    (page.page.linp offset).liFlags = .normal &&
      (spgistEntryOf (page.page.item offset)).bitValue =
        extractBit key page.special.btpoLevel).map fun offset =>
    (spgistEntryOf (page.page.item offset)).child.toNat

/-- The loop that writes the entries of a full leaf to two pages.  It ignores
what `PageAddItem` returns. -/
def spgistDistribute (splitBit : Nat) (entries : List (List UInt8)) : BTPage × BTPage :=
  entries.foldl
    (fun pages entry =>
      if extractBit (spgistLeafGetKey entry) splitBit = 0 then (addTo pages.1 entry, pages.2)
      else (pages.1, addTo pages.2 entry))
    (btInitPage kSpgistLeaf 0, btInitPage kSpgistLeaf 0)

/-- The page that a split leaf becomes.  `PageInit` clears the flags before the
root flag is read. -/
def spgistInternalPage (splitBit leftBlock rightBlock : Nat) : BTPage :=
  let left : SpgistInternalEntry := { bitValue := 0, child := BitVec.ofNat 32 leftBlock }
  let right : SpgistInternalEntry := { bitValue := 1, child := BitVec.ofNat 32 rightBlock }
  addTo
    (addTo (btInitPage kSpgistInternal splitBit) left.bytes)
    right.bytes

variable (index : SpgistIndex)

def spgistSplit (block splitBit : Nat) (entries : List (List UInt8)) : Option SpgistIndex :=
  let pages := spgistDistribute splitBit entries
  let leftBlock := index.nblocks
  let rightBlock := index.nblocks + 1
  match index.extend pages.1 with
  | none => none
  | some withLeft =>
    match withLeft.extend pages.2 with
    | none => none
    | some withBoth =>
      some (withBoth.setPage block (spgistInternalPage splitBit leftBlock rightBlock))

/-- `spgistinsert` at a leaf. -/
def spgistInsertLeaf (block : Nat) (item : List UInt8) : Option (SpgistIndex × Bool) :=
  let page := index.pages block
  if hasSpace page item then some (index.setPage block (addTo page item), true)
  else
    let entries := btReadAllItems page.page ++ [item]
    let splitBit := highestDifferingBit (entries.map spgistLeafGetKey)
    if splitBit < 0 then some (index, false)
    else (spgistSplit index block splitBit.toNat entries).map fun after => (after, true)

/-- `spgistinsert` at an internal page without a child for the key. -/
def spgistNewLeaf (block : Nat) (key : BitVec 32) (item : List UInt8) :
    Option (SpgistIndex × Bool) :=
  let page := index.pages block
  let entry : SpgistInternalEntry :=
    { bitValue := extractBit key page.special.btpoLevel, child := BitVec.ofNat 32 index.nblocks }
  (index.extend (addTo (btInitPage kSpgistLeaf 0) item)).map
    fun extended => (extended.setPage block (addTo page entry.bytes), true)

/-- The descent of `spgistinsert`, over at most `fuel` pages. -/
def spgistInsertFrom (index : SpgistIndex) (key : BitVec 32)
    (item : List UInt8) : Nat → Nat → Option (SpgistIndex × Bool)
  | 0, _ => none
  | fuel + 1, block =>
    let page := index.pages block
    if spgistIsLeaf page then spgistInsertLeaf index block item
    else
      match spgistChild page key with
      | none => spgistNewLeaf index block key item
      | some child => spgistInsertFrom index key item fuel child

def spgistinsert (fuel : Nat) (index : SpgistIndex) (kind : BTKeyKind)
    (key : List UInt8) (tid : ItemPointerData) : Option (SpgistIndex × Bool) :=
  if kind ≠ .int32 then some (index, false)
  else spgistInsertFrom index (int32Key key) (btBuildItem kind key tid) fuel index.metaPage.root

/-- A scan: its key, the block of the pinned leaf, the offset there, and the
block that a scan of all leaves has reached. -/
structure SpgistScanDesc where
  scanKey : BTScanKeyData
  currbuf : Option Nat
  curroff : Nat
  inited : Bool
  scanBlock : Nat
  deriving DecidableEq

def spgistbeginscan (scanKey : BTScanKeyData) : SpgistScanDesc :=
  { scanKey := scanKey, currbuf := none, curroff := 0, inited := false, scanBlock := 0 }

/-- The loop of `spgist_descend`, over at most `fuel` pages. -/
def spgistDescendFrom (index : SpgistIndex) (key : BitVec 32) : Nat → Nat → Option (Option Nat)
  | 0, _ => none
  | fuel + 1, block =>
    let page := index.pages block
    if spgistIsLeaf page then some (some block)
    else
      match spgistChild page key with
      | none => some none
      | some child => spgistDescendFrom index key fuel child

/-- `spgist_descend`: the leaf, or none where no child is found. -/
def spgistDescend (fuel : Nat) (index : SpgistIndex) (key : BitVec 32) : Option (Option Nat) :=
  spgistDescendFrom index key fuel index.metaPage.root

def spgistEntryMatches : BTScanKeyData → List UInt8 → Bool := int32ItemMatches

/-- The loop of an equality scan over its leaf. -/
def spgistScanLeaf (scan : SpgistScanDesc) : SpgistScanDesc × Option ItemPointerData :=
  match scan.currbuf with
  | none => (scan, none)
  | some block =>
    match scanPage (index.pages block).page
        (fun _ => spgistEntryMatches scan.scanKey) scan.curroff with
    | none => ({ scan with currbuf := none }, none)
    | some (item, offset) => ({ scan with curroff := offset }, some (btItemTid item))

/-- The loop over the blocks that are left: the item found and the position
behind it.  A pinned page is read from its offset on. -/
def spgistWalk (index : SpgistIndex) (scanKey : BTScanKeyData) :
    List Nat → Option Nat → Option (List UInt8 × Nat × Nat)
  | [], _ => none
  | block :: rest, pinned =>
    if pinned.isNone && !spgistIsLeaf (index.pages block) then spgistWalk index scanKey rest none
    else
      match scanPage (index.pages block).page
          (fun _ => spgistEntryMatches scanKey) (pinned.getD 1) with
      | none => spgistWalk index scanKey rest none
      | some (item, offset) => some (item, block, offset)

/-- The loop of the other scans. -/
def spgistScanBlocks (scan : SpgistScanDesc) : SpgistScanDesc × Option ItemPointerData :=
  match spgistWalk index scan.scanKey
      (List.range' scan.scanBlock (index.nblocks - scan.scanBlock))
      (scan.currbuf.map fun _ => scan.curroff) with
  | none =>
    ({ scan with
      currbuf := none, scanBlock := max scan.scanBlock index.nblocks }, none)
  | some (item, block, offset) =>
    ({ scan with
      currbuf := some block, curroff := offset, scanBlock := block }, some (btItemTid item))

def spgistgettuple (fuel : Nat) (index : SpgistIndex) (scan : SpgistScanDesc) :
    Option (SpgistScanDesc × Option ItemPointerData) :=
  match equalKey scan.scanKey with
  | some key =>
    if scan.inited then some (spgistScanLeaf index scan)
    else
      (spgistDescend fuel index (int32Key key)).map fun leaf =>
        spgistScanLeaf index { scan with inited := true, currbuf := leaf, curroff := 1 }
  | none =>
    if scan.inited then some (spgistScanBlocks index scan)
    else
      some (spgistScanBlocks index { scan with
          inited := true, currbuf := none, curroff := 0, scanBlock := 1 })

def spgistgetbitmap (fuel calls : Nat) (index : SpgistIndex)
    (scanKey : BTScanKeyData) : Option (List ItemPointerData) :=
  drain (spgistgettuple fuel index) calls (spgistbeginscan scanKey)

end Pgcpp.Access
