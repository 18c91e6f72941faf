import Pgcpp.Access.Int32Keys
import Pgcpp.Lib.Simulation

/-!
# The GiST access method

Integer keys in one leaf, until it is full; then in two leaves below a root with
the bounds of each.  A key outside all bounds goes to the last leaf.
-/

namespace Pgcpp.Access

open Lib Storage Transaction IndexFile

def kGistLeaf : BitVec 32 := 0x0200#32

def kGistRoot : BitVec 32 := 0x0400#32

def kGistInternal : BitVec 32 := 0x0800#32

structure GistMetaPageData where
  root : Nat
  deriving DecidableEq

structure GistInternalEntry where
  child : BitVec 32
  minKey : BitVec 32
  maxKey : BitVec 32
  deriving DecidableEq

def GistInternalEntry.bytes (entry : GistInternalEntry) : List UInt8 :=
  wordBytes [entry.child, entry.minKey, entry.maxKey]

/-- The internal entry that an item stands for. -/
def gistEntryOf (item : List UInt8) : GistInternalEntry :=
  { child := BitVec.ofNat 32 (field item 0 4), minKey := BitVec.ofNat 32 (field item 4 4)
    maxKey := BitVec.ofNat 32 (field item 8 4) }

/-- The bounds of an entry contain a key. -/
def GistInternalEntry.contains (entry : GistInternalEntry) (key : BitVec 32) : Bool :=
  entry.minKey.toInt ≤ key.toInt && key.toInt ≤ entry.maxKey.toInt

abbrev GistIndex := IndexFile GistMetaPageData

def gistbuild : GistIndex :=
  { metaPage := { root := 1 }, pages := fun _ => btInitPage (kGistLeaf ||| kGistRoot) 0
    nblocks := 2 }

def gistLeafGetKey : List UInt8 → BitVec 32 := int32LeafGetKey

def gistIsLeaf (page : BTPage) : Bool := hasFlag page.special.btpoFlags kGistLeaf

/-- `std::sort` on items, by their keys.  It may order equal keys in any way. -/
structure GistSort where
  sort : List (List UInt8) → List (List UInt8)
  perm : ∀ items, (sort items).Perm items
  sorted : ∀ items, (sort items).Pairwise fun left right =>
    (gistLeafGetKey left).toInt ≤ (gistLeafGetKey right).toInt

/-- The loop over the entries of the root: the child of the first entry whose
bounds contain the key, and else the last child. -/
def gistChild (page : PageData) (key : BitVec 32) : List Nat → Nat → Nat
  | [], child => child
  | offset :: rest, child =>
    if (page.linp offset).liFlags ≠ .normal then gistChild page key rest child
    else
      let entry := gistEntryOf (page.item offset)
      if entry.contains key then entry.child.toNat else gistChild page key rest entry.child.toNat

/-- The child that the root has for a key. -/
def gistRootChild (index : GistIndex) (key : BitVec 32) : Nat :=
  let root := index.metaPage.root
  let page := (index.pages root).page
  gistChild page key (List.range' 1 page.maxOffsetNumber) root

/-- An entry of the new root, with the keys of the first and the last item of a
leaf. -/
def gistBounds (child : Nat) (items : List (List UInt8)) : GistInternalEntry :=
  { child := BitVec.ofNat 32 child, minKey := gistLeafGetKey (items.headD [])
    maxKey := gistLeafGetKey (items.getLastD []) }

/-- A full root is split.  What `PageAddItem` returns is ignored. -/
def gistSplit (sort : GistSort) (index : GistIndex) (item : List UInt8) : Option GistIndex :=
  let rootBlock := index.metaPage.root
  let entries := sort.sort (btReadAllItems (index.pages rootBlock).page ++ [item])
  let mid := entries.length / 2
  let newLeafBlock := index.nblocks
  let newRootBlock := index.nblocks + 1
  let newLeaf := (entries.drop mid).foldl addTo (btInitPage kGistLeaf 0)
  let oldLeaf := (entries.take mid).foldl addTo (btInitPage kGistLeaf 0)
  let newRoot := [(gistBounds rootBlock (entries.take mid)).bytes,
    (gistBounds newLeafBlock (entries.drop mid)).bytes].foldl addTo
      (btInitPage (kGistRoot ||| kGistInternal) 0)
  match index.extend
      { newLeaf with
        special := { newLeaf.special with btpoPrev := rootBlock } } with
  | none => none
  | some withLeaf =>
    ((withLeaf.setPage rootBlock (linkTo oldLeaf newLeafBlock)).extend newRoot).map
        fun withRoot => { withRoot with metaPage := { root := newRootBlock } }

def gistinsert (sort : GistSort) (index : GistIndex) (kind : BTKeyKind)
    (key : List UInt8) (tid : ItemPointerData) : Option (GistIndex × Bool) :=
  if kind ≠ .int32 then some (index, false)
  else
    let rootBlock := index.metaPage.root
    let item := btBuildItem kind key tid
    let block :=
      if gistIsLeaf (index.pages rootBlock) then rootBlock else gistRootChild index (int32Key key)
    let page := index.pages block
    if hasSpace page item then some (index.setPage block (addTo page item), true)
    else if gistIsLeaf (index.pages rootBlock) then
      (gistSplit sort index item).map fun after => (after, true)
    else some (index, false)

/-- A scan: its key, the block of the pinned leaf and the offset there. -/
structure GistScanDesc where
  scanKey : BTScanKeyData
  currbuf : Option Nat
  curroff : Nat
  inited : Bool
  deriving DecidableEq

def gistbeginscan (scanKey : BTScanKeyData) : GistScanDesc :=
  { scanKey := scanKey, currbuf := none, curroff := 0, inited := false }

def gistEntryMatches : BTScanKeyData → List UInt8 → Bool := int32ItemMatches

/-- The leaf that a scan starts with. -/
def gistStart (index : GistIndex) (scanKey : BTScanKeyData) : Nat :=
  let root := index.metaPage.root
  let page := index.pages root
  if gistIsLeaf page then root
  else
    match if scanKey.strategy = .all then none else scanKey.key with
    | some key => gistRootChild index (int32Key key)
    | none =>
      if (page.page.linp 1).liFlags = .normal then (gistEntryOf (page.page.item 1)).child.toNat
      else root

/-- `gistgettuple`: the scan afterwards and the tuple found.  The loop runs over
at most `fuel` leaves. -/
def gistgettuple (fuel : Nat) (index : GistIndex) (scan : GistScanDesc) :
    Option (GistScanDesc × Option ItemPointerData) :=
  let scan :=
    if scan.inited then scan
    else
      { scan with
        inited := true, currbuf := some (gistStart index scan.scanKey), curroff := 1 }
  match scan.currbuf with
  | none => some (scan, none)
  | some block =>
    match index.scanChain (fun _ => gistEntryMatches scan.scanKey) fuel block scan.curroff with
    | none => none
    | some none => some ({ scan with currbuf := none }, none)
    | some (some (item, block, offset)) =>
      some ({ scan with currbuf := some block, curroff := offset }, some (btItemTid item))

def gistgetbitmap (fuel calls : Nat) (index : GistIndex)
    (scanKey : BTScanKeyData) : Option (List ItemPointerData) :=
  drain (gistgettuple fuel index) calls (gistbeginscan scanKey)

def gistInsertion (sort : GistSort) (index : GistIndex)
    (insertion : IndexInsertion) : Option (GistIndex × Bool) :=
  gistinsert sort index insertion.kind insertion.key insertion.tid

def gistInsertAll (sort : GistSort) (insertions : List IndexInsertion) :
    Option (GistIndex × List Bool) :=
  runCalls (gistInsertion sort) gistbuild insertions

end Pgcpp.Access
