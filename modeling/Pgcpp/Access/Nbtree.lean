import Pgcpp.Access.NbtPage

/-!
# The B-tree access method

`btinsert` and the scan functions over a flat store of pages.  The root starts
as a leaf; when it is full it becomes the left one of two leaves under a new
internal root.  Later splits add a separator to that root, which is never split
itself.
-/

namespace Pgcpp.Access

open Lib Storage Transaction Function

/-- The fields of the meta page that change. -/
structure BTMetaPageData where
  root : Nat
  fastroot : Nat
  deriving DecidableEq

/-- An index: its meta page (block 0), its other pages and their number. -/
structure BTIndex where
  metaPage : BTMetaPageData
  pages : Nat → BTPage
  nblocks : Nat

def BTIndex.setPage (index : BTIndex) (block : Nat) (page : BTPage) : BTIndex :=
  { index with pages := update index.pages block page }

def btbuild : BTIndex :=
  { metaPage := { root := 1, fastroot := 1 }, pages := update (fun _ => btInitPage 0 0) 1
      (btInitPage (kBtpLeaf ||| kBtpRoot) 0)
    nblocks := 2 }

/-- The index after an insertion, with what the source does not return: the
ignored results of `PageAddItem`, and whether the warning about a full internal
root was reported. -/
structure InsertReport where
  index : BTIndex
  ignored : List Nat
  rootFull : Bool

section

variable (kind : BTKeyKind)

/-- The entries of a full leaf together with the new item. -/
def btSplitEntries (key item : List UInt8) (page : PageData) : List (List UInt8) :=
  btInsertEntry kind key item (btReadAllItems page)

variable (index : BTIndex)

def btSplitRootLeaf (key item : List UInt8) (rootBlock : Nat) : InsertReport :=
  let entries := btSplitEntries kind key item (index.pages rootBlock).page
  let mid := entries.length / 2
  let newLeafBlock := index.nblocks
  let newRootBlock := index.nblocks + 1
  let leaf := btInitPage kBtpLeaf 0
  let (leftPage, leftResults) := btAddItems leaf.page (entries.take mid)
  let (rightPage, rightResults) := btAddItems leaf.page (entries.drop mid)
  let newRoot := btInitPage kBtpRoot 1
  let firstKey := btItemGetKey (entries.getD mid [])
  let (newRootPage, rootResults) := btAddItems newRoot.page
    [toBytes kBlockNumberSize rootBlock, btInternalEntry newLeafBlock firstKey]
  let left : BTPage :=
    { page := leftPage, special := { leaf.special with btpoNext := newLeafBlock } }
  let right : BTPage :=
    { page := rightPage, special := { leaf.special with btpoPrev := rootBlock } }
  { index :=
      { metaPage := { root := newRootBlock, fastroot := newRootBlock }
        pages := update (update (update index.pages rootBlock left) newLeafBlock right)
          newRootBlock { newRoot with page := newRootPage }, nblocks := index.nblocks + 2 }
    ignored := leftResults ++ rightResults ++ rootResults, rootFull := false }

def btSplitLeaf (key item : List UInt8) (rootBlock childBlock : Nat) : InsertReport :=
  let entries := btSplitEntries kind key item (index.pages childBlock).page
  let mid := entries.length / 2
  let oldNext := (index.pages childBlock).special.btpoNext
  let newLeafBlock := index.nblocks
  let leaf := btInitPage kBtpLeaf 0
  let (leftPage, leftResults) := btAddItems leaf.page (entries.take mid)
  let (rightPage, rightResults) := btAddItems leaf.page (entries.drop mid)
  let left : BTPage :=
    { page := leftPage, special := { leaf.special with btpoNext := newLeafBlock } }
  let right : BTPage :=
    { page := rightPage, special := { leaf.special with
        btpoPrev := childBlock, btpoNext := oldNext } }
  let firstKey := btItemGetKey (entries.getD mid [])
  let root := index.pages rootBlock
  let (rootPage, result) := btPageInsertItem root.page
    (btInternalEntry newLeafBlock firstKey)
    (btFindRootPos root.page kind firstKey)
  { index :=
      { metaPage := index.metaPage
        pages := update (update (update index.pages childBlock left) newLeafBlock right)
          rootBlock { root with page := rootPage }, nblocks := index.nblocks + 1 }
    ignored := leftResults ++ rightResults, rootFull := result = kInvalidOffsetNumber }

/-- The child of the internal root that `key` belongs to. -/
def btChild (kind : BTKeyKind) (key : List UInt8) : Nat :=
  let rootBlock := index.metaPage.root
  let root := (index.pages rootBlock).page
  btDescend root kind key rootBlock (List.range' 1 root.maxOffsetNumber)

def btinsert (key : List UInt8) (tid : ItemPointerData) : InsertReport :=
  let rootBlock := index.metaPage.root
  let item := btBuildItem kind key tid
  let leafBlock :=
    if btIsLeafPage (index.pages rootBlock) then rootBlock else btChild index kind key
  let leaf := index.pages leafBlock
  let (page, result) := btPageInsertItem leaf.page item (btFindPos leaf.page kind key)
  if result ≠ kInvalidOffsetNumber then
    { index := index.setPage leafBlock { leaf with page := page }, ignored := []
      rootFull := false }
  else if btIsLeafPage (index.pages rootBlock) then btSplitRootLeaf kind index key item rootBlock
  else btSplitLeaf kind index key item rootBlock leafBlock

def btInsertAll (entries : List IndexEntry) : BTIndex :=
  entries.foldl (fun index entry => (btinsert kind index entry.1 entry.2).index) btbuild

inductive BTStrategy where
  | all
  | equal
  | less
  | lessEqual
  | greater
  | greaterEqual
  deriving DecidableEq

/-- The search key; `key` is `none` for a null pointer. -/
structure BTScanKeyData where
  key : Option (List UInt8)
  strategy : BTStrategy
  deriving DecidableEq

/-- The scan position; `currBuf` is the block of the pinned buffer. -/
structure BTScanDesc where
  scanKey : BTScanKeyData
  currBuf : Option Nat
  currOffset : Nat
  inited : Bool
  deriving DecidableEq

def btbeginscan (scanKey : BTScanKeyData) : BTScanDesc :=
  { scanKey := scanKey, currBuf := none, currOffset := 0, inited := false }

/-- `_bt_search_leaf`: the leaf and the offset to start from. -/
def btSearchLeaf (kind : BTKeyKind) (key : List UInt8) : Nat × Nat :=
  let rootBlock := index.metaPage.root
  let leafBlock :=
    if btIsLeafPage (index.pages rootBlock) then rootBlock else btChild index kind key
  (leafBlock, btFindPos (index.pages leafBlock).page kind key)

/-- The leaf a scan without lower bound starts from. -/
def btLeftmostLeaf : Nat :=
  let rootBlock := index.metaPage.root
  let root := (index.pages rootBlock).page
  if btIsLeafPage (index.pages rootBlock) then rootBlock
  else if 1 ≤ root.maxOffsetNumber then btEntryChild (root.item 1) else rootBlock

def btEntryMatches (entryKey : List UInt8) (scanKey : BTScanKeyData) : Bool :=
  match scanKey.key with
  | none => true
  | some key =>
    let cmp := btCompareKeys kind entryKey key
    match scanKey.strategy with
    | .all => true
    | .equal => cmp == .eq
    | .less => cmp == .lt
    | .lessEqual => cmp.isLE
    | .greater => cmp == .gt
    | .greaterEqual => cmp.isGE

/-- The early termination of `btgettuple`, for strategies with an upper
bound. -/
def btPastUpperBound (entryKey : List UInt8) (scanKey : BTScanKeyData) : Bool :=
  match scanKey.key with
  | none => false
  | some key =>
    let cmp := btCompareKeys kind entryKey key
    match scanKey.strategy with
    | .equal => cmp == .gt
    | .lessEqual => cmp == .gt
    | .less => cmp.isGE
    | _ => false

end

/-- How the scan of one page ends. -/
inductive PageScan where
  | found (tid : ItemPointerData) (offset : Nat)
  | stopped
  | exhausted

/-- The inner loop of `btgettuple`, over the offsets that are left. -/
def btScanPage (page : PageData) (kind : BTKeyKind) (scanKey : BTScanKeyData) : List Nat → PageScan
  | [] => .exhausted
  | offset :: rest =>
    if (page.linp offset).liFlags ≠ .normal then btScanPage page kind scanKey rest
    else
      let item := page.item offset
      if btEntryMatches kind (btItemGetKey item) scanKey then .found (btItemTid item) (offset + 1)
      else if btPastUpperBound kind (btItemGetKey item) scanKey then .stopped
      else btScanPage page kind scanKey rest

/-- The outer loop of `btgettuple`, over at most `fuel` pages: the tuple found
and the position after it. -/
def btScanPages (index : BTIndex) (kind : BTKeyKind) (scanKey : BTScanKeyData) :
    Nat → Nat → Nat → Option (Option (ItemPointerData × Nat × Nat))
  | 0, _, _ => none
  | fuel + 1, block, offset =>
    let page := (index.pages block).page
    match btScanPage page kind scanKey (List.range' offset (page.maxOffsetNumber + 1 - offset)) with
    | .found tid next => some (some (tid, block, next))
    | .stopped => some none
    | .exhausted =>
      let next := (index.pages block).special.btpoNext
      if next = 0 then some none else btScanPages index kind scanKey fuel next 1

def btScanStart (index : BTIndex) (kind : BTKeyKind) (scanKey : BTScanKeyData) : Nat × Nat :=
  match scanKey.key, scanKey.strategy with
  | none, _ => (btLeftmostLeaf index, 1)
  | some _, .all => (btLeftmostLeaf index, 1)
  | some _, .less => (btLeftmostLeaf index, 1)
  | some _, .lessEqual => (btLeftmostLeaf index, 1)
  | some key, _ => btSearchLeaf index kind key

/-- `btgettuple`: the scan afterwards and the tuple found.  Without a result
the `fuel` was used up. -/
def btgettuple (kind : BTKeyKind) (index : BTIndex) (fuel : Nat)
    (scan : BTScanDesc) : Option (BTScanDesc × Option ItemPointerData) :=
  let scan :=
    if scan.inited then scan
    else
      let (block, offset) := btScanStart index kind scan.scanKey
      { scan with inited := true, currBuf := some block, currOffset := offset }
  match scan.currBuf with
  | none => some (scan, none)
  | some block =>
    match btScanPages index kind scan.scanKey fuel block scan.currOffset with
    | none => none
    | some none => some ({ scan with currBuf := none }, none)
    | some (some (tid, block, offset)) =>
      some ({ scan with currBuf := some block, currOffset := offset }, some tid)

/-- `btgetbitmap`: calls of `btgettuple` until it finds nothing, at most
`calls` of them. -/
def btgetbitmap (kind : BTKeyKind) (index : BTIndex) (fuel : Nat) :
    Nat → BTScanDesc → Option (List ItemPointerData)
  | 0, _ => none
  | calls + 1, scan =>
    match btgettuple kind index fuel scan with
    | none => none
    | some (_, none) => some []
    | some (scan, some tid) => (btgetbitmap kind index fuel calls scan).map (tid :: ·)

end Pgcpp.Access
