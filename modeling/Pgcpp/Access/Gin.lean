import Pgcpp.Access.IndexPages

/-!
# The GIN access method

One page has an entry for every key, with the first block of the chain of pages
that hold the tuple identifiers of the key.
-/

namespace Pgcpp.Access

open Lib Storage Transaction IndexFile

def kGinEntry : BitVec 32 := 0x0200#32

def kGinPosting : BitVec 32 := 0x0400#32

def kGinEntryBlock : Nat := 1

structure GinMetaPageData where
  nblocks : Nat
  deriving DecidableEq

structure GinEntryData where
  key : BitVec 32
  posting : BitVec 32
  deriving DecidableEq

def GinEntryData.bytes (entry : GinEntryData) : List UInt8 :=
  toBytes 4 entry.key.toNat ++ toBytes 4 entry.posting.toNat

/-- The entry that an item of the entry page stands for. -/
def ginEntryOf (item : List UInt8) : GinEntryData :=
  { key := BitVec.ofNat 32 (field item 0 4), posting := BitVec.ofNat 32 (field item 4 4) }

def ginUpdateMeta (_ : GinMetaPageData) (nblocks : Nat) : GinMetaPageData := { nblocks := nblocks }

/-- The page that `gin_new_posting_page` writes. -/
def ginPostingPage : BTPage := btInitPage kGinPosting 0

abbrev GinIndex := IndexFile GinMetaPageData

def ginbuild : GinIndex :=
  { metaPage := { nblocks := 2 }, pages := fun _ => btInitPage kGinEntry 0, nblocks := 2 }

def ginFindEntry (page : PageData) (key : BitVec 32) : Nat :=
  ((List.range' 1 page.maxOffsetNumber).find? fun offset =>
    (page.linp offset).liFlags = .normal &&
      (ginEntryOf (page.item offset)).key = key).getD
    kInvalidOffsetNumber

def ginNewPostingPage (index : GinIndex) : Option GinIndex :=
  (index.extend ginPostingPage).map fun extended =>
    { extended with
      metaPage := ginUpdateMeta extended.metaPage extended.nblocks }

/-- An entry of the entry page is overwritten with a posting block. -/
def ginSetPosting (page : PageData) (offset posting : Nat) : PageData :=
  { page with
    bytes := page.bytes.store ((page.linp offset).liOff + 4) (toBytes 4 posting) }

/-- `gininsert` for a key without posting list. -/
def ginNewPosting (index : GinIndex) (entryOff : Nat) (key : BitVec 32)
    (tid : ItemPointerData) : Option (GinIndex × Bool) :=
  match ginNewPostingPage index with
  | none => none
  | some extended =>
    let postingBlock := index.nblocks
    let filled := extended.setPage postingBlock (addTo (extended.pages postingBlock) (tidBytes tid))
    let entryPage := filled.pages kGinEntryBlock
    if entryOff ≠ kInvalidOffsetNumber then
      some (filled.setPage kGinEntryBlock { entryPage with
          page := ginSetPosting entryPage.page entryOff postingBlock }, true)
    else
      let newEntry : GinEntryData := { key := key, posting := BitVec.ofNat 32 postingBlock }
      -- The new posting page stays in the file when the entry does not fit.
      if hasSpace entryPage newEntry.bytes then
        some (filled.setPage kGinEntryBlock (addTo entryPage newEntry.bytes), true)
      else some (filled, false)

def gininsert (fuel : Nat) (index : GinIndex) (kind : BTKeyKind)
    (key : List UInt8) (tid : ItemPointerData) : Option (GinIndex × Bool) :=
  if kind ≠ .int32 then some (index, false)
  else
    let entryPage := (index.pages kGinEntryBlock).page
    let entryOff := ginFindEntry entryPage (int32Key key)
    let postingBlock :=
      if entryOff ≠ kInvalidOffsetNumber then (ginEntryOf (entryPage.item entryOff)).posting.toNat
      else 0
    if postingBlock = 0 then ginNewPosting index entryOff (int32Key key) tid
    else
      (addToChain ginUpdateMeta ginPostingPage (tidBytes tid) fuel
        index postingBlock).map fun after => (after, true)

/-- A scan: its key, the offset of the entry it has reached, the block of the
pinned posting page and the offset there. -/
structure GinScanDesc where
  scanKey : BTScanKeyData
  entryOff : Nat
  postingBuf : Option Nat
  postingOff : Nat
  inited : Bool
  deriving DecidableEq

def ginbeginscan (scanKey : BTScanKeyData) : GinScanDesc :=
  { scanKey := scanKey, entryOff := 0, postingBuf := none, postingOff := 0, inited := false }

/-- The block of the posting list of an entry, if it has one. -/
def ginPosting (page : PageData) (offset : Nat) : Option Nat :=
  if (page.linp offset).liFlags = .normal then
    let posting := (ginEntryOf (page.item offset)).posting.toNat
    if posting = 0 then none else some posting
  else none

/-- The first posting page of an equality scan. -/
def ginStartPosting (index : GinIndex) (key : List UInt8) : Option Nat :=
  let entryPage := (index.pages kGinEntryBlock).page
  let off := ginFindEntry entryPage (int32Key key)
  if off = kInvalidOffsetNumber then none
  else
    let posting := (ginEntryOf (entryPage.item off)).posting.toNat
    if posting = 0 then none else some posting

/-- The entries from an offset on that have posting lists. -/
def ginPostings (page : PageData) (offset : Nat) : List (Nat × Nat) :=
  (List.range' offset (page.maxOffsetNumber + 1 - offset)).filterMap
    fun entryOff => (ginPosting page entryOff).map fun head => (entryOff, head)

/-- The loop over the posting lists: from the pinned page, or from the first
page of the next list.  At the end of the lists the entry offset is `lastOff`. -/
def ginScanPostings (fuel : Nat) (index : GinIndex) (scan : GinScanDesc)
    (later : List (Nat × Nat)) (lastOff : Nat) : Option (GinScanDesc × Option ItemPointerData) :=
  let start :=
    match scan.postingBuf, later with
    | some block, later => some ((scan.entryOff, block, scan.postingOff), later)
    | none, (entryOff, head) :: later => some ((entryOff, head, 1), later)
    | none, [] => none
  match start with
  | none => some ({ scan with entryOff := lastOff }, none)
  | some (position, later) =>
    match index.scanChains (fun _ _ => true) fuel position later with
    | none => none
    | some none => some ({ scan with entryOff := lastOff, postingBuf := none }, none)
    | some (some (item, entryOff, block, offset)) =>
      some ({ scan with
        entryOff := entryOff, postingBuf := some block
        postingOff := offset }, some (btItemTid item))

def gingettuple (fuel : Nat) (index : GinIndex) (scan : GinScanDesc) :
    Option (GinScanDesc × Option ItemPointerData) :=
  let scan :=
    if scan.inited then scan
    else
      { scan with
        entryOff := 1, postingOff := 1, inited := true, postingBuf := (equalKey scan.scanKey).bind
          (ginStartPosting index) }
  match equalKey scan.scanKey with
  | some _ => ginScanPostings fuel index scan [] scan.entryOff
  | none =>
    let entryPage := (index.pages kGinEntryBlock).page
    ginScanPostings fuel index scan
      (ginPostings entryPage (if scan.postingBuf.isSome then scan.entryOff + 1 else scan.entryOff))
      (entryPage.maxOffsetNumber + 1)

def gingetbitmap (fuel calls : Nat) (index : GinIndex)
    (scanKey : BTScanKeyData) : Option (List ItemPointerData) :=
  drain (gingettuple fuel index) calls (ginbeginscan scanKey)

end Pgcpp.Access
