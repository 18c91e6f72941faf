import Pgcpp.Access.HeapLayout
import Pgcpp.Storage.BufPage
import Pgcpp.Transaction.Xact

/-!
# Updates and scans of a heap

`heap_update` and `heap_getnext` over the pages of one relation, in the backend
that runs the command.  A scan notes the visible tuples of a page when it enters
the page; an update puts the new version on the last page if it fits there and
then advances the command counter, and with it the snapshot of the scan.
-/

namespace Pgcpp.Access

open Storage Transaction

def kHeapTuplesPerPage : Nat := 256

/-- A tuple identifier, with numbers of any size. -/
structure HeapTid where
  block : Nat
  offset : Nat
  deriving DecidableEq

def HeapTid.itemPointer (tid : HeapTid) : ItemPointerData :=
  { ipBlkid := BitVec.ofNat 32 tid.block, ipPosid := BitVec.ofNat 16 tid.offset }

/-- A tuple as `heap_form_tuple` leaves it. -/
structure FormedTuple where
  block : List UInt8
  long : kHeapTupleHeaderSize ≤ block.length
  plain : ∃ hasNull hasVarWidth, (headerOf block).tInfomask = formedInfomask hasNull hasVarWidth

/-- What an update writes for a row.  The TOAST table is not part of the state,
but every chunk that is stored or deleted there advances the command counter. -/
structure NewVersion where
  tuple : FormedTuple
  chunksStored : Nat
  chunksDeleted : Nat

/-- A backend, its active snapshot and the pages of the relation. -/
structure HeapSession where
  backend : XactBackend
  snapshot : SnapshotData
  pages : List PageData

structure ScannedTuple where
  tid : HeapTid
  row : UserRow
  deriving DecidableEq

/-- Writes over the tuple at `offset`. -/
def setItem (page : PageData) (offset : Nat) (block : List UInt8) : PageData :=
  { page with bytes := page.bytes.store (page.linp offset).liOff block }

/-- The tuple as `heap_insert_internal` puts it on a page. -/
def insertedBlock (block : List UInt8) (xid : TransactionId) (cid : CommandId) : List UInt8 :=
  withXmax (withCid (withXmin block xid) cid) kInvalidTransactionId

/-- The old version after an update. -/
def updatedBlock (block : List UInt8) (xid : TransactionId) (cid : CommandId)
    (newTid : HeapTid) : List UInt8 :=
  withTid (withCid (withXmax block xid) cid) newTid.itemPointer

/-- The pages before the block a new tuple goes to, and the page there: the
last block, unless it has no room. -/
def insertTarget (pages : List PageData) (size : Nat) : List PageData × PageData :=
  match pages.getLast? with
  | none => ([], pageInit kBlckSz 0)
  | some last =>
    if last.heapFreeSpace < size then (pages, pageInit kBlckSz 0) else (pages.dropLast, last)

variable (session : HeapSession)

namespace HeapSession

/-- `CommandCounterIncrement`; the active snapshot follows the counter. -/
def commandCounterIncrement : HeapSession :=
  match session.backend.stack with
  | [] => session
  | _ :: _ =>
    let backend := session.backend.commandCounterIncrement
    { session with
      backend := backend, snapshot := { session.snapshot with
        curcid := backend.getCurrentCommandId } }

def heapInsertInternal (block : List UInt8) : Except String (HeapSession × HeapTid) :=
  match session.backend.getCurrentTransactionId with
  | (_, .error text) => .error text
  | (backend, .ok xid) =>
    let block := insertedBlock block xid backend.getCurrentCommandId
    let (before, page) := insertTarget session.pages block.length
    match page.addItem block kInvalidOffsetNumber with
    | (page, offset) =>
      if offset = kInvalidOffsetNumber then
        .error ("heap_insert: failed to add item to page " ++ toString before.length)
      else
        .ok ({ session with backend := backend, pages := before ++ [page] },
          { block := before.length, offset := offset })

def heapUpdate (otid : HeapTid) (version : NewVersion) : Except String (HeapSession × HeapTid) :=
  let session := commandCounterIncrement^[version.chunksStored] session
  match session.heapInsertInternal version.tuple.block with
  | .error text => .error text
  | .ok (session, newTid) =>
    let session := commandCounterIncrement^[version.chunksDeleted] session
    match session.pages[otid.block]? with
    | none => .error "could not read block: unexpected end of file"
    | some page =>
      match session.backend.getCurrentTransactionId with
      | (_, .error text) => .error text
      | (backend, .ok xid) =>
        let page := setItem page otid.offset
          (updatedBlock (page.item otid.offset) xid backend.getCurrentCommandId newTid)
        .ok
          ({ session with
              backend := backend, pages := session.pages.set otid.block page
            }.commandCounterIncrement, newTid)

end HeapSession

/-- `vistuples` has the first `rs_ntuples` entries of `rs_vistuples`. -/
structure HeapScanDesc where
  nblocks : Nat
  cblock : Nat
  inited : Bool
  vistuples : List Nat
  vistupleIndex : Nat
  deriving DecidableEq

/-- The state of the loop over the line pointers of a page. -/
structure HeapPageScan where
  page : PageData
  cache : LogCache
  vistuples : List Nat

/-- The body of the loop.  The check may set hint bits in the tuple. -/
def scanItem (backend : XactBackend) (snapshot : SnapshotData)
    (scan : HeapPageScan) (offset : Nat) : HeapPageScan :=
  if (scan.page.linp offset).liFlags ≠ .normal then scan
  else
    let block := scan.page.item offset
    let result := heapTupleSatisfiesMVCC backend.log backend.visibilityStack
      snapshot scan.cache (headerOf block)
    { page := setItem scan.page offset (withInfomask block result.tup.tInfomask)
      cache := result.cache
      vistuples :=
        if result.visible && scan.vistuples.length < kHeapTuplesPerPage then
          scan.vistuples ++ [offset]
        else scan.vistuples }

namespace HeapSession

def heapBeginscan : HeapScanDesc :=
  { nblocks := session.pages.length, cblock := 0, inited := false, vistuples := []
    vistupleIndex := 0 }

/-- The loop of `heap_scan_page` over a page. -/
def scanPage (page : PageData) : HeapPageScan :=
  (List.range' 1 page.maxOffsetNumber).foldl
    (scanItem session.backend session.snapshot)
    { page := page, cache := session.backend.cache, vistuples := [] }

/-- The visible tuples of a block, and the session after the checks.  The block
exists. -/
def enterBlock (block : Nat) : List Nat × HeapSession :=
  match session.pages[block]? with
  | none => ([], session)
  | some page =>
    let scanned := session.scanPage page
    (scanned.vistuples, { session with
        backend := { session.backend with cache := scanned.cache }
        pages := session.pages.set block scanned.page })

def heapScanPage (scan : HeapScanDesc) (block : Nat) : HeapScanDesc × HeapSession :=
  let (vistuples, session) := session.enterBlock block
  ({ scan with
      cblock := block, inited := true, vistuples := vistuples, vistupleIndex := 0 }, session)

end HeapSession

/-- The block `heap_getnext` goes on with. -/
def HeapScanDesc.nextBlock (scan : HeapScanDesc) : Nat :=
  if scan.inited then scan.cblock + 1 else 0

namespace HeapSession

/-- The loop of `heap_getnext`, with the number of blocks from the next one on;
it ends at a block with visible tuples or behind the last block. -/
def advanceScan : Nat → HeapScanDesc → HeapSession → HeapScanDesc × HeapSession
  | 0, scan, session => (scan, session)
  | blocks + 1, scan, session =>
    if scan.vistupleIndex < scan.vistuples.length then (scan, session)
    else
      let (scan, session) := session.heapScanPage scan scan.nextBlock
      advanceScan blocks scan session

def tupleAt (tid : HeapTid) : Option ScannedTuple :=
  (session.pages[tid.block]?).map fun page => { tid := tid, row := userRow (page.item tid.offset) }

def heapGetnext (scan : HeapScanDesc) : Option ScannedTuple × HeapScanDesc × HeapSession :=
  let (scan, session) := advanceScan (scan.nblocks - scan.nextBlock) scan session
  match scan.vistuples[scan.vistupleIndex]? with
  | none => (none, scan, session)
  | some offset =>
    (session.tupleAt { block := scan.cblock, offset := offset },
      { scan with vistupleIndex := scan.vistupleIndex + 1 }, session)

end HeapSession

end Pgcpp.Access
