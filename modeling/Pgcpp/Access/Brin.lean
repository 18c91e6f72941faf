import Pgcpp.Access.Int32Keys
import Pgcpp.Lib.PageCache
import Pgcpp.Lib.Simulation

/-!
# The BRIN access method

One page for each range of heap blocks, with a summary of the keys as its first
item and the tuple identifiers behind it.  The page of range `i` is block
`i + 1`; when it is full, further pages are chained to it by `btpo_next`.
-/

namespace Pgcpp.Access

open Lib Storage Transaction IndexFile

def kBrinRangePage : BitVec 32 := 0x0200#32

def kBrinOverflow : BitVec 32 := 0x0400#32

def kBrinDefaultPagesPerRange : Nat := 16

structure BrinMetaPageData where
  pagesPerRange : Nat
  nblocks : Nat
  deriving DecidableEq

structure BrinSummaryData where
  firstBlock : BitVec 32
  min : BitVec 32
  max : BitVec 32
  count : BitVec 32
  hasData : Bool
  deriving DecidableEq

def kBrinSummarySize : Nat := 20

def BrinSummaryData.bytes (summary : BrinSummaryData) : List UInt8 :=
  wordBytes [summary.firstBlock, summary.min, summary.max, summary.count,
    if summary.hasData then 1#32 else 0#32]

/-- The summary that bytes stand for.  The flag is a single byte. -/
def brinSummaryOf (bytes : List UInt8) : BrinSummaryData :=
  { firstBlock := BitVec.ofNat 32 (field bytes 0 4), min := BitVec.ofNat 32 (field bytes 4 4)
    max := BitVec.ofNat 32 (field bytes 8 4), count := BitVec.ofNat 32 (field bytes 12 4)
    hasData := field bytes 16 1 ≠ 0 }

/-- An index: the data of its meta page, which is marked as dirty whenever it
changes, its other pages and the number of blocks of its file. -/
structure BrinIndex where
  metaPage : BrinMetaPageData
  cache : PageCache BTPage
  nblocks : Nat

namespace BrinIndex

variable (index : BrinIndex)

/-- The page is changed in its buffer. -/
def write (block : Nat) (page : BTPage) : BrinIndex :=
  { index with cache := index.cache.write block page }

def markBufferDirty (block : Nat) : BrinIndex := { index with cache := index.cache.markDirty block }

/-- `smgrextend` writes the block to disk, also when the file has it already. -/
def smgrextend (block : Nat) (page : BTPage) : BrinIndex :=
  { index with
    cache := index.cache.extend block page, nblocks := max index.nblocks (block + 1) }

/-- The pages as they are read. -/
def file : IndexFile BrinMetaPageData :=
  { metaPage := index.metaPage, pages := index.cache.read, nblocks := index.nblocks }

end BrinIndex

def brinbuild : BrinIndex :=
  { metaPage := { pagesPerRange := kBrinDefaultPagesPerRange, nblocks := 1 }
    cache := { disk := fun _ => btInitPage kBrinRangePage 0, buffers := fun _ => none }
    nblocks := 1 }

def brinCreateRangePage (index : BrinIndex) (block : Nat) : BrinIndex :=
  index.smgrextend block (btInitPage kBrinRangePage 0)

/-- `brin_ensure_range_page`: the index afterwards and the block. -/
def brinEnsureRangePage (index : BrinIndex) (rangeIndex : Nat) : BrinIndex × Nat :=
  let neededBlock := rangeIndex + 1
  if index.metaPage.nblocks > neededBlock then (index, neededBlock)
  else
    let extended :=
      (List.range' index.metaPage.nblocks (neededBlock + 1 - index.metaPage.nblocks)).foldl
          brinCreateRangePage index
    ({ extended with
        metaPage := { extended.metaPage with nblocks := neededBlock + 1 } }, neededBlock)

/-- `brin_get_summary`.  It reads as many bytes as a summary has, whatever the
length of the item. -/
def brinGetSummary (page : PageData) : BrinSummaryData :=
  if page.maxOffsetNumber < 1 ∨ (page.linp 1).liFlags ≠ .normal then
    { firstBlock := 0, min := 0, max := 0, count := 0, hasData := false }
  else brinSummaryOf (page.bytes.slice (page.linp 1).liOff kBrinSummarySize)

def brinOverwriteSummary (page : PageData) (summary : BrinSummaryData) : PageData :=
  if (page.linp 1).liFlags ≠ .normal then page
  else { page with bytes := page.bytes.store (page.linp 1).liOff summary.bytes }

def brinRangeMatches (summary : BrinSummaryData) (scanKey : BTScanKeyData) : Bool :=
  if scanKey.strategy = .all then true
  else
    match scanKey.key with
    | none => true
    | some key =>
      let scanVal := int32Key key
      match scanKey.strategy with
      | .equal =>
        scanVal.toInt ≥ summary.min.toInt && scanVal.toInt ≤ summary.max.toInt
      | .less => summary.min.toInt < scanVal.toInt
      | .lessEqual => summary.min.toInt ≤ scanVal.toInt
      | .greater => summary.max.toInt > scanVal.toInt
      | .greaterEqual => summary.max.toInt ≥ scanVal.toInt
      | .all => true

/-- The summary with one more key. -/
def BrinSummaryData.withKey (summary : BrinSummaryData) (key : BitVec 32) : BrinSummaryData :=
  { summary with
    min := if key.toInt < summary.min.toInt then key else summary.min
    max := if key.toInt > summary.max.toInt then key else summary.max, count := summary.count + 1 }

/-- The range page with one more key in its summary, which is created for the
first key. -/
def brinSummarize (page : BTPage) (firstBlock key : BitVec 32) : BTPage :=
  let summary := brinGetSummary page.page
  if summary.hasData then { page with page := brinOverwriteSummary page.page (summary.withKey key) }
  else
    let created : BrinSummaryData :=
      { firstBlock := firstBlock, min := key, max := key, count := 0, hasData := true }
    let added := addTo page created.bytes
    { added with
      page := brinOverwriteSummary added.page (created.withKey key) }

/-- The loop that adds a tuple identifier to the range page or to a page of its
overflow chain.  A page with a successor is released as it is; it is not marked
as dirty.  Without a result the `fuel` or the block numbers were used up. -/
def brinAddTid (item : List UInt8) : Nat → BrinIndex → Nat → Option BrinIndex
  | 0, _, _ => none
  | fuel + 1, index, block =>
    let page := index.cache.read block
    if hasSpace page item then some ((index.write block (addTo page item)).markBufferDirty block)
    else if page.special.btpoNext = 0 then
      let overflow := index.nblocks
      if overflow < kInvalidBlockNumber then
        let extended := index.smgrextend overflow (btInitPage kBrinOverflow 0)
        let linked := (extended.write block (linkTo page overflow)).markBufferDirty block
        brinAddTid item fuel linked overflow
      else none
    else brinAddTid item fuel index page.special.btpoNext

def brininsert (fuel : Nat) (index : BrinIndex) (kind : BTKeyKind)
    (key : List UInt8) (tid : ItemPointerData) : Option (BrinIndex × Bool) :=
  if kind ≠ .int32 then some (index, false)
  else
    let rangeIndex := tid.ipBlkid.toNat / index.metaPage.pagesPerRange
    let firstBlock := BitVec.ofNat 32 (rangeIndex * index.metaPage.pagesPerRange)
    let (ensured, rangeBlock) := brinEnsureRangePage index rangeIndex
    let page := brinSummarize (ensured.cache.read rangeBlock) firstBlock (int32Key key)
    (brinAddTid (tidBytes tid) fuel (ensured.write rangeBlock page)
      rangeBlock).map fun after => (after, true)

/-- A scan: its key, the range it is at, the page that is pinned and the next
offset there. -/
structure BrinScanDesc where
  scanKey : BTScanKeyData
  currBlock : Nat
  currbuf : Option Nat
  curroff : Nat
  inited : Bool
  deriving DecidableEq

def brinbeginscan (scanKey : BTScanKeyData) : BrinScanDesc :=
  { scanKey := scanKey, currBlock := 0, currbuf := none, curroff := 0, inited := false }

/-- The position in the current range.  A range whose summary does not match has
none. -/
def brinPosition (index : BrinIndex) (scan : BrinScanDesc) : Option (Nat × Nat) :=
  match scan.currbuf with
  | some block => some (block, scan.curroff)
  | none =>
    let summary := brinGetSummary (index.cache.read scan.currBlock).page
    if !summary.hasData || !brinRangeMatches summary scan.scanKey then none
    else some (scan.currBlock, 1)

/-- The scan leaves the current range. -/
def BrinScanDesc.skip (scan : BrinScanDesc) : BrinScanDesc :=
  { scan with currbuf := none, currBlock := scan.currBlock + 1 }

/-- The items other than the first one of a page. -/
def brinIsTid (offset : Nat) (_item : List UInt8) : Bool := offset ≠ 1

/-- The loop over the ranges, over at most `ranges` of them with at most `fuel`
pages each. -/
def brinScanRanges (index : BrinIndex) (fuel : Nat) :
    Nat → BrinScanDesc → Option (BrinScanDesc × Option ItemPointerData)
  | 0, _ => none
  | ranges + 1, scan =>
    if index.metaPage.nblocks ≤ scan.currBlock then some (scan, none)
    else
      match brinPosition index scan with
      | none => brinScanRanges index fuel ranges scan.skip
      | some (block, offset) =>
        match index.file.scanChain brinIsTid fuel block offset with
        | none => none
        | some none => brinScanRanges index fuel ranges scan.skip
        | some (some (item, block, offset)) =>
          some ({ scan with currbuf := some block, curroff := offset }, some (btItemTid item))

def bringettuple (fuel : Nat) (index : BrinIndex) (scan : BrinScanDesc) :
    Option (BrinScanDesc × Option ItemPointerData) :=
  let scan :=
    if scan.inited then scan
    else { scan with inited := true, currBlock := 1, currbuf := none, curroff := 0 }
  brinScanRanges index fuel fuel scan

/-- Calls of `bringettuple` until it finds nothing. -/
def brinDrain (fuel calls : Nat) (index : BrinIndex)
    (scanKey : BTScanKeyData) : Option (List ItemPointerData) :=
  drain (bringettuple fuel index) calls (brinbeginscan scanKey)

/-- What happens to an index: an insertion, the read of a block by a scan, and
the use of the buffer of a block for another page. -/
inductive BrinStep where
  | insert (insertion : IndexInsertion)
  | load (block : Nat)
  | evict (block : Nat)
  deriving DecidableEq

/-- A step, with what an insertion returns. -/
def brinStep (fuel : Nat) (index : BrinIndex) : BrinStep → Option (BrinIndex × Bool)
  | .insert insertion => brininsert fuel index insertion.kind insertion.key insertion.tid
  | .load block =>
    some (if block < index.nblocks then
      { index with cache := index.cache.load block } else index, true)
  | .evict block => some ({ index with cache := index.cache.evict block }, true)

def brinRun (fuel : Nat) (steps : List BrinStep) : Option (BrinIndex × List Bool) :=
  runCalls (brinStep fuel) brinbuild steps

end Pgcpp.Access
