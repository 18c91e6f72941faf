import Pgcpp.Access.Heapam
import Pgcpp.Commands.Vacuum

/-!
# UPDATE

The executor drives a scan of the table and calls `heap_update` on every tuple
that the scan returns.  Each row should be updated once.

The new versions go to the last page of the table, and the snapshot of the scan
follows the command counter.  So the scan meets new versions on that page unless
none of them fits there.
-/

namespace Pgcpp.Executor

open Storage Transaction Access Commands

/-- The tuples that the scan returned, and where their new versions are. -/
structure UpdateRun where
  returned : List ScannedTuple
  created : List HeapTid
  session : HeapSession

/-- `ModifyTableState::ExecProcNode` for an UPDATE, called at most `fuel` times
until the scan ends. -/
def modifyTable (newVersion : ScannedTuple → NewVersion) :
    Nat → HeapScanDesc → HeapSession → Option (Except String UpdateRun)
  | 0, _, _ => none
  | fuel + 1, scan, session =>
    match session.heapGetnext scan with
    | (none, _, session) => some (.ok { returned := [], created := [], session := session })
    | (some tuple, scan, session) =>
      match session.heapUpdate tuple.tid (newVersion tuple) with
      | .error text => some (.error text)
      | .ok (session, newTid) =>
        match modifyTable newVersion fuel scan session with
        | some (.ok run) =>
          some (.ok { run with
            returned := tuple :: run.returned, created := newTid :: run.created })
        | failed => failed

/-- The offset numbers of the tuples on a page that the check accepts. -/
def visibleOffsets (backend : XactBackend) (snapshot : SnapshotData) (page : PageData) : List Nat :=
  page.normalOffsets.filter fun offset =>
    (heapTupleSatisfiesMVCC backend.log backend.visibilityStack snapshot
      backend.cache (headerOf (page.item offset))).visible

/-- The state an UPDATE starts in. -/
structure UpdateStart extends HeapSession where
  inTransaction : backend.stack ≠ []
  coherent : backend.cache.Coherent backend.log
  formed : PagesFormed pages
  bounded : ∀ page ∈ pages, page.pdSpecial ≤ kBlckSz

def nextCommandId (cid : CommandId) : CommandId :=
  if cid < kInvalidCommandId - 1 then cid + 1 else cid

namespace UpdateStart

variable (start : UpdateStart) (newVersion : ScannedTuple → NewVersion)

def nblocks : Nat := start.pages.length

def page (block : Nat) : PageData := start.pages.getD block (pageInit kBlckSz 0)

/-- The offset numbers of the tuples of a block that the snapshot sees. -/
def visibleOn (block : Nat) : List Nat :=
  visibleOffsets start.backend start.snapshot (start.page block)

def tupleOn (block offset : Nat) : ScannedTuple :=
  { tid := { block := block, offset := offset }, row := userRow ((start.page block).item offset) }

/-- The visible tuples of the blocks before `block`. -/
def visibleBefore (block : Nat) : List ScannedTuple :=
  (List.range block).flatMap fun earlier => (start.visibleOn earlier).map (start.tupleOn earlier)

def visibleTuples : List ScannedTuple := start.visibleBefore start.nblocks

/-- The whole UPDATE; no block returns more tuples than a scan notes. -/
def run : Option (Except String UpdateRun) :=
  modifyTable newVersion (kHeapTuplesPerPage * start.nblocks + 1)
    start.heapBeginscan start.toHeapSession

/-- The scan returns the tuples that were visible when it began, each of them
once, and no version that the command has created. -/
def UpdatesEachRowOnce : Prop :=
  ∃ run, start.run newVersion = some (.ok run) ∧ run.returned.Perm start.visibleTuples ∧
    ∀ tuple ∈ run.returned, tuple.tid ∉ run.created

/-- The increments of the command counter by the updates of some tuples. -/
def commandsOf (tuples : List ScannedTuple) : Nat :=
  (tuples.map fun tuple =>
    (newVersion tuple).chunksStored + (newVersion tuple).chunksDeleted + 1).sum

/-- The backend after updates, up to its command counter: the first update has
asked for an XID. -/
def backendAfter (tuples : List ScannedTuple) : XactBackend :=
  if tuples = [] then start.backend else start.backend.getCurrentTransactionId.1

/-- The snapshot after updates: it has followed the command counter. -/
def snapshotAfter (tuples : List ScannedTuple) : SnapshotData :=
  if tuples = [] then start.snapshot
  else { start.snapshot with
    curcid := nextCommandId^[commandsOf newVersion tuples] start.backend.getCurrentCommandId }

/-- The tuples of a block that the check accepts after the updates of all
visible tuples of the blocks before. -/
def seenOn (block : Nat) : List Nat :=
  visibleOffsets (start.backendAfter (start.visibleBefore block))
    (start.snapshotAfter newVersion (start.visibleBefore block))
    (start.page block)

/-- The condition for an UPDATE.  If there is a row to update, an XID can be
had; new versions fit on a page; the command counter makes no difference to the
tuples noted on a page, which are all that are visible; and the first new
version does not fit on the last page, if its row is not there, or the scan has
no room to note it. -/
structure UpdateSafe : Prop where
  assignable : start.visibleTuples ≠ [] → ∃ xid, start.backend.getCurrentTransactionId.2 = .ok xid
  fitting : ∀ tuple ∈ start.visibleTuples,
    (newVersion tuple).tuple.block.length ≤ (pageInit kBlckSz 0).heapFreeSpace
  steady : ∀ block < start.nblocks, (start.seenOn newVersion block).take kHeapTuplesPerPage =
      start.visibleOn block
  apart : ∀ tuple ∈ (start.visibleBefore (start.nblocks - 1)).head?,
    (start.page (start.nblocks - 1)).heapFreeSpace < (newVersion tuple).tuple.block.length ∨
      kHeapTuplesPerPage ≤ (start.visibleOn (start.nblocks - 1)).length

end UpdateStart

end Pgcpp.Executor
