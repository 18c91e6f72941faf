import Pgcpp.Transaction.Transam

/-!
# Snapshots

`SnapshotData` with its three region predicates, and the scan of the process
array that fills one in.  The scan reads the running XIDs and the next XID at
two different moments, so the two halves are separate functions.
-/

namespace Pgcpp.Transaction

/-- The fields of `SnapshotData` that visibility checks read. -/
structure SnapshotData where
  xmin : TransactionId
  xmax : TransactionId
  xip : List TransactionId
  snapshotXid : TransactionId
  curcid : CommandId
  deriving DecidableEq

namespace SnapshotData

section

variable (snapshot : SnapshotData) (xid : TransactionId)

/-- `xid` was in progress when the snapshot was taken. -/
def xidInSnapshot : Bool :=
  snapshot.xip.any (fun x => x == xid)

/-- `xid` is older than `xmin`. -/
def xidLtXmin : Bool :=
  transactionIdIsValid snapshot.xmin && transactionIdPrecedes xid snapshot.xmin

/-- `xid` did not exist at snapshot time. -/
def xidGeXmax : Bool :=
  transactionIdIsValid snapshot.xmax && transactionIdFollowsOrEquals xid snapshot.xmax

end

theorem xidInSnapshot_iff {snapshot : SnapshotData} :
    snapshot.xidInSnapshot xid ↔ xid ∈ snapshot.xip := by
  simp [xidInSnapshot]

end SnapshotData

/-- The loop over `xip_out` that finds the oldest running XID. -/
def oldestRunning : List TransactionId → TransactionId → TransactionId
  | [], oldest => oldest
  | xid :: rest, oldest =>
    if oldest == kInvalidTransactionId || transactionIdPrecedes xid oldest
    then oldestRunning rest xid else oldestRunning rest oldest

/-- First half of `GetRunningTransactionData`: under the process-array lock,
collect the valid XIDs published in `PGXACT` by the registered backends. -/
def collectRunningXids (pgxact : Nat → TransactionId) (pgprocnos : List Nat) : List TransactionId :=
  (pgprocnos.map pgxact).filter transactionIdIsValid

/-- `GetOldestXmin`: the oldest XID published by a registered backend, apart
from `ignore`; `kFrozenTransactionId` when there is none. -/
def getOldestXmin (pgxact : Nat → TransactionId) (pgprocnos : List Nat)
    (ignore : TransactionId) : TransactionId :=
  let counted := (collectRunningXids pgxact pgprocnos).filter fun xid =>
    !(ignore != kInvalidTransactionId && xid == ignore)
  let oldest := oldestRunning counted kInvalidTransactionId
  if oldest == kInvalidTransactionId then kFrozenTransactionId else oldest

/-- Second half of `GetRunningTransactionData` and the rest of
`GetSnapshotData`: read the next XID and fill in the snapshot. -/
def finishSnapshot (xip : List TransactionId) (nextXid : TransactionId)
    (currentXid : TransactionId) (curcid : CommandId) : SnapshotData :=
  let oldest := oldestRunning xip kInvalidTransactionId
  { xmin :=
      if oldest == kInvalidTransactionId then kFrozenTransactionId else oldest
    xmax := getNextTransactionId nextXid + 1, xip := xip, snapshotXid := currentXid
    curcid := curcid }

end Pgcpp.Transaction
