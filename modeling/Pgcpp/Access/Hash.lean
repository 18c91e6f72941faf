import Pgcpp.Access.IndexPages

/-!
# The hash access method

A fixed number of buckets, each a chain of pages that starts at a fixed block.
An equality scan reads the chain of one bucket, and every other scan reads the
chains of all buckets.
-/

namespace Pgcpp.Access

open Lib Storage Transaction

def kHashBucket : BitVec 32 := 0x0200#32

def kHashOverflow : BitVec 32 := 0x0400#32

def kHashDefaultBuckets : Nat := 16

structure HashMetaPageData where
  nbuckets : Nat
  nblocks : Nat
  deriving DecidableEq

def hashUpdateMeta (metaPage : HashMetaPageData) (nblocks : Nat) : HashMetaPageData :=
  { metaPage with nblocks := nblocks }

/-- The page that `hash_create_page` writes; `btpo_prev` holds the number of the
bucket. -/
def hashPage (flags : BitVec 32) (bucketNum : Nat) : BTPage :=
  { page := pageInit kBlckSz kBTPageOpaqueSize
    special := { btpoPrev := bucketNum, btpoNext := 0, btpoFlags := flags, btpoLevel := 0 } }

def hashBucketToBlock (bucket : Nat) : Nat := bucket + 1

def hashcalc (kind : BTKeyKind) (key : List UInt8) (nbuckets : Nat) : Nat :=
  let h : BitVec 32 :=
    match kind with
    | .int32 => BitVec.ofNat 32 (field key 0 4)
    | .int64 =>
      let v := BitVec.ofNat 64 (field key 0 8)
      (v ^^^ v.sshiftRight 32).setWidth 32
    | .text => key.foldl (fun h byte => h * 31 + byte.toBitVec.setWidth 32) 0
  h.toNat % nbuckets

abbrev HashIndex := IndexFile HashMetaPageData

def hashbuild : HashIndex :=
  { metaPage := { nbuckets := kHashDefaultBuckets, nblocks := kHashDefaultBuckets + 1 }
    pages := fun block => hashPage kHashBucket (block - 1), nblocks := kHashDefaultBuckets + 1 }

/-- `hashinsert`.  It has a result when its loop ends and the file can grow. -/
def hashinsert (fuel : Nat) (kind : BTKeyKind) (index : HashIndex)
    (key : List UInt8) (tid : ItemPointerData) : Option HashIndex :=
  let bucket := hashcalc kind key index.metaPage.nbuckets
  IndexFile.addToChain hashUpdateMeta (hashPage kHashOverflow bucket)
    (btBuildItem kind key tid) fuel index (hashBucketToBlock bucket)

def hashInsertAll (fuel : Nat) (kind : BTKeyKind) (entries : List IndexEntry) : Option HashIndex :=
  entries.foldlM (fun index entry => hashinsert fuel kind index entry.1 entry.2) hashbuild

/-- A scan: its key, and the bucket, the block of the pinned buffer and the
offset it has reached. -/
structure HashScanDesc where
  scanKey : BTScanKeyData
  bucket : Nat
  currbuf : Option Nat
  curroff : Nat
  inited : Bool
  deriving DecidableEq

def hashbeginscan (scanKey : BTScanKeyData) : HashScanDesc :=
  { scanKey := scanKey, bucket := 0, currbuf := none, curroff := 0, inited := false }

def hashAccepts (kind : BTKeyKind) (scanKey : BTScanKeyData) (item : List UInt8) : Bool :=
  match equalKey scanKey with
  | none => true
  | some key => btCompareKeys kind (btItemGetKey item) key = .eq

/-- The bucket that a scan starts with. -/
def hashStartBucket (kind : BTKeyKind) (index : HashIndex) (scanKey : BTScanKeyData) : Nat :=
  match equalKey scanKey with
  | none => 0
  | some key => hashcalc kind key index.metaPage.nbuckets

/-- The buckets that follow, with their first blocks. -/
def hashLaterBuckets (index : HashIndex) (scanKey : BTScanKeyData)
    (bucket : Nat) : List (Nat × Nat) :=
  if scanKey.strategy = .equal then []
  else
    (List.range' (bucket + 1) (index.metaPage.nbuckets - (bucket + 1))).map
      fun later => (later, hashBucketToBlock later)

def hashgettuple (fuel : Nat) (kind : BTKeyKind) (index : HashIndex)
    (scan : HashScanDesc) : Option (HashScanDesc × Option ItemPointerData) :=
  let scan :=
    if scan.inited then scan
    else
      let bucket := hashStartBucket kind index scan.scanKey
      { scan with
        bucket := bucket, currbuf := some (hashBucketToBlock bucket), curroff := 1, inited := true }
  match scan.currbuf with
  | none => some (scan, none)
  | some block =>
    match index.scanChains (fun _ => hashAccepts kind scan.scanKey) fuel
        (scan.bucket, block, scan.curroff)
        (hashLaterBuckets index scan.scanKey scan.bucket) with
    | none => none
    | some none => some ({ scan with currbuf := none }, none)
    | some (some (item, bucket, block, offset)) =>
      some ({ scan with
        bucket := bucket, currbuf := some block, curroff := offset }, some (btItemTid item))

def hashgetbitmap (fuel calls : Nat) (kind : BTKeyKind) (index : HashIndex)
    (scanKey : BTScanKeyData) : Option (List ItemPointerData) :=
  drain (hashgettuple fuel kind index) calls (hashbeginscan scanKey)

end Pgcpp.Access
