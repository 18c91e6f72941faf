import Pgcpp.Lib.ByteMem
import Pgcpp.Transaction.HeapTuple

/-!
# Heap tuples as bytes

The on-page form of a heap tuple: a header of 23 bytes at fixed positions,
then the null bitmap and the attribute data.  `UserRow` is the part of a tuple
that its reader decodes; the transaction fields and hint bits are not in it.
-/

namespace Pgcpp.Access

open Lib Transaction

def kHeapTupleHeaderSize : Nat := 23

section

variable (block : List UInt8)

/-- The header at the start of a tuple. -/
def headerOf : HeapTupleHeaderData :=
  { tXmin := BitVec.ofNat 32 (field block 0 4), tXmax := BitVec.ofNat 32 (field block 4 4)
    tCid := BitVec.ofNat 32 (field block 8 4)
    tCtid :=
      { ipBlkid := BitVec.ofNat 32 (field block 12 4)
        ipPosid := BitVec.ofNat 16 (field block 16 2) }
    tInfomask2 := BitVec.ofNat 16 (field block 18 2)
    tInfomask := BitVec.ofNat 16 (field block 20 2)
    tHoff := BitVec.ofNat 8 (field block 22 1) }

/-- `HeapTupleHeaderSetXmin`. -/
def withXmin (xid : TransactionId) : List UInt8 :=
  patch block 0 (toBytes 4 xid.toNat)

/-- `HeapTupleHeaderSetXmax`. -/
def withXmax (xid : TransactionId) : List UInt8 :=
  patch block 4 (toBytes 4 xid.toNat)

/-- `HeapTupleHeaderSetCid`. -/
def withCid (cid : CommandId) : List UInt8 :=
  patch block 8 (toBytes 4 cid.toNat)

/-- `HeapTupleHeaderSetTid`. -/
def withTid (tid : ItemPointerData) : List UInt8 :=
  patch block 12 (toBytes 4 tid.ipBlkid.toNat ++ toBytes 2 tid.ipPosid.toNat)

/-- The tuple after an assignment to `t_infomask`. -/
def withInfomask (infomask : BitVec 16) : List UInt8 :=
  patch block 20 (toBytes 2 infomask.toNat)

/-- What a reader decodes from a tuple. -/
structure UserRow where
  tInfomask2 : BitVec 16
  hasNull : Bool
  tHoff : BitVec 8
  body : List UInt8
  deriving DecidableEq

def userRow : UserRow :=
  { tInfomask2 := (headerOf block).tInfomask2
    hasNull := hasFlag (headerOf block).tInfomask kHeapHasNull, tHoff := (headerOf block).tHoff
    body := block.drop kHeapTupleHeaderSize }

end

/-- A tuple with one data byte. -/
def smallTuple (xmin xmax : TransactionId) (infomask : BitVec 16) (datum : UInt8) : List UInt8 :=
  toBytes 4 xmin.toNat ++ toBytes 4 xmax.toNat ++ toBytes 4 0 ++
    toBytes 4 0 ++ toBytes 2 1 ++ toBytes 2 1 ++ toBytes 2 infomask.toNat ++ toBytes 1 23 ++ [datum]

section

variable {block : List UInt8}

variable (long : kHeapTupleHeaderSize ≤ block.length)

include long

theorem field_patch_apart (inside : pos + width ≤ 23)
    (apart : other + count ≤ pos ∨ pos + width ≤ other) :
    field (patch block pos (toBytes width value)) other count = field block other count := by
  unfold kHeapTupleHeaderSize at long
  apply field_patch_of_disjoint
  · rw [toBytes_length]
    omega
  · rwa [toBytes_length]

theorem field_patch_value (inside : pos + width ≤ 23) (small : 2 ^ bits ≤ 256 ^ width) :
    BitVec.ofNat bits (field (patch block pos (toBytes width value.toNat)) pos width) = value := by
  unfold kHeapTupleHeaderSize at long
  rw [field_patch_toBytes (by omega) (value.isLt.trans_le small), BitVec.ofNat_toNat,
    BitVec.setWidth_eq]

variable (xid : TransactionId)

theorem headerOf_withXmin :
    headerOf (withXmin block xid) = { headerOf block with tXmin := xid } := by
  unfold headerOf withXmin
  rw [field_patch_value long (by omega) (by decide)]
  simp (disch := omega) only [field_patch_apart long]

theorem headerOf_withXmax :
    headerOf (withXmax block xid) = { headerOf block with tXmax := xid } := by
  unfold headerOf withXmax
  rw [field_patch_value long (by omega) (by decide)]
  simp (disch := omega) only [field_patch_apart long]

theorem headerOf_withCid : headerOf (withCid block cid) = { headerOf block with tCid := cid } := by
  unfold headerOf withCid
  rw [field_patch_value long (by omega) (by decide)]
  simp (disch := omega) only [field_patch_apart long]

theorem headerOf_withInfomask :
    headerOf (withInfomask block infomask) = { headerOf block with tInfomask := infomask } := by
  unfold headerOf withInfomask
  rw [field_patch_value long (by omega) (by decide)]
  simp (disch := omega) only [field_patch_apart long]

theorem length_withXmin : (withXmin block xid).length = block.length := by
  unfold kHeapTupleHeaderSize at long
  simp [withXmin, patch]
  omega

/-- The XIDs, the command id and the link to a newer version are not part of
the row. -/
theorem userRow_patch (front : pos + piece.length ≤ 18) :
    userRow (patch block pos piece) = userRow block := by
  unfold kHeapTupleHeaderSize at long
  have kept : ∀ other count, 18 ≤ other → field (patch block pos piece) other count =
        field block other count :=
    fun _ _ _ => field_patch_of_disjoint (by omega) (by omega)
  unfold userRow headerOf kHeapTupleHeaderSize
  rw [kept 18 2 (by omega), kept 20 2 (by omega), kept 22 1 (by omega),
    drop_patch (by omega) (by omega)]

theorem userRow_withXmin : userRow (withXmin block xid) = userRow block := by
  apply userRow_patch long
  rw [toBytes_length]
  omega

theorem userRow_withInfomask  (sameNull : hasFlag infomask kHeapHasNull =
      hasFlag (headerOf block).tInfomask kHeapHasNull) :
    userRow (withInfomask block infomask) = userRow block := by
  unfold userRow
  rw [headerOf_withInfomask long, ← sameNull]
  unfold kHeapTupleHeaderSize at long ⊢
  rw [withInfomask, drop_patch (by rw [toBytes_length]; omega) (by rw [toBytes_length]; omega)]

end

end Pgcpp.Access
