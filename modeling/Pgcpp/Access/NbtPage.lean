import Pgcpp.Storage.BufPage
import Pgcpp.Transaction.HeapTuple

/-!
# B-tree pages

Keys, index entries and the operations on one page of a B-tree.  A key is the
bytes the code reads; a leaf item is a tuple identifier of six bytes followed
by the key, and an entry of the internal root is a block number of four bytes
followed by a separator key.
-/

namespace Pgcpp.Access

open Lib Storage Transaction List Std.LawfulEqCmp

def kBtpLeaf : BitVec 32 := 0x01#32

def kBtpRoot : BitVec 32 := 0x02#32

def kBTPageOpaqueSize : Nat := 16

def kBTItemSize : Nat := 6

def kBlockNumberSize : Nat := 4

inductive BTKeyKind where
  | int32
  | int64
  | text
  deriving DecidableEq

/-- A key and a tuple identifier. -/
abbrev IndexEntry := List UInt8 × ItemPointerData

structure BTPageOpaqueData where
  btpoPrev : Nat
  btpoNext : Nat
  btpoFlags : BitVec 32
  btpoLevel : Nat
  deriving DecidableEq

structure BTPage where
  page : PageData
  special : BTPageOpaqueData

def btInitPage (flags : BitVec 32) (level : Nat) : BTPage :=
  { page := pageInit kBlckSz kBTPageOpaqueSize
    special := { btpoPrev := 0, btpoNext := 0, btpoFlags := flags, btpoLevel := level } }

def btIsLeafPage (page : BTPage) : Bool := hasFlag page.special.btpoFlags kBtpLeaf

/-- The sign of `memcmp` on the first `count` bytes. -/
def memcmp : Nat → List UInt8 → List UInt8 → Ordering
  | 0, _, _ => .eq
  | count + 1, left :: lefts, right :: rights =>
    (compare left right).then (memcmp count lefts rights)
  | _ + 1, _, _ => .eq

def btCompareText (left right : List UInt8) : Ordering :=
  (memcmp (min left.length right.length) left right).then (compare left.length right.length)

/-- The signed number in the first `width / 8` bytes. -/
def signedKey (width : Nat) (key : List UInt8) : Int :=
  (BitVec.ofNat width (field key 0 (width / 8))).toInt

/-- `_bt_compare_keys`, up to the sign of its result. -/
def btCompareKeys : BTKeyKind → List UInt8 → List UInt8 → Ordering
  | .int32, left, right => compare (signedKey 32 left) (signedKey 32 right)
  | .int64, left, right => compare (signedKey 64 left) (signedKey 64 right)
  | .text, left, right => btCompareText left right

/-- The bytes of the tuple identifier in an index entry. -/
def tidBytes (tid : ItemPointerData) : List UInt8 :=
  toBytes 4 tid.ipBlkid.toNat ++ toBytes 2 tid.ipPosid.toNat

def storedKey : BTKeyKind → List UInt8 → List UInt8
  | .int32, key => key.take 4
  | .int64, key => key.take 8
  | .text, key => key

def btBuildItem (kind : BTKeyKind) (key : List UInt8) (tid : ItemPointerData) : List UInt8 :=
  tidBytes tid ++ storedKey kind key

/-- `bt_item->tid`. -/
def btItemTid (item : List UInt8) : ItemPointerData :=
  { ipBlkid := BitVec.ofNat 32 (field item 0 4), ipPosid := BitVec.ofNat 16 (field item 4 2) }

def btItemGetKey (item : List UInt8) : List UInt8 := item.drop kBTItemSize

theorem btCompareText_eq (left right : List UInt8) :
    btCompareText left right = List.compareLex compare left right := by
  unfold btCompareText
  induction left generalizing right with
  | nil =>
    cases right with
    | nil => rfl
    | cons byte rest => simp [memcmp, List.compareLex, Nat.compare_eq_lt]
  | cons byte rest ih =>
    cases right with
    | nil => simp [memcmp, List.compareLex, Nat.compare_eq_gt]
    | cons other others =>
      have later := ih others
      rw [length_cons, length_cons, Nat.add_min_add_right, memcmp, List.compareLex]
      cases order : compare byte other with
      | eq =>
        have shorter : compare (rest.length + 1) (others.length + 1) =
            compare rest.length others.length := by
          simp [compare, compareOfLessAndEq]
        rw [shorter]
        exact later
      | _ => rfl

/-- The comparison of keys is a total preorder, whatever their kind. -/
instance (kind : BTKeyKind) : Std.TransCmp (btCompareKeys kind) := by
  cases kind with
  | int32 => exact inferInstanceAs (Std.TransCmp (compareOn (signedKey 32)))
  | int64 => exact inferInstanceAs (Std.TransCmp (compareOn (signedKey 64)))
  | text =>
    have lexicographic : btCompareKeys .text = List.compareLex compare := by
      funext left right
      exact btCompareText_eq left right
    rw [lexicographic]
    infer_instance

/-- The keys of an index: the bytes of a number, or a text that leaves the item
within its buffer of 256 bytes. -/
def KeyValid : BTKeyKind → List UInt8 → Prop
  | .int32, key => key.length = 4
  | .int64, key => key.length = 8
  | .text, key => kBTItemSize + key.length ≤ 256

abbrev KeysValid (kind : BTKeyKind) (entries : List IndexEntry) : Prop :=
  ∀ entry ∈ entries, KeyValid kind entry.1

theorem signedKey_injective (whole : 256 ^ (width / 8) = 2 ^ width)
    (leftLength : left.length = width / 8) (rightLength : right.length = width / 8)
    (same : compare (signedKey width left) (signedKey width right) = .eq) : left = right := by
  have integers := eq_of_compare same
  have bits : ∀ key : List UInt8, key.length = width / 8 →
      (BitVec.ofNat width (field key 0 (width / 8))).toNat = ofBytes key := by
    intro key length
    rw [field, drop_zero, take_of_length_le (le_of_eq length)]
    apply Nat.mod_eq_of_lt
    rw [← whole, ← length]
    exact ofBytes_lt
  have numbers := congrArg BitVec.toNat (BitVec.eq_of_toInt_eq integers)
  rw [bits left leftLength, bits right rightLength] at numbers
  rw [← toBytes_ofBytes left, ← toBytes_ofBytes right, numbers, leftLength, rightLength]

theorem eq_of_btCompareKeys (leftValid : KeyValid kind left) (rightValid : KeyValid kind right)
    (same : btCompareKeys kind left right = .eq) : left = right := by
  cases kind with
  | int32 =>
    exact signedKey_injective (show 256 ^ (32 / 8) = 2 ^ 32 by norm_num) leftValid rightValid same
  | int64 =>
    exact signedKey_injective (show 256 ^ (64 / 8) = 2 ^ 64 by norm_num) leftValid rightValid same
  | text =>
    have lexicographic : List.compareLex compare left right = .eq := by
      rw [← btCompareText_eq]
      exact same
    exact eq_of_compare lexicographic

theorem storedKey_of_valid (valid : KeyValid kind key) : storedKey kind key = key := by
  cases kind with
  | text => rfl
  | _ => exact take_of_length_le (le_of_eq valid)

theorem tidBytes_length : (tidBytes tid).length = kBTItemSize := by
  simp [tidBytes, kBTItemSize]

theorem btItemGetKey_buildItem (valid : KeyValid kind key) (tid : ItemPointerData) :
    btItemGetKey (btBuildItem kind key tid) = key := by
  unfold btBuildItem
  rw [storedKey_of_valid valid]
  exact drop_left' tidBytes_length

theorem btItemTid_buildItem (kind : BTKeyKind) (key : List UInt8) (tid : ItemPointerData) :
    btItemTid (btBuildItem kind key tid) = tid := by
  obtain ⟨blkid, posid⟩ := tid
  have block : field (btBuildItem kind key ⟨blkid, posid⟩) 0 4 = blkid.toNat := by
    unfold field btBuildItem tidBytes
    rw [drop_zero, append_assoc, take_left' (toBytes_length ..), ofBytes_toBytes]
    exact Nat.mod_eq_of_lt blkid.isLt
  have offset : field (btBuildItem kind key ⟨blkid, posid⟩) 4 2 = posid.toNat := by
    unfold field btBuildItem tidBytes
    rw [append_assoc, drop_left' (toBytes_length ..),
      take_left' (toBytes_length ..), ofBytes_toBytes]
    exact Nat.mod_eq_of_lt posid.isLt
  simp [btItemTid, block, offset]

theorem btItemTid_tidBytes : btItemTid (tidBytes tid) = tid := by
  have whole := btItemTid_buildItem .text [] tid
  rwa [btBuildItem, storedKey, append_nil] at whole

theorem length_buildItem (valid : KeyValid kind key) (tid : ItemPointerData) :
    kBTItemSize ≤ (btBuildItem kind key tid).length ∧ (btBuildItem kind key tid).length ≤ 256 := by
  rw [btBuildItem, storedKey_of_valid valid, length_append, tidBytes_length]
  cases kind with
  | int32 =>
    have length : key.length = 4 := valid
    exact ⟨by omega, by rw [length]; decide⟩
  | int64 =>
    have length : key.length = 8 := valid
    exact ⟨by omega, by rw [length]; decide⟩
  | text => exact ⟨by omega, valid⟩

variable (page : PageData)

/-- The loop of `_bt_find_insert_pos`, which is also that of
`_bt_find_scan_pos`: the first offset whose key is not smaller. -/
def btFindPos (kind : BTKeyKind) (key : List UInt8) : Nat :=
  ((List.range' 1 page.maxOffsetNumber).find? fun offset =>
    (page.linp offset).liFlags = .normal &&
      (btCompareKeys kind key (btItemGetKey (page.item offset))).isLE).getD
    (page.maxOffsetNumber + 1)

/-- `_bt_page_insert_item`: the page afterwards and the offset used, which is
`kInvalidOffsetNumber` when the page is full. -/
def btPageInsertItem (item : List UInt8) (insertOffset : Nat) : PageData × Nat :=
  let alignedSize := maxAlignUp item.length
  if page.heapFreeSpace < alignedSize + kItemIdSize then (page, kInvalidOffsetNumber)
  else
    let itemOffset := page.pdUpper - alignedSize
    -- `memmove` of the line pointers from `insertOffset` on, by one slot
    let shifted := fun offset =>
      if insertOffset < offset ∧ offset ≤ page.maxOffsetNumber + 1 then page.linp (offset - 1)
      else page.linp offset
    ({ page with
        bytes := page.bytes.store itemOffset item, linp := Function.update shifted insertOffset
          { liOff := itemOffset, liFlags := .normal, liLen := item.length }
        pdLower := page.pdLower + kItemIdSize, pdUpper := itemOffset }, insertOffset)

def btReadAllItems : List (List UInt8) := page.normalOffsets.map page.item

/-- The loops of `btinsert` that write entries to a page, with the results of
`PageAddItem` that the source ignores. -/
def btAddItems (page : PageData) : List (List UInt8) → PageData × List Nat
  | [] => (page, [])
  | item :: rest =>
    let (page, result) := page.addItem item kInvalidOffsetNumber
    let (page, results) := btAddItems page rest
    (page, result :: results)

/-- The place of a new item among the entries of a full leaf. -/
def btInsertEntry (kind : BTKeyKind) (key : List UInt8) (item : List UInt8)
    (entries : List (List UInt8)) : List (List UInt8) :=
  entries.insertIdx
    (entries.findIdx fun entry => (btCompareKeys kind key (btItemGetKey entry)).isLE) item

/-- An entry of the internal root: a child and its separator. -/
def btInternalEntry (child : Nat) (key : List UInt8) : List UInt8 :=
  toBytes kBlockNumberSize child ++ key

def btEntryChild (entry : List UInt8) : Nat := field entry 0 kBlockNumberSize

def btEntryKey (entry : List UInt8) : List UInt8 := entry.drop kBlockNumberSize

/-- The loop that descends from the internal root, with the child found so far;
the entry at offset 1 has no key. -/
def btDescend (page : PageData) (kind : BTKeyKind) (key : List UInt8) : Nat → List Nat → Nat
  | child, [] => child
  | child, offset :: rest =>
    let entry := page.item offset
    if (page.linp offset).liFlags ≠ .normal then btDescend page kind key child rest
    else if entry.length < kBlockNumberSize then btDescend page kind key child rest
    else if offset = 1 then btDescend page kind key (btEntryChild entry) rest
    else if btCompareKeys kind key (btEntryKey entry) = .lt then child
    else btDescend page kind key (btEntryChild entry) rest

/-- The search for the place of a separator in the internal root. -/
def btFindRootPos (kind : BTKeyKind) (key : List UInt8) : Nat :=
  ((List.range' 2 (page.maxOffsetNumber - 1)).find? fun offset =>
    (page.linp offset).liFlags = .normal &&
      kBlockNumberSize ≤ (page.item offset).length &&
      (btCompareKeys kind key (btEntryKey (page.item offset))).isLE).getD
    (page.maxOffsetNumber + 1)

end Pgcpp.Access
