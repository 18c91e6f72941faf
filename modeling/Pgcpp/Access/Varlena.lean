import Pgcpp.Lib.BitFlags
import Pgcpp.Lib.ByteMem

/-!
# Variable-length values

A varlena is a header of four bytes and what follows it.  The two high bits of
the header tell three storage modes apart: plain data, data compressed in place
behind its raw size, and a pointer to a TOAST table.
-/

namespace Pgcpp.Access

open Lib

abbrev Oid := BitVec 32

def kVarAttExternal : BitVec 32 := 0x80000000

def kVarAttCompressed : BitVec 32 := 0x40000000

def kVarAttSizeMask : BitVec 32 := 0x3FFFFFFF

section

variable (text : List UInt8)

def varattHeader : BitVec 32 := BitVec.ofNat 32 (field text 0 4)

def varattIsExternal : Bool := hasFlag (varattHeader text) kVarAttExternal

def varattIsCompressed : Bool :=
  !hasFlag (varattHeader text) kVarAttExternal && hasFlag (varattHeader text) kVarAttCompressed

def varsizeAny : Nat :=
  if hasFlag (varattHeader text) kVarAttExternal then 16
  else (varattHeader text &&& kVarAttSizeMask).toNat

/-- The `len` bytes at `VARDATA_4B`. -/
def vardata4B (len : Nat) : List UInt8 := (text.drop 4).take len

/-- The `len` bytes at `VARDATA_COMPRESSED`. -/
def vardataCompressed (len : Nat) : List UInt8 := (text.drop 8).take len

def varsizeCompressedData : Nat := varsizeAny text - 4 - 4

def varattRawSize : Int := (BitVec.ofNat 32 (field text 4 4)).toInt

def setVarsize4B (totalSize : Nat) : List UInt8 :=
  toBytes 4 (BitVec.ofNat 32 totalSize &&& kVarAttSizeMask).toNat

def setVarsizeCompressed (totalSize : Nat) : List UInt8 :=
  toBytes 4 ((BitVec.ofNat 32 totalSize &&& kVarAttSizeMask) ||| kVarAttCompressed).toNat

/-- `varatt_external`, without its header. -/
structure VarattExternal where
  rawsize : BitVec 32
  valueid : Oid
  toastrelid : Oid
  deriving DecidableEq

def VarattExternal.bytes (pointer : VarattExternal) : List UInt8 :=
  toBytes 4 kVarAttExternal.toNat ++ (toBytes 4 pointer.rawsize.toNat ++
    (toBytes 4 pointer.valueid.toNat ++ toBytes 4 pointer.toastrelid.toNat))

def vardataExternal : VarattExternal :=
  { rawsize := BitVec.ofNat 32 (field text 4 4), valueid := BitVec.ofNat 32 (field text 8 4)
    toastrelid := BitVec.ofNat 32 (field text 12 4) }

end

def plainVarlena (data : List UInt8) : List UInt8 := setVarsize4B (4 + data.length) ++ data

def compressedVarlena (rawSize : Nat) (compressed : List UInt8) : List UInt8 :=
  setVarsizeCompressed (4 + 4 + compressed.length) ++ (toBytes 4 rawSize ++ compressed)

theorem ofNat_field_append (before after : List UInt8) (word : BitVec 32) :
    BitVec.ofNat 32 (field (before ++ (toBytes 4 word.toNat ++ after)) before.length 4) = word := by
  have whole : word.toNat % 256 ^ 4 = word.toNat := Nat.mod_eq_of_lt word.isLt
  rw [field_append_toBytes, whole, BitVec.ofNat_toNat, BitVec.setWidth_eq]

theorem varattHeader_append : varattHeader (toBytes 4 word.toNat ++ after) = word :=
  ofNat_field_append [] after word

theorem hasFlag_masked (apart : kVarAttSizeMask &&& flag = 0) :
    hasFlag (size &&& kVarAttSizeMask) flag = false := by
  rw [hasFlag, BitVec.and_assoc, apart]
  simp

theorem toNat_masked (small : size < 2 ^ 30) :
    (BitVec.ofNat 32 size &&& kVarAttSizeMask).toNat = size := by
  have mask : kVarAttSizeMask.toNat = 2 ^ 30 - 1 := by decide
  rw [BitVec.toNat_and, mask, Nat.and_two_pow_sub_one_eq_mod, BitVec.toNat_ofNat]
  omega

section

variable {data : List UInt8} (small : 4 + data.length < 2 ^ 30)

theorem varattIsExternal_plain : varattIsExternal (plainVarlena data) = false := by
  rw [varattIsExternal, plainVarlena, setVarsize4B, varattHeader_append]
  exact hasFlag_masked (by decide)

include small in
theorem varsizeAny_plain : varsizeAny (plainVarlena data) = 4 + data.length := by
  rw [varsizeAny, plainVarlena, setVarsize4B, varattHeader_append, hasFlag_masked (by decide),
    if_neg (by decide), BitVec.and_assoc, BitVec.and_self]
  exact toNat_masked small

include small in
theorem vardata4B_plain :
    vardata4B (plainVarlena data) (varsizeAny (plainVarlena data) - 4) = data := by
  rw [varsizeAny_plain small, vardata4B, plainVarlena, setVarsize4B,
    List.drop_left' (by simp), List.take_of_length_le (by omega)]

end

theorem varattHeader_compressed : varattHeader (compressedVarlena rawSize compressed) =
      (BitVec.ofNat 32 (4 + 4 + compressed.length) &&& kVarAttSizeMask) ||| kVarAttCompressed := by
  rw [compressedVarlena, setVarsizeCompressed, varattHeader_append]

theorem varattIsExternal_compressed :
    varattIsExternal (compressedVarlena rawSize compressed) = false := by
  rw [varattIsExternal, varattHeader_compressed, BitFlags.hasFlag_or, hasFlag_masked (by decide)]
  decide

theorem varattIsCompressed_compressed :
    varattIsCompressed (compressedVarlena rawSize compressed) := by
  have external := @varattIsExternal_compressed rawSize compressed
  rw [varattIsExternal] at external
  have marked : hasFlag kVarAttCompressed kVarAttCompressed := by decide
  rw [varattIsCompressed, external, varattHeader_compressed, BitFlags.hasFlag_or, marked]
  simp

theorem varsizeCompressedData_compressed (small : 4 + 4 + compressed.length < 2 ^ 30) :
    varsizeCompressedData (compressedVarlena rawSize compressed) = compressed.length := by
  have external := @varattIsExternal_compressed rawSize compressed
  rw [varattIsExternal] at external
  have size : (varattHeader (compressedVarlena rawSize compressed) &&&
      kVarAttSizeMask).toNat = 4 + 4 + compressed.length := by
    have apart : kVarAttCompressed &&& kVarAttSizeMask = 0 := by decide
    rw [varattHeader_compressed, BitVec.and_or_distrib_right, apart, BitVec.and_assoc]
    simpa using toNat_masked small
  rw [varsizeCompressedData, varsizeAny, external, if_neg (by decide)]
  omega

theorem varattRawSize_compressed (small : rawSize < 2 ^ 31) :
    varattRawSize (compressedVarlena rawSize compressed) = rawSize := by
  have stored : field (compressedVarlena rawSize compressed) 4 4 = rawSize % 256 ^ 4 :=
    field_append_toBytes (setVarsizeCompressed (4 + 4 + compressed.length)) compressed 4 rawSize
  have whole : rawSize % 256 ^ 4 = rawSize := Nat.mod_eq_of_lt (by omega)
  rw [varattRawSize, stored]
  rw [BitVec.toInt_ofNat', Int.bmod_eq_of_le] <;> omega

theorem vardataCompressed_compressed :
    vardataCompressed (compressedVarlena rawSize compressed) compressed.length = compressed := by
  have header : (setVarsizeCompressed (4 + 4 + compressed.length) ++
      toBytes 4 rawSize).length = 8 := by
    simp [setVarsizeCompressed]
  rw [vardataCompressed, compressedVarlena, ← List.append_assoc,
    List.drop_left' header, List.take_length]

theorem varattIsExternal_bytes (pointer : VarattExternal) : varattIsExternal pointer.bytes := by
  rw [varattIsExternal, VarattExternal.bytes, varattHeader_append]
  decide

theorem vardataExternal_bytes : vardataExternal pointer.bytes = pointer := by
  obtain ⟨rawsize, valueid, toastrelid⟩ := pointer
  have first := ofNat_field_append (toBytes 4 kVarAttExternal.toNat)
    (toBytes 4 valueid.toNat ++ toBytes 4 toastrelid.toNat) rawsize
  have second := ofNat_field_append (toBytes 4 kVarAttExternal.toNat ++ toBytes 4 rawsize.toNat)
    (toBytes 4 toastrelid.toNat) valueid
  have third := ofNat_field_append (toBytes 4 kVarAttExternal.toNat ++ (toBytes 4 rawsize.toNat ++
      toBytes 4 valueid.toNat)) [] toastrelid
  simp only [List.length_append, toBytes_length, List.append_assoc,
    List.append_nil] at first second third
  simp [vardataExternal, VarattExternal.bytes, first, second, third]

end Pgcpp.Access
