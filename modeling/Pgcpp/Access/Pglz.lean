import Pgcpp.Lib.LzTokens

/-!
# pglz compression

`pglz_compress` and `pglz_decompress`.  The output is a sequence of groups: a
control byte and up to eight items, one bit of the control byte for each item,
first item on top.  An item is a literal byte, or a match of two bytes that
names bytes of the output further back.

The buffers of `pglz_decompress` are lists with a bound on every access, so an
access outside of them shows as an error of its own.  Positions are `int`s, and
their sums wrap around; `pglz_compress` reserves its buffer first, which fails
for a source so long that its own sums would.
-/

namespace Pgcpp.Access

open Lib

def kHashSize : Nat := 4096

def kHashMask : Nat := kHashSize - 1

def kMinMatch : Nat := 3

def kMaxMatch : Nat := 18

def kMaxOffset : Nat := 4096

/-- The hash table: the last position with a hash. -/
abbrev PglzTable := Nat → Option Nat

def hash3 (data : List UInt8) (pos : Nat) : Nat :=
  let b0 := (data.getD pos 0).toNat
  let b1 := (data.getD (pos + 1) 0).toNat
  let b2 := (data.getD (pos + 2) 0).toNat
  ((b0 <<< 8) ^^^ (b1 <<< 4) ^^^ b2) &&& kHashMask

variable (source : List UInt8)

/-- The loop of `find_match_len`, with the number of bytes left to compare. -/
def findMatchLoop (source : List UInt8) (prevPos pos : Nat) : Nat → Nat → Nat
  | 0, len => len
  | left + 1, len =>
    if source.getD (prevPos + len) 0 = source.getD (pos + len) 0 then
      findMatchLoop source prevPos pos left (len + 1)
    else len

def findMatchLen (prevPos pos : Nat) : Nat :=
  findMatchLoop source prevPos pos (min kMaxMatch (source.length - pos)) 0

/-- The length of the match to emit at `pos`, if there is one. -/
def matchAt (prev : Option Nat) (pos : Nat) : Option (Nat × Nat) :=
  match prev with
  | none => none
  | some prev =>
    if pos - prev ≤ kMaxOffset then
      let mlen := findMatchLen source prev pos
      if kMinMatch ≤ mlen then some (prev, mlen) else none
    else none

def hashPosition (table : PglzTable) (pos : Nat) : PglzTable :=
  Function.update table (hash3 source pos) (some pos)

/-- The positions skipped by a match enter the hash table as well. -/
def hashSkipped (table : PglzTable) (pos mlen : Nat) : PglzTable :=
  ((List.range' 1 (mlen - 1)).takeWhile fun index =>
    pos + index + kMinMatch ≤ source.length).foldl
    (fun table index => hashPosition source table (pos + index)) table

/-- The body of the inner loop of `pglz_compress`: the item at `pos`, the hash
table behind it and the next position. -/
def compressItem (table : PglzTable) (pos : Nat) : LzToken UInt8 × PglzTable × Nat :=
  if pos + kMinMatch ≤ source.length then
    let prev := table (hash3 source pos)
    let table := hashPosition source table pos
    match matchAt source prev pos with
    | some (prev, mlen) => (.copy (pos - prev) mlen, hashSkipped source table pos mlen, pos + mlen)
    | none => (.literal (source.getD pos 0), table, pos + 1)
  else (.literal (source.getD pos 0), table, pos + 1)

/-- The bytes of an item; the offset in a match counts from 0. -/
def itemBytes : LzToken UInt8 → List UInt8
  | .literal byte => [byte]
  | .copy distance mlen =>
    let offset := distance - 1
    let lengthNibble := mlen - kMinMatch
    [UInt8.ofNat ((lengthNibble <<< 4) ||| ((offset >>> 8) &&& 0x0F)),
      UInt8.ofNat (offset &&& 0xFF)]

/-- A group under construction, and the state of the compression behind it. -/
structure PglzGroup where
  ctrl : Nat
  items : List UInt8
  table : PglzTable
  pos : Nat

/-- The inner loop of `pglz_compress`, with the number of items left. -/
def compressGroup (source : List UInt8) : Nat → PglzGroup → PglzGroup
  | 0, group => group
  | left + 1, group =>
    if group.pos < source.length then
      let (item, table, pos) := compressItem source group.table group.pos
      compressGroup source left
        { ctrl :=
            if item.isCopy then group.ctrl ||| (1 <<< left) else group.ctrl
          items := group.items ++ itemBytes item, table := table, pos := pos }
    else group

/-- The outer loop of `pglz_compress`, with a bound on its iterations. -/
def compressLoop (source : List UInt8) : Nat → List UInt8 → PglzTable → Nat → List UInt8
  | 0, output, _, _ => output
  | fuel + 1, output, table, pos =>
    if pos < source.length then
      let group := compressGroup source 8 { ctrl := 0, items := [], table := table, pos := pos }
      compressLoop source fuel
        (output ++ UInt8.ofNat group.ctrl :: group.items)
        group.table group.pos
    else output

/-- `pglz_compress`; `none` if the output is not shorter.  An iteration of the
outer loop passes at least one byte. -/
def pglzCompress : Option (List UInt8) :=
  let output := compressLoop source source.length [] (fun _ => none) 0
  if source.length ≤ output.length then none else some output

inductive PglzError where
  /-- The result -1. -/
  | corrupt
  /-- An access outside a buffer, or a loop that goes on beyond its bound. -/
  | stuck
  deriving DecidableEq

/-- A sum of two `int`s. -/
def intAdd (left right : Nat) : Int := (left + right : Int).bmod (2 ^ 32)

def readByte (buffer : List UInt8) (pos : Nat) : Except PglzError UInt8 :=
  match buffer[pos]? with
  | some byte => .ok byte
  | none => .error .stuck

/-- `dest[dest_pos++] = byte` in a buffer of `destlen` bytes. -/
def writeByte (destlen : Int) (dest : List UInt8) (byte : UInt8) : Except PglzError (List UInt8) :=
  if dest.length < destlen then .ok (dest ++ [byte]) else .error .stuck

/-- The loop that copies a match, with the number of bytes left. -/
def copyMatch (destlen : Int) (offset : Nat) : Nat → List UInt8 → Except PglzError (List UInt8)
  | 0, dest => .ok dest
  | left + 1, dest => do
    let byte ← readByte dest (dest.length - offset)
    let dest ← writeByte destlen dest byte
    copyMatch destlen offset left dest

/-- The body of the inner loop of `pglz_decompress`. -/
def decompressItem (destlen : Int) (isMatch : Bool) (srcPos : Nat) (dest : List UInt8) :
    Except PglzError (Nat × List UInt8) :=
  if isMatch then
    if source.length < intAdd srcPos 2 then .error .corrupt
    else do
      let b1 ← readByte source srcPos
      let b2 ← readByte source (srcPos + 1)
      let length := (b1.toNat >>> 4) + kMinMatch
      let offset := (((b1.toNat &&& 0x0F) <<< 8) ||| b2.toNat) + 1
      if dest.length < offset then .error .corrupt
      else if destlen < intAdd dest.length length then .error .corrupt
      else do
        let dest ← copyMatch destlen offset length dest
        return (srcPos + 2, dest)
  else if destlen ≤ dest.length then .error .corrupt
  else do
    let byte ← readByte source srcPos
    let dest ← writeByte destlen dest byte
    return (srcPos + 1, dest)

/-- The inner loop of `pglz_decompress`, with the number of bits left. -/
def decompressGroup (source : List UInt8) (destlen : Int) (ctrl : UInt8) :
    Nat → Nat → List UInt8 → Except PglzError (Nat × List UInt8)
  | 0, srcPos, dest => .ok (srcPos, dest)
  | bit + 1, srcPos, dest =>
    if srcPos < source.length ∧ dest.length < destlen then do
      let (srcPos, dest) ← decompressItem source destlen (ctrl.toNat.testBit bit) srcPos dest
      decompressGroup source destlen ctrl bit srcPos dest
    else .ok (srcPos, dest)

/-- The outer loop of `pglz_decompress`, with a bound on its iterations. -/
def decompressLoop (source : List UInt8) (destlen : Int) :
    Nat → Nat → List UInt8 → Except PglzError (List UInt8)
  | 0, srcPos, dest =>
    if srcPos < source.length ∧ dest.length < destlen then .error .stuck else .ok dest
  | fuel + 1, srcPos, dest =>
    if srcPos < source.length ∧ dest.length < destlen then do
      let ctrl ← readByte source srcPos
      let (srcPos, dest) ← decompressGroup source destlen ctrl 8 (srcPos + 1) dest
      decompressLoop source destlen fuel srcPos dest
    else .ok dest

/-- `pglz_decompress`, with the bytes written.  An iteration of the outer loop
reads at least one byte. -/
def pglzDecompress (destlen : Int) : Except PglzError (List UInt8) :=
  decompressLoop source destlen source.length 0 []

end Pgcpp.Access
