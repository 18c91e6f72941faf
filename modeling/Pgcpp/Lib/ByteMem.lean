import Mathlib.Data.List.Basic
import Mathlib.Data.List.GetD
import Mathlib.Tactic.Ring

/-!
# Byte memory

A memory is a function from addresses to bytes.  `slice` reads a block,
`copy` is `memmove` and `store` writes a block.  On blocks themselves, `patch`
overwrites a part, and `field` reads a little-endian number.
-/

namespace Pgcpp.Lib


open List hiding after count

abbrev ByteMem := Nat → UInt8

namespace ByteMem

/-- The `len` bytes from `start` on. -/
def slice (mem : ByteMem) (start len : Nat) : List UInt8 :=
  (List.range len).map fun index => mem (start + index)

/-- `memmove(mem + target, mem + source, len)`. -/
def copy (mem : ByteMem) (target source len : Nat) : ByteMem := fun address =>
  if target ≤ address ∧ address < target + len then mem (source + (address - target))
  else mem address

/-- `memcpy(mem + start, block, block.length)`. -/
def store (mem : ByteMem) (start : Nat) (block : List UInt8) : ByteMem :=
  fun address =>
    if start ≤ address ∧ address < start + block.length then block.getD (address - start) 0
    else mem address

@[simp] theorem slice_length (mem : ByteMem) (start len : Nat) :
    (slice mem start len).length = len := by
  simp [slice]

theorem slice_getElem? (mem : ByteMem) (start len index : Nat) :
    (slice mem start len)[index]? = if index < len then some (mem (start + index)) else none := by
  unfold slice
  by_cases inside : index < len
  · simp [inside]
  · simp [inside]

theorem slice_congr (same : ∀ index < len, mem (start + index) = mem' (start' + index)) :
    slice mem start len = slice mem' start' len := by
  apply map_congr_left
  intro index member
  exact same index (mem_range.1 member)

theorem slice_eq_iff : slice mem start block.length = block ↔
      ∀ index < block.length, mem (start + index) = block.getD index 0 := by
  constructor
  · intro same index inside
    have read := slice_getElem? mem start block.length index
    rw [same, if_pos inside] at read
    rw [getD_eq_getElem?_getD, read]
    rfl
  intro same
  apply ext_getElem (slice_length ..)
  intro index _ inside
  have read := same index inside
  rw [getD_eq_getElem _ _ inside] at read
  simpa [slice] using read

theorem slice_store_self (mem : ByteMem) (start : Nat) (block : List UInt8) :
    slice (store mem start block) start block.length = block := by
  apply ext_getElem?
  intro _
  rw [slice_getElem?]
  split
  · next inside => simp [store, inside]
  · next outside => simp [not_lt.1 outside]

theorem slice_store_of_disjoint (apart : other + count ≤ start ∨ start + block.length ≤ other) :
    slice (store mem start block) other count = slice mem other count := by
  apply slice_congr
  intro index _
  have outside : ¬(start ≤ other + index ∧ other + index < start + block.length) := by omega
  simp [store, outside]

/-- The bytes from a position on, around the end. -/
def ring (mem : ByteMem) (size start len : Nat) : List UInt8 :=
  (List.range len).map fun index => mem ((start + index) % size)

theorem ring_add : ring mem size start (first + second) =
      ring mem size start first ++ ring mem size ((start + first) % size) second := by
  simp [ring, range_add, Nat.add_assoc]

theorem ring_eq_slice (mem : ByteMem) (fits : start + len ≤ size) :
    ring mem size start len = mem.slice start len := by
  apply map_congr_left
  intro _ inside
  rw [Nat.mod_eq_of_lt (by have := mem_range.1 inside; omega)]

theorem ring_wrap (inside : start < size) (wraps : size - start ≤ len) (fits : len ≤ size) :
    ring mem size start len =
      mem.slice start (size - start) ++ mem.slice 0 (len - (size - start)) := by
  obtain ⟨_, rfl⟩ := Nat.exists_eq_add_of_le wraps
  rw [ring_add, ring_eq_slice mem (by omega), Nat.add_sub_cancel' inside.le, Nat.mod_self,
    ring_eq_slice mem (by omega), Nat.add_sub_cancel_left]

theorem ring_store_of_disjoint (mem : ByteMem)
    (apart : ∀ index < len, (start + index) % size < pos ∨
      pos + block.length ≤ (start + index) % size) :
    ring (mem.store pos block) size start len = ring mem size start len := by
  apply map_congr_left
  intro index inside
  have outside := apart index (mem_range.1 inside)
  exact if_neg (by omega)

theorem mod_cases (low : place < 2 * size) :
    place < size ∧ place % size = place ∨ size ≤ place ∧ place % size = place - size := by
  rcases lt_or_ge place size with small | large
  · exact .inl ⟨small, Nat.mod_eq_of_lt small⟩
  · rw [Nat.mod_eq_sub_mod large, Nat.mod_eq_of_lt (by omega)]
    exact .inr ⟨large, rfl⟩

end ByteMem

/-- `block` with `piece` written over it at `position`. -/
def patch (block : List UInt8) (position : Nat) (piece : List UInt8) : List UInt8 :=
  block.take position ++ piece ++ block.drop (position + piece.length)

theorem patch_getElem? (fits : position + piece.length ≤ block.length) :
    (patch block position piece)[index]? =
      if position ≤ index ∧ index < position + piece.length then piece[index - position]?
      else block[index]? := by
  have taken : (block.take position).length = position := by
    simp only [length_take]
    omega
  unfold patch
  rw [append_assoc, getElem?_append, taken]
  by_cases before : index < position
  · have outside : ¬(position ≤ index ∧ index < position + piece.length) := by omega
    simp [before]
  rw [if_neg before, getElem?_append]
  by_cases inside : index - position < piece.length
  · rw [if_pos inside, if_pos (by omega)]
  rw [if_neg inside, if_neg (by omega), getElem?_drop]
  congr 1
  omega

theorem length_patch
    (fits : pos + piece.length ≤ block.length) : (patch block pos piece).length = block.length := by
  simp only [patch, length_append, length_take, length_drop]
  omega

theorem slice_store_inside (fits : position + piece.length ≤ len) :
    ByteMem.slice (ByteMem.store mem (start + position) piece) start len =
      patch (ByteMem.slice mem start len) position piece := by
  apply ext_getElem?
  intro index
  rw [patch_getElem? (by simpa using fits), ByteMem.slice_getElem?, ByteMem.slice_getElem?]
  by_cases inside : position ≤ index ∧ index < position + piece.length
  · have stored : start + position ≤ start + index ∧
        start + index < start + position + piece.length := by
      omega
    have offset : start + index - (start + position) = index - position := by omega
    have bound : index - position < piece.length := by omega
    rw [if_pos inside, if_pos (by omega), ByteMem.store, if_pos stored,
      offset, getD_eq_getElem?_getD, getElem?_eq_getElem bound]
    rfl
  · have untouched : ¬(start + position ≤ start + index ∧
        start + index < start + position + piece.length) := by
      omega
    rw [if_neg inside, ByteMem.store, if_neg untouched]

theorem slice_store_front (fits : piece.length ≤ len) :
    ByteMem.slice (ByteMem.store mem start piece) start len =
      patch (ByteMem.slice mem start len) 0 piece := by
  have inside : ByteMem.slice (ByteMem.store mem (start + 0) piece) start len =
      patch (ByteMem.slice mem start len) 0 piece :=
    slice_store_inside (by omega)
  rwa [add_zero] at inside

/-- The number whose little-endian digits are `bytes`. -/
def ofBytes : List UInt8 → Nat
  | [] => 0
  | byte :: rest => byte.toNat + 256 * ofBytes rest

/-- The `count` lowest little-endian digits of `number`. -/
def toBytes : Nat → Nat → List UInt8
  | 0, _ => []
  | count + 1, number => UInt8.ofNat number :: toBytes count (number / 256)

@[simp] theorem toBytes_length (count number : Nat) : (toBytes count number).length = count := by
  induction count generalizing number with
  | zero => rfl
  | succ count ih => simp [toBytes, ih]

theorem ofBytes_toBytes (count number : Nat) :
    ofBytes (toBytes count number) = number % 256 ^ count := by
  induction count generalizing number with
  | zero => simp [toBytes, ofBytes, Nat.mod_one]
  | succ count ih =>
    rw [toBytes, ofBytes, ih, pow_succ', Nat.mod_mul]
    simp

theorem toBytes_ofBytes (bytes : List UInt8) : toBytes bytes.length (ofBytes bytes) = bytes := by
  induction bytes with
  | nil => rfl
  | cons byte rest ih =>
    have low : UInt8.ofNat (byte.toNat + 256 * ofBytes rest) = byte := by
      apply UInt8.toNat_inj.1
      rw [UInt8.toNat_ofNat', Nat.add_mul_mod_self_left]
      exact Nat.mod_eq_of_lt byte.toNat_lt
    have high : (byte.toNat + 256 * ofBytes rest) / 256 = ofBytes rest := by
      have small := byte.toNat_lt
      omega
    rw [length_cons, ofBytes, toBytes, low, high, ih]

theorem ofBytes_lt : ofBytes bytes < 256 ^ bytes.length := by
  have again := ofBytes_toBytes bytes.length (ofBytes bytes)
  rw [toBytes_ofBytes] at again
  rw [again]
  exact Nat.mod_lt _ (Nat.pow_pos (by decide))

/-- The little-endian number in the `count` bytes at `position`. -/
def field (block : List UInt8) (position count : Nat) : Nat :=
  ofBytes ((block.drop position).take count)

theorem field_append_toBytes (before after : List UInt8) (count number : Nat) :
    field (before ++ (toBytes count number ++ after)) before.length count =
      number % 256 ^ count := by
  have digits : (toBytes count number ++ after).take count = toBytes count number := by
    rw [take_append_of_le_length (by simp), take_of_length_le (by simp)]
  rw [field, drop_left, digits, ofBytes_toBytes]

/-- Words of four bytes, one behind the other. -/
def wordBytes (words : List (BitVec 32)) : List UInt8 :=
  words.flatMap fun word => toBytes 4 word.toNat

theorem length_wordBytes : (wordBytes words).length = 4 * words.length := by
  induction words with
  | nil => rfl
  | cons _ _ ih =>
    rw [wordBytes, flatMap_cons, ← wordBytes, length_append, toBytes_length, length_cons]
    omega

theorem field_wordBytes (found : words[position]? = some word) :
    field (wordBytes words) (4 * position) 4 = word.toNat := by
  obtain ⟨bound, isWord⟩ := List.getElem?_eq_some_iff.1 found
  have before : (wordBytes (words.take position)).length = 4 * position := by
    rw [length_wordBytes, length_take, min_eq_left bound.le]
  have split : wordBytes words = wordBytes (words.take position) ++
      (toBytes 4 word.toNat ++ wordBytes (words.drop (position + 1))) := by
    rw [← isWord]
    calc
      wordBytes words = wordBytes (words.take position ++ words.drop position) := by
        rw [take_append_drop]
      _ = wordBytes (words.take position) ++ wordBytes (words.drop position) := flatMap_append
      _ = _ := by rw [drop_eq_getElem_cons bound]; rfl
  have read := field_append_toBytes (wordBytes (words.take position))
    (wordBytes (words.drop (position + 1))) 4 word.toNat
  rw [← split, before] at read
  exact read.trans (Nat.mod_eq_of_lt word.isLt)

theorem field_patch_self (fits : pos + piece.length ≤ block.length) :
    field (patch block pos piece) pos piece.length = ofBytes piece := by
  unfold field
  congr 1
  apply ext_getElem?
  intro index
  rw [getElem?_take, getElem?_drop, patch_getElem? fits]
  by_cases inside : index < piece.length
  · rw [if_pos inside, if_pos (by omega)]
    congr 1
    omega
  · rw [if_neg inside, getElem?_eq_none (not_lt.1 inside)]

theorem field_patch_toBytes (fits : pos + count ≤ block.length) (small : value < 256 ^ count) :
    field (patch block pos (toBytes count value)) pos count = value := by
  have written := field_patch_self (show pos + (toBytes count value).length ≤ block.length by
      rwa [toBytes_length])
  rw [toBytes_length, ofBytes_toBytes, Nat.mod_eq_of_lt small] at written
  exact written

theorem drop_patch (fits : pos + piece.length ≤ block.length) (after : pos + piece.length ≤ start) :
    (patch block pos piece).drop start = block.drop start := by
  apply ext_getElem?
  intro _
  rw [getElem?_drop, getElem?_drop, patch_getElem? fits, if_neg (by omega)]

theorem field_patch_of_disjoint (fits : pos + piece.length ≤ block.length)
    (apart : other + count ≤ pos ∨ pos + piece.length ≤ other) :
    field (patch block pos piece) other count = field block other count := by
  unfold field
  congr 1
  apply ext_getElem?
  intro _
  simp only [getElem?_take, getElem?_drop, patch_getElem? fits]
  split
  · rw [if_neg (by omega)]
  · rfl

end Pgcpp.Lib
