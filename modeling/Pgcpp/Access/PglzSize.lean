import Pgcpp.Access.PglzRoundTrip
import Mathlib.Data.List.GetD

/-!
# The size of compressed texts

An item of one byte stands for one byte, an item of two bytes for at most
eighteen, so compression shortens a text to a ninth at best.  A run of zero
bytes comes close to that: behind its first byte every item is a match.
Decompression keeps to its buffers on any input.
-/

namespace Pgcpp.Access

open Lib List

theorem span_le_itemBytes (encodable : Encodable item) :
    item.span ≤ 9 * (itemBytes item).length := by
  cases item with
  | literal _ => simp [LzToken.span, itemBytes]
  | copy _ _ => exact encodable.2.2.2

theorem itemBytes_length_le (item : LzToken UInt8) : (itemBytes item).length ≤ 2 := by
  cases item with
  | literal _ => exact Nat.le_succ 1
  | copy _ _ => exact Nat.le_refl 2

theorem sum_span_le (items : List (LzToken UInt8)) (encodable : ∀ item ∈ items, Encodable item) :
    (items.map LzToken.span).sum ≤ 9 * (items.flatMap itemBytes).length := by
  induction items with
  | nil => exact le_rfl
  | cons item items ih =>
    have first := span_le_itemBytes (encodable item mem_cons_self)
    have others := ih fun later mem => encodable later (mem_cons_of_mem _ mem)
    rw [map_cons, sum_cons, flatMap_cons, length_append]
    omega

theorem flatMap_itemBytes_length_le (items : List (LzToken UInt8)) :
    (items.flatMap itemBytes).length ≤ 2 * items.length := by
  induction items with
  | nil => exact le_rfl
  | cons item items _ =>
    have first := itemBytes_length_le item
    rw [flatMap_cons, length_append, length_cons]
    omega

namespace Packed

theorem sum_span_le (packed : Packed items bytes) (encodable : ∀ item ∈ items, Encodable item) :
    (items.map LzToken.span).sum ≤ 9 * bytes.length := by
  induction packed with
  | nil => exact le_rfl
  | @group items _ bytes _ _ _ _ ih =>
    have front := Access.sum_span_le items fun item mem => encodable item (mem_append_left _ mem)
    have back := ih fun item mem => encodable item (mem_append_right _ mem)
    rw [map_append, sum_append, length_cons, length_append]
    omega

theorem length_le (packed : Packed items bytes) : bytes.length ≤ 3 * items.length := by
  induction packed with
  | nil => exact le_rfl
  | @group items _ bytes nonempty _ _ _ _ =>
    have some := length_pos_iff.2 nonempty
    have front := flatMap_itemBytes_length_le items
    rw [length_cons, length_append, length_append]
    omega

end Packed

theorem length_le_of_pglzCompress (compressed : pglzCompress source = some bytes) :
    source.length ≤ 9 * bytes.length := by
  obtain ⟨_, _, spelled, encodable, packed⟩ := exists_items_of_pglzCompress compressed
  have covered := packed.sum_span_le encodable
  have stop := spelled.stop_eq
  omega

theorem readByte_of_lt (inside : pos < buffer.length) : ∃ byte, readByte buffer pos = .ok byte := by
  simp [readByte, inside]

variable {source : List UInt8} {destlen : Int}

theorem copyMatch_safe (length : Nat) (pos : 0 < offset) (reach : offset ≤ dest.length)
    (room : dest.length + length ≤ destlen) : ∃ written, copyMatch destlen offset length dest =
      .ok written ∧ written.length = dest.length + length := by
  induction length generalizing dest with
  | zero => exact ⟨dest, rfl, rfl⟩
  | succ length ih =>
    have inside : dest.length - offset < dest.length := by omega
    obtain ⟨byte, read⟩ := readByte_of_lt inside
    have longer : (dest ++ [byte]).length = dest.length + 1 := length_append
    obtain ⟨written, copied, _⟩ := @ih (dest ++ [byte]) (by omega) (by omega)
    have free : dest.length < destlen := by omega
    refine ⟨written, ?_, by omega⟩
    simp only [copyMatch, read, writeByte, if_pos free]
    exact copied

/-- What the decompression of an item or of a group leaves: -1, or a position
further on and a result within the buffer. -/
def StaysWithin (destlen : Int) (srcPos : Nat) (result : Except PglzError (Nat × List UInt8)) :
    Prop :=
  result = .error .corrupt ∨
    ∃ next dest, result = .ok (next, dest) ∧ srcPos ≤ next ∧ dest.length ≤ destlen

section

variable (small : source.length + 1 < 2 ^ 31) (bounded : destlen + 17 < 2 ^ 31)

include small bounded

theorem decompressItem_staysWithin (inside : srcPos < source.length)
    (free : dest.length < destlen) :
    StaysWithin destlen srcPos (decompressItem source destlen isMatch srcPos dest) := by
  cases isMatch with
  | false =>
    obtain ⟨byte, read⟩ := readByte_of_lt inside
    refine Or.inr ⟨srcPos + 1, dest ++ [byte], ?_, Nat.le_succ _, ?_⟩
    · simp only [decompressItem, if_neg (Int.not_le.2 free), read, writeByte, if_pos free]
      rfl
    · rw [length_append]
      exact Int.add_one_le_of_lt free
  | true =>
    rw [decompressItem, if_pos rfl]
    rw [intAdd_of_lt (by omega)]
    split_ifs with short
    · exact .inl rfl
    obtain ⟨b1, first⟩ := readByte_of_lt inside
    obtain ⟨_, second⟩ := @readByte_of_lt (srcPos + 1) source (by omega)
    have nibble : b1.toNat >>> 4 < 16 := by
      have byte := b1.toNat_lt
      rw [Nat.shiftRight_eq_div_pow]
      omega
    simp only [first, second, bind, Except.bind]
    rw [intAdd_of_lt (by simp only [kMinMatch]; omega)]
    split_ifs with far long
    · exact .inl rfl
    · exact .inl rfl
    obtain ⟨written, copied, total⟩ :=
      copyMatch_safe _ (Nat.succ_pos _) (not_lt.1 far) (Int.not_lt.1 long)
    rw [copied]
    exact .inr ⟨_, written, rfl, Nat.le_add_right _ 2, by omega⟩

theorem decompressGroup_staysWithin (within : dest.length ≤ destlen) :
    StaysWithin destlen srcPos (decompressGroup source destlen ctrl bits srcPos dest) := by
  induction bits generalizing srcPos dest with
  | zero => exact .inr ⟨srcPos, dest, rfl, le_rfl, within⟩
  | succ bits ih =>
    rw [decompressGroup]
    split_ifs with goesOn
    · rcases decompressItem_staysWithin small bounded goesOn.1 goesOn.2 with
        failed | ⟨next, written, result, later, fits⟩
      · rw [failed]
        exact .inl rfl
      rw [result]
      rcases @ih next written fits with failed | ⟨last, rest, result, behind, fits⟩
      · exact .inl failed
      · exact .inr ⟨last, rest, result, later.trans behind, fits⟩
    · exact .inr ⟨srcPos, dest, rfl, le_rfl, within⟩

theorem decompressLoop_safe (within : dest.length ≤ destlen)
    (enough : source.length ≤ srcPos + fuel) :
    decompressLoop source destlen fuel srcPos dest = .error .corrupt ∨
      ∃ written, decompressLoop source destlen fuel srcPos dest = .ok written ∧
        written.length ≤ destlen := by
  induction fuel generalizing srcPos dest with
  | zero =>
    rw [decompressLoop, if_neg (fun goesOn => goesOn.1.not_ge enough)]
    exact .inr ⟨dest, rfl, within⟩
  | succ fuel ih =>
    rw [decompressLoop]
    split_ifs with goesOn
    · obtain ⟨ctrl, read⟩ := readByte_of_lt goesOn.1
      simp only [read, bind, Except.bind]
      have group : StaysWithin destlen (srcPos + 1)
          (decompressGroup source destlen ctrl 8 (srcPos + 1) dest) :=
        decompressGroup_staysWithin small bounded within
      rcases group with failed | ⟨_, written, result, _, fits⟩
      · rw [failed]
        exact .inl rfl
      · rw [result]
        exact ih fits (by omega)
    · exact .inr ⟨dest, rfl, within⟩

end

/-! ## A match past the last `int` -/

theorem copyMatch_stuck (left : Nat) (pos : 0 < offset) (reach : offset ≤ dest.length)
    (within : dest.length ≤ destlen) (past : destlen < dest.length + left) :
    copyMatch destlen offset left dest = .error .stuck := by
  induction left generalizing dest with
  | zero => omega
  | succ left ih =>
    obtain ⟨byte, read⟩ := @readByte_of_lt (dest.length - offset) dest (by omega)
    simp only [copyMatch, read, writeByte, bind, Except.bind]
    split_ifs with free
    · have longer : (dest ++ [byte]).length = dest.length + 1 := length_append
      exact ih (by omega) (by omega) (by omega)
    · rfl

theorem intAdd_wraps (most : pos + 18 = 2 ^ 31) : intAdd pos 18 = -2147483648 := by
  obtain rfl : pos = 2147483630 := by omega
  rfl

/-- The test for the end of a match passes if that end wraps around. -/
theorem decompressItem_stuck {before dest : List UInt8} (int : destlen < 2 ^ 31)
    (limit : before.length + 2 < 2 ^ 31) (free : dest.length < destlen)
    (most : dest.length + 18 = 2 ^ 31) :
    decompressItem (before ++ [0xF0, 0]) destlen true before.length dest = .error .stuck := by
  have second : readByte (before ++ [0xF0, 0]) (before.length + 1) = .ok 0 := by simp [readByte]
  have complete : ¬(before ++ [0xF0, 0]).length < intAdd before.length 2 := by
    rw [intAdd_of_lt limit, length_append]
    exact Int.lt_irrefl _
  have wraps : ¬destlen < intAdd dest.length 18 := by
    rw [intAdd_wraps most]
    omega
  have copied : copyMatch destlen 1 18 dest = .error .stuck :=
    copyMatch_stuck 18 Nat.one_pos (by omega) (Int.le_of_lt free) (by omega)
  have length : (0xF0 : UInt8).toNat >>> 4 + kMinMatch = 18 := rfl
  have offset : (((0xF0 : UInt8).toNat &&& 0x0F) <<< 8 ||| (0 : UInt8).toNat) + 1 = 1 := rfl
  have reach : ¬dest.length < 1 := by omega
  simp only [decompressItem, if_neg complete, readByte_append, second, bind, Except.bind, length,
    offset, if_neg reach, if_neg wraps, copied]
  rfl

theorem spells_zeros {n pos count : Nat} (started : 0 < pos) (fits : pos + 18 * count ≤ n) :
    Spells (replicate n (0 : UInt8)) pos (replicate count (.copy 1 18)) (pos + 18 * count) := by
  induction count generalizing pos with
  | zero => exact .nil
  | succ count ih =>
    refine .cons ⟨Nat.one_pos, started, by decide, ?_, ?_⟩ ?_
    · rw [length_replicate]
      omega
    · intro index below
      rw [getElem?_replicate_of_lt, getElem?_replicate_of_lt] <;> omega
    · have rest := @ih (pos + 18) (by omega) (by omega)
      rwa [show pos + 18 + 18 * count = pos + 18 * (count + 1) by omega] at rest

/-- Eight matches of 18 bytes. -/
def copyGroup : List UInt8 :=
  let items : List (LzToken UInt8) := replicate 8 (.copy 1 18)
  UInt8.ofNat (flagWord 8 (items.map LzToken.isCopy)) :: items.flatMap itemBytes

theorem decompressLoop_stuck {n pos count fuel : Nat} {before : List UInt8} (int : n < 2 ^ 31)
    (large : 2 ^ 31 ≤ n + 17) (started : 0 < pos) (ends : pos + 144 * count + 18 = 2 ^ 31)
    (limit : (before ++ ((replicate count copyGroup).flatten ++ [0x80, 0xF0, 0])).length < 2 ^ 31) :
    decompressLoop (before ++ ((replicate count copyGroup).flatten ++ [0x80, 0xF0, 0])) n
      (fuel + count + 1) before.length ((replicate n 0).take pos) = .error .stuck := by
  induction count generalizing before pos with
  | zero =>
    have taken : ((replicate n (0 : UInt8)).take pos).length = pos := by
      rw [length_take, length_replicate]
      omega
    rw [replicate_zero, flatten_nil, nil_append] at limit ⊢
    simp only [length_append, length_cons, length_nil] at limit
    have stuck := @decompressItem_stuck n (before ++ [0x80]) ((replicate n 0).take pos)
      (by omega) (by simp; omega) (by omega) (by omega)
    simp only [append_assoc, singleton_append, length_append, length_singleton] at stuck
    rw [decompressLoop, if_pos ⟨by simp, by omega⟩, readByte_append]
    change Except.bind (decompressGroup _ _ 0x80 (7 + 1) _ _) _ = _
    rw [decompressGroup, if_pos ⟨by simp, by omega⟩]
    change Except.bind (Except.bind (decompressItem _ _ true _ _) _) _ = _
    rw [stuck]
    rfl
  | succ count ih =>
    have encodable : ∀ item ∈ replicate 8 (.copy 1 18 : LzToken UInt8), Encodable item := by
      intro item mem
      rw [eq_of_mem_replicate mem]
      exact ⟨by decide, by decide, by decide, by decide⟩
    have later := @ih (pos + 18 * 8) (before ++ copyGroup) (by omega) (by omega)
      (by simpa [replicate_succ] using limit)
    rw [replicate_succ, flatten_cons, append_assoc] at limit ⊢
    have step := @decompressLoop_group (replicate n 0) (by rwa [length_replicate]) pos _
      (fuel + count + 1) ((replicate count copyGroup).flatten ++ [0x80, 0xF0, 0]) before _ (by simp)
      (@spells_zeros n pos 8 started (by omega)) encodable (by simp) (.inl rfl) limit
    rw [length_replicate] at step
    rw [append_assoc, length_append] at later
    exact step.trans later

/-- Two literals, whole groups of matches and one match more. -/
theorem exists_stuck {n : Nat} (int : n < 2 ^ 31) (large : 2 ^ 31 ≤ n + 17) :
    ∃ source, source.length + 1 < 2 ^ 31 ∧ pglzDecompress source n = .error .stuck := by
  let items : List (LzToken UInt8) := .literal 0 :: .literal 0 :: replicate 6 (.copy 1 18)
  have spelled : Spells (replicate n (0 : UInt8)) 0 items 110 :=
    .cons (getElem?_replicate_of_lt (by omega)) (.cons (getElem?_replicate_of_lt (by
      change 1 < n
      omega)) (@spells_zeros n 2 6 (by decide) (by omega)))
  have encodable : ∀ item ∈ items, Encodable item := by
    simp [items, Encodable, kMaxOffset, kMinMatch, kMaxMatch]
  obtain ⟨count, isCount⟩ : ∃ count, count = 14913080 := ⟨_, rfl⟩
  let rest := (replicate count copyGroup).flatten ++ [0x80, 0xF0, 0]
  have length : rest.length = 17 * count + 3 := by
    simp [rest, copyGroup, itemBytes, mul_comm]
  let front := UInt8.ofNat (flagWord 8 (items.map LzToken.isCopy)) :: items.flatMap itemBytes
  have size : front.length = 15 := rfl
  refine ⟨front ++ rest, by rw [length_append]; omega, ?_⟩
  have total : (front ++ rest).length = 16 * count + 16 + count + 1 + 1 := by
    rw [length_append]
    omega
  have step := @decompressLoop_group (replicate n 0) (by rwa [length_replicate]) 0 _
    (16 * count + 16 + count + 1) rest [] items (cons_ne_nil _ _) spelled encodable (by decide)
    (.inl rfl) (show (front ++ rest).length < 2 ^ 31 by omega)
  have later := @decompressLoop_stuck n 110 count (16 * count + 16) front int large (by decide)
    (by omega) (show (front ++ rest).length < 2 ^ 31 by omega)
  rw [length_replicate] at step
  rw [pglzDecompress, total]
  exact step.trans later

/-- What was compressed comes back.  Whatever is decompressed, no access leaves
the buffers, exactly if positions past the end of `dest` are still `int`s. -/
theorem pglz_lossless_and_safe (destlen : Int) (int : destlen < 2 ^ 31) :
    (∀ source bytes, source.length < 2 ^ 31 → pglzCompress source = some bytes →
      bytes.length < source.length ∧ pglzDecompress bytes source.length = .ok source) ∧
    ((∀ source, source.length + 1 < 2 ^ 31 → pglzDecompress source destlen = .error .corrupt ∨
        ∃ dest, pglzDecompress source destlen = .ok dest ∧ dest.length ≤ destlen) ↔
      0 ≤ destlen ∧ destlen + 17 < 2 ^ 31) := by
  constructor
  · intro source bytes short compressed
    exact ⟨length_lt_of_pglzCompress compressed, pglzDecompress_of_pglzCompress compressed short⟩
  constructor
  · intro safe
    have nonneg : 0 ≤ destlen := by
      rcases safe [] (by decide) with failed | ⟨dest, _, within⟩
      · cases failed
      · omega
    obtain ⟨n, rfl⟩ := Int.eq_ofNat_of_zero_le nonneg
    refine ⟨nonneg, ?_⟩
    by_contra large
    obtain ⟨source, short, stuck⟩ := exists_stuck (show n < 2 ^ 31 by omega) (by omega)
    rcases safe source short with failed | ⟨_, done, _⟩
    · rw [stuck] at failed
      cases failed
    · rw [stuck] at done
      cases done
  · rintro ⟨nonneg, bounded⟩ source small
    exact @decompressLoop_safe source destlen small bounded 0 _ [] nonneg (Nat.zero_add _).ge

theorem pglz_lossless_of_run : pglzDecompress [64, 7, 240, 0] 19 = .ok (replicate 19 7) ∧
    (pglzDecompress [128, 240] 19 = .error .corrupt ∨
      ∃ dest, pglzDecompress [128, 240] 19 = .ok dest ∧ dest.length ≤ (19 : Int)) :=
  have ⟨lossless, safe⟩ := pglz_lossless_and_safe 19 (by decide)
  ⟨(lossless (replicate 19 7) [64, 7, 240, 0] (by decide) (by decide)).2,
    safe.2 ⟨by decide, by decide⟩ [128, 240] (by decide)⟩

/-- A negative `destlen`, and the largest one. -/
theorem pglzDecompress_unsafe : pglzDecompress [] (-1) = .ok [] ∧
    ∃ source, source.length + 1 < 2 ^ 31 ∧ pglzDecompress source (2 ^ 31 - 1) = .error .stuck :=
  ⟨rfl, @exists_stuck (2 ^ 31 - 1) (by decide) (by decide)⟩

section

variable (n : Nat)

theorem hash3_zeros (pos : Nat) : hash3 (replicate n 0) pos = 0 := by
  simp [hash3]

theorem hashPosition_zeros (table : PglzTable) (pos : Nat) :
    hashPosition (replicate n 0) table pos 0 = some pos := by
  rw [hashPosition, hash3_zeros, Function.update_self]

theorem findMatchLen_zeros (prevPos pos : Nat) :
    findMatchLen (replicate n 0) prevPos pos = min kMaxMatch (n - pos) := by
  have all (left len : Nat) : findMatchLoop (replicate n 0) prevPos pos left len = len + left := by
    induction left generalizing len with
    | zero => rfl
    | succ left ih =>
      simp only [findMatchLoop, getD_eq_getElem?_getD, getElem?_getD_replicate_default_eq,
        if_true, ih]
      omega
  rw [findMatchLen, length_replicate, all, zero_add]

theorem hashSkipped_zeros (entered : ∃ last, table 0 = some last ∧ pos ≤ last) :
    ∃ last, hashSkipped (replicate n 0) table pos mlen 0 = some last ∧ pos ≤ last := by
  unfold hashSkipped
  generalize takeWhile _ _ = skipped
  induction skipped generalizing table with
  | nil => exact entered
  | cons index _ ih =>
    exact ih ⟨pos + index, hashPosition_zeros n table _, Nat.le_add_right _ _⟩

/-- All positions have one entry in the hash table, and it is a recent one. -/
theorem compressItem_zeros (entry : table 0 = some seen) (near : pos ≤ seen + kMaxMatch)
    (inside : pos + kMinMatch ≤ n) {next : PglzTable}
    (emitted : compressItem (replicate n 0) table pos = (item, next, nextPos)) :
    nextPos = pos + min kMaxMatch (n - pos) ∧ ∃ last, next 0 = some last ∧ pos ≤ last := by
  have found : matchAt (replicate n 0) (some seen) pos =
      some (seen, min kMaxMatch (n - pos)) := by
    simp only [kMinMatch, kMaxMatch] at inside near
    rw [matchAt, if_pos, findMatchLen_zeros, if_pos]
    · simp only [kMinMatch, kMaxMatch]
      omega
    · simp only [kMaxOffset]
      omega
  rw [compressItem, length_replicate, if_pos inside, hash3_zeros, entry] at emitted
  simp only [found, Prod.mk.injEq] at emitted
  obtain ⟨_, rfl, rfl⟩ := emitted
  exact ⟨rfl, hashSkipped_zeros n ⟨pos, hashPosition_zeros n table pos, le_rfl⟩⟩

theorem emits_zeros_length_le (emits : Emits (replicate n 0) table pos items last lastPos)
    (ready : pos + kMinMatch ≤ n → ∃ seen, table 0 = some seen ∧ pos ≤ seen + kMaxMatch) :
    items.length ≤ (n - pos) / 18 + 2 ∧ items.length ≤ n - pos := by
  induction emits with
  | nil => simp
  | @cons pos table _ nextPos items last lastPos next within emitted _ ih =>
      rw [length_replicate] at within
      rw [length_cons]
      by_cases inside : pos + kMinMatch ≤ n
      · obtain ⟨seen, entry, near⟩ := ready inside
        obtain ⟨stop, recent, entered, later⟩ := compressItem_zeros n entry near inside emitted
        obtain ⟨few, fewer⟩ := ih fun _ => ⟨recent, entered, by omega⟩
        simp only [kMaxMatch, kMinMatch] at stop inside
        omega
      · rw [compressItem, length_replicate, if_neg inside] at emitted
        cases emitted
        obtain ⟨few, fewer⟩ := ih fun _ => by omega
        simp only [kMinMatch] at inside
        omega

theorem exists_pglzCompress_zeros (long : 20 ≤ n) :
    ∃ bytes, pglzCompress (replicate n 0) = some bytes := by
  obtain ⟨items, bytes, _, emits, packed, result⟩ := @compressLoop_packed (replicate n 0)
      (replicate n (0 : UInt8)).length [] _ _ (tableBelow_empty 0)
      (Nat.zero_le _) (by omega)
  have few : items.length ≤ (n - 1) / 18 + 3 := by
    generalize (replicate n (0 : UInt8)).length = stop at emits
    cases emits with
    | nil => exact Nat.zero_le _
    | cons _ emitted rest =>
      -- the first byte is a literal, for the hash table is empty
      rw [compressItem, length_replicate, if_pos (by simp only [kMinMatch]; omega)] at emitted
      cases emitted
      obtain ⟨_, _⟩ := emits_zeros_length_le n rest fun _ =>
        ⟨0, hashPosition_zeros n _ 0, by decide⟩
      rw [length_cons]
      omega
  have short := packed.length_le
  refine ⟨bytes, ?_⟩
  rw [pglzCompress, result, nil_append, length_replicate, if_neg]
  omega

end

end Pgcpp.Access
