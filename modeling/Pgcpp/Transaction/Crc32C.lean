import Pgcpp.Transaction.Xlog

/-!
# CRC32C

Both paths of `Crc32C::Update` compute the bit-serial CRC.  A round is linear
in exclusive or, so eight rounds are the table entry of the low byte and a
shift of the others.
-/

namespace Pgcpp.Transaction

open Lib List

/-- The bit-serial step on one byte. -/
def crc32CByte (crc : BitVec 32) (byte : UInt8) : BitVec 32 :=
  crc32CRound^[8] (crc ^^^ BitVec.ofNat 32 byte.toNat)

/-- The `crc32` instruction on an operand of some bytes, from the lowest one on. -/
def crc32Instruction (width : Nat) (crc : BitVec 32) (operand : Nat) : BitVec 32 :=
  (toBytes width operand).foldl crc32CByte crc

def crc32CUpdateSse42 (crc : BitVec 32) (data : List UInt8) : BitVec 32 :=
  if 8 ≤ data.length then
    crc32CUpdateSse42 (crc32Instruction 8 crc (ofBytes (data.take 8))) (data.drop 8)
  else
    let (crc, data) := if 4 ≤ data.length
      then (crc32Instruction 4 crc (ofBytes (data.take 4)), data.drop 4) else (crc, data)
    data.foldl (fun crc byte => crc32Instruction 1 crc byte.toNat) crc
termination_by data.length
decreasing_by grind

/-- `Crc32C::Update` on a machine with or without SSE4.2. -/
def Crc32C.update (hasSse42 : Bool) (crc : BitVec 32) (data : List UInt8) : BitVec 32 :=
  if data = [] then crc
  else if hasSse42 then crc32CUpdateSse42 crc data else crc32CUpdate crc data

theorem crc32CRound_xor :
    crc32CRound (left ^^^ right) = crc32CRound left ^^^ crc32CRound right := by
  unfold crc32CRound
  rw [BitVec.getLsbD_xor, BitVec.ushiftRight_xor_distrib]
  cases left.getLsbD 0 <;> cases right.getLsbD 0
  all_goals
    ext index
    simp [Bool.xor_comm, Bool.xor_left_comm]

theorem crc32CRounds_xor (rounds : Nat) (left right : BitVec 32) :
    crc32CRound^[rounds] (left ^^^ right) =
      crc32CRound^[rounds] left ^^^ crc32CRound^[rounds] right := by
  induction rounds generalizing left right with
  | zero => rfl
  | succ rounds ih =>
    rw [Function.iterate_succ_apply, crc32CRound_xor, ih]
    rfl

theorem crc32CRounds_shifted (crc : BitVec 32) (few : rounds ≤ 8) :
    crc32CRound^[rounds] ((crc >>> 8) <<< rounds) = crc >>> 8 := by
  induction rounds with
  | zero => simp
  | succ rounds ih =>
    have shifted : crc32CRound ((crc >>> 8) <<< (rounds + 1)) = (crc >>> 8) <<< rounds := by
      rw [crc32CRound, if_neg (by simp)]
      ext index
      simp
      grind
    rw [Function.iterate_succ_apply, shifted, ih (by omega)]

theorem crc32CByte_eq : crc32CByte crc byte =
    crc32CEntry ((crc ^^^ BitVec.ofNat 32 byte.toNat) &&& 0xFF#32) ^^^ (crc >>> 8) := by
  have parts : crc ^^^ BitVec.ofNat 32 byte.toNat =
      ((crc ^^^ BitVec.ofNat 32 byte.toNat) &&& 0xFF#32) ^^^ ((crc >>> 8) <<< 8) := by
    ext index bound
    have small : byte.toNat < 2 ^ 8 := byte.toNat_lt
    have mask : (0xFF#32).getLsbD index = decide (index < 8) := by
      revert index
      decide
    by_cases low : index < 8
    · simp [low, ← BitVec.getLsbD_eq_getElem, mask]
    · have high : byte.toNat.testBit index = false :=
        Nat.testBit_lt_two_pow (small.trans_le (Nat.pow_le_pow_right (by decide) (by omega)))
      have back : 8 + (index - 8) = index := by omega
      simp [low, ← BitVec.getLsbD_eq_getElem, mask, BitVec.getLsbD_ofNat, high, back, bound]
  rw [crc32CByte, parts, crc32CRounds_xor, crc32CRounds_shifted _ le_rfl, ← parts]
  rfl

theorem crc32CUpdate_eq : crc32CUpdate crc data = data.foldl crc32CByte crc := by
  unfold crc32CUpdate
  congr
  funext crc byte
  exact crc32CByte_eq.symm

theorem crc32Instruction_take {data : List UInt8} (enough : width ≤ data.length) :
    crc32Instruction width crc (ofBytes (data.take width)) =
      (data.take width).foldl crc32CByte crc := by
  have back := toBytes_ofBytes (data.take width)
  rw [length_take_of_le enough] at back
  rw [crc32Instruction, back]

theorem crc32Instruction_byte (crc : BitVec 32) (byte : UInt8) :
    crc32Instruction 1 crc byte.toNat = crc32CByte crc byte := by
  simp [crc32Instruction, toBytes]

theorem crc32CUpdateSse42_eq : crc32CUpdateSse42 crc data = data.foldl crc32CByte crc := by
  fun_induction crc32CUpdateSse42 crc data with
  | case1 crc data words ih =>
    rw [ih, crc32Instruction_take words, ← foldl_append, take_append_drop]
  | case2 crc data _ rest tail split =>
    rw [funext₂ crc32Instruction_byte]
    split_ifs at split with half
    · cases split
      rw [crc32Instruction_take half, ← foldl_append, take_append_drop]
    · cases split
      rfl

theorem crc32C_serial (hasSse42 : Bool) (chunks : List (List UInt8)) :
    crc32CFinalize (chunks.foldl (Crc32C.update hasSse42) crc32CInit) =
      crc32CFinalize (chunks.flatten.foldl crc32CByte crc32CInit) := by
  have step : Crc32C.update hasSse42 = fun crc data => data.foldl crc32CByte crc := by
    funext crc data
    unfold Crc32C.update
    split_ifs with empty
    · rw [empty]
      rfl
    · exact crc32CUpdateSse42_eq
    · exact crc32CUpdate_eq
  rw [step, foldl_flatten]

theorem crc32CRound_injective : Function.Injective crc32CRound := by
  intro left right same
  have zero : crc32CRound (left ^^^ right) = 0#32 := by
    rw [crc32CRound_xor, same, BitVec.xor_self]
  rw [← BitVec.xor_eq_zero_iff]
  unfold crc32CRound at zero
  split at zero
  · have top := congrArg (·.getLsbD 31) zero
    simp [kCastagnoliPolyReflected] at top
  next even =>
    apply BitVec.eq_of_getLsbD_eq
    intro index _
    cases index with
    | zero => simpa using even
    | succ index => simpa [add_comm] using congrArg (·.getLsbD index) zero

theorem foldl_crc32CByte_injective : Function.Injective (foldl crc32CByte · data) := by
  induction data with
  | nil => exact Function.injective_id
  | cons _ _ ih =>
    intro left right same
    exact (BitVec.xor_left_inj _).1 (crc32CRound_injective.iterate 8 (ih same))

/-- A valid record does not pass the check with another byte in its payload. -/
theorem verifyRecordCrc_byte_iff (header front rest : List UInt8) (byte other : UInt8) :
    verifyRecordCrc header (front ++ byte :: rest) ∧
        verifyRecordCrc header (front ++ other :: rest) ↔
      verifyRecordCrc header (front ++ byte :: rest) ∧ byte = other := by
  apply and_congr_right
  intro valid
  constructor
  · intro passes
    unfold verifyRecordCrc crc32CFinalize at *
    simp only [crc32CUpdate_eq, foldl_append, foldl_cons] at *
    have same := (eq_of_beq valid).trans (eq_of_beq passes).symm
    have states := foldl_crc32CByte_injective ((BitVec.xor_left_inj _).1 same)
    have bytes := (BitVec.xor_right_inj _).1 (crc32CRound_injective.iterate 8 states)
    have bounds := And.intro byte.toNat_lt other.toNat_lt
    apply UInt8.toNat_inj.1
    bv_omega
  · rintro rfl
    exact valid

end Pgcpp.Transaction
