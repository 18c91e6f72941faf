import Mathlib.Data.BitVec

/-!
# Flag words

A flag word is a bit vector whose bits are read and written through masks.
The laws below say how a mask test passes through the two updates that flag
code performs: setting a mask with `|||` and clearing one with `&&& ~~~`.
-/

namespace Pgcpp.Lib

/-- The C test `(word & flag) != 0`. -/
def hasFlag {w : Nat} (word flag : BitVec w) : Bool := (word &&& flag) != 0

namespace BitFlags

variable {w : Nat}

theorem hasFlag_iff : hasFlag word flag ↔ ∃ index, word.getLsbD index ∧ flag.getLsbD index := by
  constructor
  · intro set
    by_contra none
    have zero : word &&& flag = 0 := by
      apply BitVec.eq_of_getLsbD_eq
      intro index _
      by_cases wordBit : word.getLsbD index
      · by_cases flagBit : flag.getLsbD index
        · exact (none ⟨index, wordBit, flagBit⟩).elim
        · simp [flagBit]
      · simp [wordBit]
    simp [hasFlag, zero] at set
  · rintro ⟨index, wordBit, flagBit⟩
    have ne : word &&& flag ≠ 0 := by
      intro zero
      have bit := congrArg (fun value => value.getLsbD index) zero
      simp [wordBit, flagBit] at bit
    simpa [hasFlag] using ne

theorem hasFlag_or : hasFlag (word ||| mask) flag = (hasFlag word flag || hasFlag mask flag) := by
  rw [Bool.eq_iff_iff, Bool.or_eq_true, hasFlag_iff, hasFlag_iff, hasFlag_iff]
  constructor
  · rintro ⟨index, bit, flagBit⟩
    rw [BitVec.getLsbD_or, Bool.or_eq_true] at bit
    rcases bit with wordBit | maskBit
    · exact .inl ⟨index, wordBit, flagBit⟩
    · exact .inr ⟨index, maskBit, flagBit⟩
  · rintro (⟨index, bit, flagBit⟩ | ⟨index, bit, flagBit⟩)
    all_goals exact ⟨index, by simp [bit], flagBit⟩

theorem hasFlag_clear_of_disjoint (disjoint : mask &&& flag = 0) :
    hasFlag (word &&& ~~~mask) flag = hasFlag word flag := by
  have absorbed : ~~~mask &&& flag = flag := by
    apply BitVec.eq_of_getLsbD_eq
    intro index _
    have bit := congrArg (fun value => value.getLsbD index) disjoint
    simp only [BitVec.getLsbD_and] at bit
    cases maskBit : mask.getLsbD index <;> simp_all
  rw [hasFlag, BitVec.and_assoc, absorbed, hasFlag]

theorem hasFlag_clear_of_covered (covered : ~~~mask &&& flag = 0) :
    hasFlag (word &&& ~~~mask) flag = false := by
  rw [hasFlag, BitVec.and_assoc, covered]
  simp

end BitFlags

end Pgcpp.Lib
