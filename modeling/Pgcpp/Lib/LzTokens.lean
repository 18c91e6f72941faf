import Mathlib.Data.List.Basic
import Mathlib.Data.Nat.Bitwise

/-!
# Texts as literals and copies

A dictionary coder describes a text by tokens: a symbol of its own, or a copy
of symbols that stand a distance back.  A copy may reach into the symbols it
produces itself.  `Spells` says that tokens describe the part of a text between
two positions.

`flagWord` packs one flag for each token into a number, first token on top.
-/

namespace Pgcpp.Lib

inductive LzToken (α : Type) where
  | literal (symbol : α)
  | copy (distance length : Nat)
  deriving DecidableEq

variable {α : Type}

namespace LzToken

def isCopy : LzToken α → Bool
  | literal _ => false
  | copy _ _ => true

/-- The number of symbols a token stands for. -/
def span : LzToken α → Nat
  | literal _ => 1
  | copy _ length => length

end LzToken

/-- The token stands for the symbols of `source` from `pos` on. -/
def Describes (source : List α) (pos : Nat) : LzToken α → Prop
  | .literal symbol => source[pos]? = some symbol
  | .copy distance length =>
    0 < distance ∧ distance ≤ pos ∧ 0 < length ∧ pos + length ≤ source.length ∧ ∀ index < length,
        source[pos + index]? = source[pos + index - distance]?

/-- The tokens stand for the symbols of `source` from `pos` to `stop`. -/
inductive Spells (source : List α) : Nat → List (LzToken α) → Nat → Prop where
  | nil : Spells source pos [] pos
  | cons (described : Describes source pos token)
      (rest : Spells source (pos + token.span) tokens stop) :
      Spells source pos (token :: tokens) stop

theorem Describes.span_pos (described : Describes source pos token) : 0 < token.span := by
  cases token with
  | literal _ => exact Nat.one_pos
  | copy _ _ => exact described.2.2.1

theorem Describes.end_le (described : Describes source pos token) :
    pos + token.span ≤ source.length := by
  cases token with
  | literal _ =>
    obtain ⟨inside, _⟩ := List.getElem?_eq_some_iff.1 described
    exact inside
  | copy _ length => exact described.2.2.2.1

namespace Spells

variable {source : List α} {tokens : List (LzToken α)}

theorem of_append (spelled : Spells source pos (tokens ++ more) stop) :
    ∃ middle, Spells source pos tokens middle ∧ Spells source middle more stop := by
  induction tokens generalizing pos with
  | nil => exact ⟨pos, .nil, spelled⟩
  | cons _ tokens ih =>
    cases spelled with
    | cons described rest =>
      obtain ⟨middle, front, back⟩ := ih rest
      exact ⟨middle, .cons described front, back⟩

section

variable (spelled : Spells source pos tokens stop)

include spelled

theorem stop_le (within : pos ≤ source.length) : stop ≤ source.length := by
  induction spelled with
  | nil => exact within
  | cons described _ ih => exact ih described.end_le

theorem add_length_le : pos + tokens.length ≤ stop := by
  induction spelled with
  | nil => exact le_rfl
  | cons described _ _ =>
    have advanced := described.span_pos
    rw [List.length_cons]
    omega

theorem stop_eq : stop = pos + (tokens.map LzToken.span).sum := by
  induction spelled with
  | nil => simp
  | cons _ _ ih =>
    rw [List.map_cons, List.sum_cons]
    omega

end

end Spells

/-- The flags as the bits below `width`, the first one on top. -/
def flagWord : Nat → List Bool → Nat
  | width + 1, flag :: flags => (if flag then 1 <<< width else 0) ||| flagWord width flags
  | _, _ => 0

theorem testBit_flagWord : (flagWord width flags).testBit bit =
      (bit < width && flags.getD (width - 1 - bit) false) := by
  induction width generalizing flags with
  | zero => simp [flagWord]
  | succ width ih =>
    cases flags with
    | nil => simp [flagWord]
    | cons flag flags =>
      have top : (if flag then 1 <<< width else 0).testBit bit =
          (flag && width = bit) := by
        cases flag with
        | false => simp
        | true => simp [Nat.shiftLeft_eq, Nat.testBit_two_pow]
      rw [flagWord, Nat.testBit_or, top, ih]
      rcases Nat.lt_trichotomy bit width with below | same | above
      · have index : width + 1 - 1 - bit = width - 1 - bit + 1 := by omega
        rw [index, List.getD_cons_succ]
        simp [below, below.ne', Nat.lt_succ_of_lt below]
      · simp [same]
      · have beyond : ¬bit < width + 1 := by omega
        simp [above.ne, not_lt.2 above.le, beyond]

end Pgcpp.Lib
