import Mathlib.Algebra.Group.Nat.Defs
import Mathlib.Data.List.Basic
import Mathlib.Data.List.TakeWhile

/-!
# Lines of text

Text is a list of characters.  `lines` reads it with `getline` to its end,
`keyValue` cuts a line at the first equals sign, and `strtoul` reads a number in
base ten.
-/

namespace Pgcpp.Lib

open List

abbrev Text := List Char

/-- The results of `getline` until the text is used up. -/
def lines : Text → List Text
  | [] => []
  | char :: rest =>
    if char = '\n' then [] :: lines rest
    else
      match lines rest with
      | [] => [[char]]
      | line :: more => (char :: line) :: more

theorem lines_append (oneLine : '\n' ∉ line) :
    lines (line ++ '\n' :: rest) = line :: lines rest := by
  induction line with
  | nil => exact if_pos rfl
  | cons _ _ ih =>
    obtain ⟨ne, oneLineLater⟩ := not_or.1 (mt mem_cons.2 oneLine)
    rw [cons_append, lines, if_neg (Ne.symm ne), ih oneLineLater]

theorem not_mem_of_mem_lines (mem : line ∈ lines text) : '\n' ∉ line := by
  induction text generalizing line with
  | nil => contradiction
  | cons char rest ih =>
    rw [lines] at mem
    split_ifs at mem with isEnd
    · rcases mem_cons.1 mem with rfl | later
      · exact not_mem_nil
      · exact ih later
    have extended {start : Text} (oneLine : '\n' ∉ start) : '\n' ∉ char :: start := by
      intro inside
      rcases mem_cons.1 inside with same | later
      · exact isEnd same.symm
      · exact oneLine later
    cases read : lines rest with
    | nil =>
      rw [read] at mem
      rw [mem_singleton.1 mem]
      exact extended not_mem_nil
    | cons first _ =>
      rw [read] at mem ih
      rcases mem_cons.1 mem with rfl | later
      · exact extended (ih mem_cons_self)
      · exact ih (mem_cons_of_mem first later)

/-- The parts of a line before and behind its first equals sign. -/
def keyValue (line : Text) : Option (Text × Text) :=
  match line.dropWhile (fun char => char ≠ '=') with
  | [] => none
  | _ :: value => some (line.takeWhile fun char => char ≠ '=', value)

theorem keyValue_append (plain : '=' ∉ key) :
    keyValue (key ++ '=' :: value) = some (key, value) := by
  have before : ∀ char ∈ key, decide (char ≠ '=') := by
    intro char mem
    apply decide_eq_true
    rintro rfl
    exact plain mem
  have behind : (key ++ '=' :: value).dropWhile (fun char => char ≠ '=') = '=' :: value := by
    rw [dropWhile_append_of_pos before]
    rfl
  have front : (key ++ '=' :: value).takeWhile (fun char => char ≠ '=') = key := by
    rw [takeWhile_append_of_pos before]
    exact append_nil key
  rw [keyValue, behind, front]

theorem mem_of_keyValue (cut : keyValue line = some (key, value))
    (mem : char ∈ value) : char ∈ line := by
  rw [keyValue] at cut
  cases rest : line.dropWhile (fun char => char ≠ '=') with
  | nil =>
    rw [rest] at cut
    contradiction
  | cons sign _ =>
    rw [rest] at cut
    obtain ⟨-, rfl⟩ := Prod.mk.inj (Option.some.inj cut)
    apply (dropWhile_suffix fun char => char ≠ '=').subset
    rw [rest]
    exact mem_cons_of_mem sign mem

/-- `isspace` in the C locale. -/
def isSpace (char : Char) : Bool := char = ' ' ∨ ('\t' ≤ char ∧ char ≤ '\r')

/-- `strtoul` in base ten: leading space, a sign, digits.  A value that
`unsigned long` does not have is replaced by the greatest one. -/
def strtoul (text : Text) : Nat :=
  let text := text.dropWhile isSpace
  let negative := text.head? = some '-'
  let text :=
    if text.head? = some '-' ∨ text.head? = some '+' then text.tail else text
  let value := Nat.ofDigitChars 10 (text.takeWhile Char.isDigit) 0
  if 2 ^ 64 ≤ value then 2 ^ 64 - 1 else if negative then (2 ^ 64 - value) % 2 ^ 64 else value

theorem plain_of_isDigit (digit : char.isDigit) :
    isSpace char = false ∧ char ≠ '-' ∧ char ≠ '+' := by
  have low : 48 ≤ char.val.toNat := by
    simp only [Char.isDigit, Bool.and_eq_true, decide_eq_true_eq] at digit
    exact UInt32.le_iff_toNat_le.1 digit.1
  refine ⟨?_, ?_, ?_⟩
  · apply decide_eq_false
    rintro (rfl | ⟨-, high⟩)
    · exact absurd low (by decide)
    · have small : char.val.toNat ≤ 13 := UInt32.le_iff_toNat_le.1 high
      omega
  all_goals
    rintro rfl
    exact absurd low (by decide)

theorem strtoul_digits (all : ∀ char ∈ digits, char.isDigit)
    (small : Nat.ofDigitChars 10 digits 0 < 2 ^ 64) :
    strtoul digits = Nat.ofDigitChars 10 digits 0 := by
  have first {char : Char} (isHead : digits.head? = some char) : char.isDigit :=
    all char (mem_of_mem_head? isHead)
  have noSpace : digits.dropWhile isSpace = digits := by
    apply dropWhile_eq_self_iff.2
    intro nonempty
    have head := all _ (getElem_mem nonempty)
    rw [(plain_of_isDigit head).1]
    exact Bool.false_ne_true
  have notMinus : digits.head? ≠ some '-' := fun isHead => (plain_of_isDigit (first isHead)).2.1 rfl
  have notPlus : digits.head? ≠ some '+' := fun isHead => (plain_of_isDigit (first isHead)).2.2 rfl
  have taken : digits.takeWhile Char.isDigit = digits := takeWhile_eq_self_iff.2 all
  simp only [strtoul, noSpace, notMinus, notPlus, or_self, if_false, taken, if_neg (not_le.2 small)]

theorem strtoul_toDigits (small : number < 2 ^ 64) : strtoul (Nat.toDigits 10 number) = number := by
  have value : Nat.ofDigitChars 10 (Nat.toDigits 10 number) 0 = number :=
    Nat.ofDigitChars_toDigits (by decide) le_rfl
  rw [strtoul_digits, value]
  · intro _
    exact Nat.isDigit_of_mem_toDigits (by decide) le_rfl
  · rw [value]
    exact small

end Pgcpp.Lib
