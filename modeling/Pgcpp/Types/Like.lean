import Mathlib.Data.List.TakeWhile

/-!
# LIKE

`MatchLike` goes through text and pattern side by side and, at a mismatch, back
to the last `%`, which then takes one byte more.  No earlier `%` has to be tried
again: the items between two of them take one byte each.
-/

namespace Pgcpp.Types

open List

def percent : UInt8 := 37

def underscore : UInt8 := 95

def backslash : UInt8 := 92

/-- What it means that a text matches a pattern. -/
def Like : List UInt8 → List UInt8 → Prop
  | [], text => text = []
  | [pc], text => pc = percent ∨ ∃ byte, text = [byte] ∧ (byte = pc ∨ pc = underscore)
  | pc :: next :: pattern, text =>
    if pc = percent then ∃ rest, rest <:+ text ∧ Like (next :: pattern) rest
    else if pc = backslash then ∃ byte rest, text = byte :: rest ∧ byte = next ∧ Like pattern rest
    else ∃ byte rest, text = byte :: rest ∧ (byte = pc ∨ pc = underscore) ∧
      Like (next :: pattern) rest

/-- The item at the head of a pattern, which is not `%`: the bytes that it
matches, and the pattern after it. -/
def likeItem : List UInt8 → (UInt8 → Bool) × List UInt8
  | [] => (fun _ => false, [])
  | [pc] => (fun byte => byte = pc || pc = underscore, [])
  | pc :: next :: pattern =>
    if pc = backslash then ((· = next), pattern)
    else (fun byte => byte = pc || pc = underscore, next :: pattern)

theorem likeItem_length_lt (accepts : (likeItem pattern).1 byte) :
    (likeItem pattern).2.length < pattern.length := by
  fun_cases likeItem pattern with
  | case1 => cases accepts
  | case3 => exact Nat.lt_succ_of_lt (Nat.lt_succ_self _)
  | _ => exact Nat.lt_succ_self _

theorem dropPercents_length_lt {pattern : List UInt8} (isStar : pattern.head? = some percent) :
    (pattern.dropWhile (· = percent)).length < pattern.length := by
  cases pattern with
  | nil => cases isStar
  | cons pc pattern =>
    rw [dropWhile_cons_of_pos (by simpa using isStar)]
    exact Nat.lt_succ_of_le (dropWhile_suffix _).length_le

/-- The loop of `MatchLike`.  `star` has the text from `t_star` to `t`, and the
pattern from `p_star` on. -/
def matchLikeFrom (text pattern : List UInt8) (star : Option (List UInt8 × List UInt8)) : Bool :=
  match text with
  | [] => pattern.all (· = percent)
  | byte :: text =>
    if _isStar : pattern.head? = some percent then
      let rest := pattern.dropWhile (· = percent)
      if rest = [] then true else matchLikeFrom (byte :: text) rest (some ([], rest))
    else if _accepts : (likeItem pattern).1 byte then
      matchLikeFrom text (likeItem pattern).2 (star.map fun last => (last.1 ++ [byte], last.2))
    else
      match star with
      | none => false
      | some (seen, back) => matchLikeFrom (seen ++ byte :: text).tail back (some ([], back))
termination_by (text.length + star.elim 1 (·.1.length), pattern.length)
decreasing_by
  · have shorter := dropPercents_length_lt _isStar
    cases star <;> simp only [Prod.lex_def, Option.elim, length_nil] <;> omega
  · have shorter := likeItem_length_lt _accepts
    cases star <;> simp [Prod.lex_def]
    all_goals omega
  · simp only [Prod.lex_def, Option.elim, length_tail, length_append, length_cons, length_nil]
    omega

def matchLike (text pattern : List UInt8) : Bool := matchLikeFrom text pattern none

theorem like_item_iff (noStar : pattern.head? ≠ some percent) :
    Like pattern text ↔ text = [] ∧ pattern = [] ∨ ∃ byte rest, text = byte :: rest ∧
      (likeItem pattern).1 byte ∧ Like (likeItem pattern).2 rest := by
  fun_cases Like pattern text <;> simp_all [likeItem, Like]

theorem like_percent_iff :
    Like (percent :: pattern) text ↔ ∃ rest, rest <:+ text ∧ Like pattern rest := by
  cases pattern <;> simp [Like]

theorem like_percents_iff (isStar : pattern.head? = some percent) :
    Like pattern text ↔ ∃ rest, rest <:+ text ∧ Like (pattern.dropWhile (· = percent)) rest := by
  induction pattern generalizing text with
  | nil => cases isStar
  | cons pc pattern ih =>
    obtain rfl : pc = percent := by simpa using isStar
    rw [like_percent_iff, dropWhile_cons_of_pos (by simp)]
    by_cases more : pattern.head? = some percent
    · simp only [ih more]
      constructor
      · rintro ⟨_, suffix, rest, inner, like⟩
        exact ⟨rest, inner.trans suffix, like⟩
      · rintro ⟨rest, suffix, like⟩
        exact ⟨rest, suffix, rest, suffix_refl rest, like⟩
    · cases pattern with
      | nil => rfl
      | cons next pattern => rw [dropWhile_cons_of_neg (by simpa using more)]

theorem like_nil_iff : Like pattern [] ↔ pattern.all (· = percent) := by
  induction pattern with
  | nil => simp [Like]
  | cons pc pattern ih =>
    by_cases isStar : pc = percent
    · subst isStar
      simp [like_percent_iff, ih]
    · have noStar : (pc :: pattern).head? ≠ some percent := by simpa using isStar
      simp [like_item_iff noStar, isStar]

/-- What matches the pattern after the last `%` has as many bytes before the
present pattern as were seen since. -/
def Aligned (pattern : List UInt8) (star : Option (List UInt8 × List UInt8)) : Prop :=
  ∀ last ∈ star, ∀ text, Like last.2 text → ∃ rest, rest <:+ text ∧
    rest.length + last.1.length = text.length ∧ Like pattern rest

theorem aligned_start : Aligned back (some ([], back)) := by
  rintro _ ⟨⟩ text like
  exact ⟨text, suffix_refl text, rfl, like⟩

theorem like_or_later_iff : (Like back text ∨ ∃ last ∈ some (([] : List UInt8), back), ∃ rest,
      rest <:+ (last.1 ++ text).tail ∧ Like last.2 rest) ↔
    ∃ rest, rest <:+ text ∧ Like back rest := by
  cases text with
  | nil => simp
  | cons byte text => simp [suffix_cons_iff, or_and_right, exists_or]

theorem matchLikeFrom_iff {star : Option (List UInt8 × List UInt8)}
    (aligned : Aligned pattern star) : matchLikeFrom text pattern star ↔ Like pattern text ∨
      ∃ last ∈ star, ∃ rest, rest <:+ (last.1 ++ text).tail ∧ Like last.2 rest := by
  fun_induction matchLikeFrom text pattern star with
  | case1 pattern star =>
    rw [← like_nil_iff]
    refine (or_iff_left_of_imp ?_).symm
    rintro ⟨last, mem, rest, suffix, like⟩
    obtain ⟨inner, _, count, matched⟩ := aligned last mem rest like
    have short := suffix.length_le
    rw [append_nil, length_tail] at short
    rwa [length_eq_zero_iff.1 (by omega : inner.length = 0)] at matched
  | case2 pattern star byte text isStar rest isEnd =>
    have like : Like pattern (byte :: text) := by
      refine (like_percents_iff isStar).2 ⟨[], nil_suffix, ?_⟩
      rw [show dropWhile _ _ = [] from isEnd, Like]
    simp [like]
  | case3 pattern star byte text isStar rest _ ih =>
    rw [ih aligned_start, like_or_later_iff, ← like_percents_iff isStar]
    refine (or_iff_left_of_imp ?_).symm
    -- what a later attempt leaves to the new `%` is an end of the present text
    rintro ⟨last, mem, other, suffix, like⟩
    obtain ⟨inner, innerSuffix, count, matched⟩ := aligned last mem other like
    obtain ⟨left, leftSuffix, likeLeft⟩ := (like_percents_iff isStar).1 matched
    refine (like_percents_iff isStar).2 ⟨left, ?_, likeLeft⟩
    have isEnd := leftSuffix.trans (innerSuffix.trans (suffix.trans (tail_suffix _)))
    apply suffix_of_suffix_length_le isEnd (suffix_append last.1 _)
    have left := leftSuffix.length_le
    have short := suffix.length_le
    rw [length_tail, length_append] at short
    omega
  | case4 pattern star byte text noStar accepts ih =>
    have moved : Aligned (likeItem pattern).2
        (star.map fun last => (last.1 ++ [byte], last.2)) := by
      intro _ moved other like
      obtain ⟨last, mem, rfl⟩ := Option.map_eq_some_iff.1 moved
      obtain ⟨_, suffix, count, matched⟩ := aligned last mem other like
      rcases (like_item_iff noStar).1 matched with ⟨_, rfl⟩ | ⟨first, rest, rfl, _, like⟩
      · cases accepts
      refine ⟨rest, (suffix_cons first rest).trans suffix, ?_, like⟩
      rw [length_append, length_singleton, ← count, length_cons]
      omega
    have head : Like pattern (byte :: text) ↔ Like (likeItem pattern).2 text := by
      simp [like_item_iff noStar, and_assoc, accepts]
    rw [ih moved, head]
    cases star <;> simp
  | case5 pattern byte text noStar mismatch =>
    simp [like_item_iff noStar, mismatch]
  | case6 pattern byte text noStar mismatch seen back ih =>
    rw [ih aligned_start, like_or_later_iff]
    simp [like_item_iff noStar, mismatch]

/-- `LIKE` matches what the pattern means. -/
theorem matchLike_iff (text pattern : List UInt8) : matchLike text pattern ↔ Like pattern text := by
  rw [matchLike, matchLikeFrom_iff (by simp [Aligned])]
  simp

end Pgcpp.Types
