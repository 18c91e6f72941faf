import Mathlib.Init

/-!
# Cursors

A cursor returns one tuple for each call until there is none left.  Its tuples
are known once it is known what every position has still to return.
-/

namespace Pgcpp.Lib

universe u v

variable {Scan : Type u} {Tuple : Type v}

/-- Calls of a cursor until it finds nothing, at most `calls` of them.  A call
without a result has not returned. -/
def drain (next : Scan → Option (Scan × Option Tuple)) : Nat → Scan → Option (List Tuple)
  | 0, _ => none
  | calls + 1, scan =>
    match next scan with
    | none => none
    | some (_, none) => some []
    | some (scan, some tuple) => (drain next calls scan).map (tuple :: ·)

theorem drain_congr (same : next left = next right) :
    drain next calls left = drain next calls right := by
  cases calls with
  | zero => rfl
  | succ calls => rw [drain, same, drain]

/-- The positions of a cursor, with the tuples they have still to return. -/
structure Delivers (next : Scan → Option (Scan × Option Tuple))
    (Remaining : Scan → List Tuple → Prop) : Prop where
  finished : ∀ scan, Remaining scan [] → ∃ after, next scan = some (after, none)
  found : ∀ scan tuple rest, Remaining scan (tuple :: rest) →
    ∃ after, next scan = some (after, some tuple) ∧ Remaining after rest

/-- A cursor whose every call ends the scan or returns the next tuple. -/
theorem Delivers.of_cases {Remaining : Scan → List Tuple → Prop}
    (call : ∀ scan tuples, Remaining scan tuples →
      (tuples = [] ∧ ∃ after, next scan = some (after, none)) ∨
      ∃ tuple rest, tuples = tuple :: rest ∧
        ∃ after, next scan = some (after, some tuple) ∧ Remaining after rest) :
    Delivers next Remaining := by
  constructor
  case finished =>
    intro scan remaining
    rcases call scan [] remaining with ⟨-, ends⟩ | ⟨_, _, split, -⟩
    · exact ends
    · contradiction
  case found =>
    intro scan tuple rest remaining
    rcases call scan _ remaining with ⟨empty, -⟩ | ⟨_, _, split, returns⟩
    · contradiction
    obtain ⟨rfl, rfl⟩ := List.cons.inj split
    exact returns

theorem Delivers.drain {Remaining : Scan → List Tuple → Prop} (delivers : Delivers next Remaining)
    (remaining : Remaining scan tuples) (enough : tuples.length < calls) :
    Lib.drain next calls scan = some tuples := by
  induction tuples generalizing scan calls with
  | nil =>
    cases calls with
    | zero => exact absurd enough (Nat.not_lt_zero _)
    | succ calls =>
      obtain ⟨after, returned⟩ := delivers.finished scan remaining
      rw [Lib.drain, returned]
  | cons tuple rest ih =>
    cases calls with
    | zero => exact absurd enough (Nat.not_lt_zero _)
    | succ calls =>
      obtain ⟨after, returned, later⟩ := delivers.found scan tuple rest remaining
      have drained := ih later (Nat.lt_of_succ_lt_succ enough)
      rw [Lib.drain, returned]
      dsimp only
      rw [drained, Option.map_some]

end Pgcpp.Lib
