import Mathlib.Data.List.Range
import Mathlib.Data.Nat.ModEq

/-!
# Open addressing with linear probing

A table is a function from slots to entries, some of which are vacant.  A key
is searched from its home slot on, up to the first slot that is vacant or holds
the key.  A table is probeable when every entry is found that way.

Writing an entry to the slot a search ends at keeps a table probeable.  Vacating
a slot does so only if the slot is on no other entry's path.
-/

namespace Pgcpp.Lib

open Function List

variable {ε κ : Type}

section

variable (size : Nat) (home : κ → Nat)

/-- The slot a search looks at after `distance` steps. -/
def probeAt (key : κ) (distance : Nat) : Nat := (home key + distance) % size

def probeSequence (key : κ) : List Nat := (range size).map (probeAt size home key)

variable (vacant : ε → Bool) (keyOf : ε → κ)

/-- The slot a search for `key` ends at, `none` in a table full of other
keys. -/
def findSlot [DecidableEq κ] (slots : Nat → ε) (key : κ) : Option Nat :=
  (probeSequence size home key).find? fun slot =>
    vacant (slots slot) || keyOf (slots slot) = key

/-- The slots before `distance` on the path of `key` hold other keys. -/
def PathTo (slots : Nat → ε) (key : κ) (distance : Nat) : Prop :=
  ∀ earlier < distance, vacant (slots (probeAt size home key earlier)) = false ∧
      keyOf (slots (probeAt size home key earlier)) ≠ key

/-- Every entry is reached from the home slot of its key. -/
def Probeable (slots : Nat → ε) : Prop :=
  ∀ slot < size, vacant (slots slot) = false → ∃ distance < size,
      probeAt size home (keyOf (slots slot)) distance = slot ∧
      PathTo size home vacant keyOf slots (keyOf (slots slot)) distance

/-- No path to another entry leads over the slot. -/
def OffPaths (slots : Nat → ε) (slot : Nat) : Prop :=
  ∀ other < size, vacant (slots other) = false → other ≠ slot → ∀ distance < size,
      probeAt size home (keyOf (slots other)) distance = other →
      ∀ earlier < distance, probeAt size home (keyOf (slots other)) earlier ≠ slot

instance (slots : Nat → ε) (slot : Nat) : Decidable (OffPaths size home vacant keyOf slots slot) :=
  haveI _avoids (other : Nat) : Decidable (∀ distance < size,
      probeAt size home (keyOf (slots other)) distance = other →
      ∀ earlier < distance, probeAt size home (keyOf (slots other)) earlier ≠ slot) :=
    inferInstance
  inferInstanceAs (Decidable (∀ other < size, _ → _ → ∀ distance < size, _))

end

section

variable {home : κ → Nat} {vacant : ε → Bool} {keyOf : ε → κ} {slots : Nat → ε}

theorem exists_probeAt (home : κ → Nat) (key : κ) (inside : slot < size) :
    ∃ distance < size, probeAt size home key distance = slot := by
  have pos : 0 < size := by omega
  refine ⟨(slot + (size - home key % size)) % size, Nat.mod_lt _ pos, ?_⟩
  have below := Nat.mod_lt (home key) pos
  have around : home key % size + (slot + (size - home key % size)) = slot + size := by omega
  rw [probeAt, Nat.add_mod_mod, ← Nat.mod_add_mod, around, Nat.add_mod_right,
    Nat.mod_eq_of_lt inside]

theorem probeAt_injective (leftBelow : left < size) (rightBelow : right < size)
    (same : probeAt size home key left = probeAt size home key right) : left = right := by
  have congruent : left % size = right % size := Nat.ModEq.add_left_cancel' (home key) same
  rwa [Nat.mod_eq_of_lt leftBelow, Nat.mod_eq_of_lt rightBelow] at congruent

namespace Probeable

variable (probeable : Probeable size home vacant keyOf slots)

include probeable

theorem vacate (isBlank : vacant blank) (off : OffPaths size home vacant keyOf slots slot) :
    Probeable size home vacant keyOf (update slots slot blank) := by
  intro other inside occupied
  by_cases same : other = slot
  · subst same
    simp [isBlank] at occupied
  rw [update_of_ne same] at occupied ⊢
  obtain ⟨distance, below, ends, path⟩ := probeable other inside occupied
  refine ⟨distance, below, ends, ?_⟩
  intro earlier less
  rw [update_of_ne (off other inside occupied same distance below ends earlier less)]
  exact path earlier less

theorem offPaths_of_vacant (free : vacant (slots slot)) :
    OffPaths size home vacant keyOf slots slot := by
  intro other inside occupied _ _ below ends earlier less through
  obtain ⟨_, reachedBelow, reachedEnds, path⟩ := probeable other inside occupied
  obtain rfl := probeAt_injective below reachedBelow (ends.trans reachedEnds.symm)
  have filled := (path earlier less).1
  rw [through, free] at filled
  exact nomatch filled

end Probeable

theorem OffPaths.of_fewer (kept : ∀ other, vacant (fewer other) = false → fewer other = slots other)
    (off : OffPaths size home vacant keyOf slots slot) :
    OffPaths size home vacant keyOf fewer slot := by
  intro other inside occupied
  have same := kept other occupied
  rw [same] at occupied ⊢
  exact off other inside occupied

variable [DecidableEq κ]

/-- A search ends at the first slot that is vacant or holds the key. -/
theorem findSlot_eq_some_iff : findSlot size home vacant keyOf slots key = some slot ↔
      ∃ distance < size, probeAt size home key distance = slot ∧
        (vacant (slots slot) ∨ keyOf (slots slot) = key) ∧
        PathTo size home vacant keyOf slots key distance := by
  unfold findSlot probeSequence PathTo
  rw [find?_map, Option.map_eq_some_iff]
  constructor
  · rintro ⟨distance, found, rfl⟩
    obtain ⟨ends, inside, earlier⟩ := find?_range_eq_some.1 found
    refine ⟨distance, mem_range.1 inside, rfl, ?_, ?_⟩
    · simpa using ends
    · simpa using earlier
  · rintro ⟨distance, below, rfl, ends, earlier⟩
    refine ⟨distance, find?_range_eq_some.2 ⟨?_, ?_, ?_⟩, rfl⟩
    · simpa using ends
    · exact mem_range.2 below
    · simpa using earlier

theorem findSlot_lt (found : findSlot size home vacant keyOf slots key = some slot) :
    slot < size := by
  obtain ⟨distance, _, rfl, _⟩ := findSlot_eq_some_iff.1 found
  exact Nat.mod_lt _ (by omega)

theorem exists_findSlot (inside : slot < size) (free : vacant (slots slot)) :
    ∃ found, findSlot size home vacant keyOf slots key = some found := by
  apply Option.isSome_iff_exists.1
  obtain ⟨_, below, rfl⟩ := exists_probeAt home key inside
  rw [findSlot, find?_isSome]
  refine ⟨_, mem_map_of_mem (mem_range.2 below), ?_⟩
  simp [free]

namespace Probeable

variable (probeable : Probeable size home vacant keyOf slots)

include probeable

theorem findSlot_eq (inside : slot < size) (occupied : vacant (slots slot) = false) :
    findSlot size home vacant keyOf slots (keyOf (slots slot)) = some slot := by
  obtain ⟨distance, below, ends, path⟩ := probeable slot inside occupied
  exact findSlot_eq_some_iff.2 ⟨distance, below, ends, .inr rfl, path⟩

theorem slot_unique (leftInside : left < size) (rightInside : right < size)
    (leftOccupied : vacant (slots left) = false) (rightOccupied : vacant (slots right) = false)
    (same : keyOf (slots left) = keyOf (slots right)) : left = right := by
  have toLeft := probeable.findSlot_eq leftInside leftOccupied
  rw [same, probeable.findSlot_eq rightInside rightOccupied] at toLeft
  exact (Option.some.inj toLeft).symm

theorem write (solid : vacant entry = false)
    (found : findSlot size home vacant keyOf slots (keyOf entry) = some slot) :
    Probeable size home vacant keyOf (update slots slot entry) := by
  obtain ⟨distance, below, ends, _, path⟩ := findSlot_eq_some_iff.1 found
  intro other inside occupied
  by_cases same : other = slot
  · subst same
    rw [update_self]
    refine ⟨distance, below, ends, ?_⟩
    intro earlier less
    have apart : probeAt size home (keyOf entry) earlier ≠ other := by
      intro again
      have := probeAt_injective (by omega) below (again.trans ends.symm)
      omega
    rw [update_of_ne apart]
    exact path earlier less
  rw [update_of_ne same] at occupied ⊢
  obtain ⟨otherDistance, otherBelow, otherEnds, otherPath⟩ := probeable other inside occupied
  refine ⟨otherDistance, otherBelow, otherEnds, ?_⟩
  intro earlier less
  by_cases through : probeAt size home (keyOf (slots other)) earlier = slot
  · rw [through, update_self]
    refine ⟨solid, ?_⟩
    intro sameKey
    -- the search would have ended at the entry with that key
    have toOther := probeable.findSlot_eq inside occupied
    rw [← sameKey, found] at toOther
    exact same (Option.some.inj toOther).symm
  · rw [update_of_ne through]
    exact otherPath earlier less

end Probeable

end

end Pgcpp.Lib
