import Mathlib.Data.List.Pairwise
import Pgcpp.Storage.PageDelete

/-!
# Items that move

Compaction and the closing of a gap move items one after the other.  When no
move writes over an item that is still to be moved or over one that has been
moved, the whole series comes to moving all items at once.
-/

namespace Pgcpp.Storage

open List Function

namespace PageData

abbrev ItemMove := ItemEntry × Nat

/-- The address is in the place the item moves to. -/
def ItemMove.Hits (move : ItemMove) (address : Nat) : Prop :=
  move.2 ≤ address ∧ address < move.2 + move.1.rawLen

/-- The move spares an item that moves later. -/
def ItemMove.Clears (move later : ItemMove) : Prop :=
  ∀ index < later.1.rawLen, ¬Hits move (later.1.itemOff + index) ∧ ¬Hits move (later.2 + index)

/-- The items are apart after both moves. -/
def ItemMove.Apart (left right : ItemMove) : Prop :=
  left.2 + left.1.alignedLen ≤ right.2 ∨ right.2 + right.1.alignedLen ≤ left.2

instance : Std.Symm ItemMove.Apart := ⟨fun _ _ apart => apart.symm⟩

def relocate (page : PageData) (moves : List ItemMove) : PageData :=
  moves.foldl (fun page move => page.moveItem move.2 move.1) page

section

variable (page : PageData) (moves : List ItemMove)

@[simp]
theorem relocate_pdLower : (page.relocate moves).pdLower = page.pdLower := by
  induction moves generalizing page with
  | nil => rfl
  | cons _ _ ih => exact ih _

@[simp]
theorem relocate_pdUpper : (page.relocate moves).pdUpper = page.pdUpper := by
  induction moves generalizing page with
  | nil => rfl
  | cons _ _ ih => exact ih _

@[simp]
theorem relocate_pdSpecial : (page.relocate moves).pdSpecial = page.pdSpecial := by
  induction moves generalizing page with
  | nil => rfl
  | cons _ _ ih => exact ih _

variable {moves}

theorem relocate_linp_other (absent : ∀ move ∈ moves, move.1.offset ≠ offset) :
    (page.relocate moves).linp offset = page.linp offset := by
  induction moves generalizing page with
  | nil => rfl
  | cons move _ ih =>
    have here := absent move mem_cons_self
    have later := ih (page.moveItem move.2 move.1)
      fun other mem => absent other (mem_cons_of_mem move mem)
    exact later.trans (update_of_ne here.symm ..)

theorem relocate_linp (distinct : moves.Pairwise fun left right => left.1.offset ≠ right.1.offset)
    (mem : move ∈ moves) : (page.relocate moves).linp move.1.offset =
      { page.linp move.1.offset with liOff := move.2 } := by
  induction moves generalizing page with
  | nil => contradiction
  | cons first rest ih =>
    obtain ⟨fresh, distinctRest⟩ := pairwise_cons.1 distinct
    rcases mem_cons.1 mem with rfl | later
    · have absent : ∀ other ∈ rest, other.1.offset ≠ move.1.offset :=
        fun other listed => (fresh other listed).symm
      apply (relocate_linp_other _ absent).trans
      exact update_self ..
    apply (ih (page.moveItem first.2 first.1) distinctRest later).trans
    have ne := (fresh move later).symm
    have kept : (page.moveItem first.2 first.1).linp move.1.offset = page.linp move.1.offset :=
      update_of_ne ne ..
    rw [kept]

theorem relocate_bytes_outside (outside : ∀ move ∈ moves, ¬ItemMove.Hits move address) :
    (page.relocate moves).bytes address = page.bytes address := by
  induction moves generalizing page with
  | nil => rfl
  | cons move _ ih =>
    have later := ih (page.moveItem move.2 move.1)
      fun other mem => outside other (mem_cons_of_mem move mem)
    exact later.trans (if_neg (outside move mem_cons_self))

theorem relocate_bytes (clear : moves.Pairwise ItemMove.Clears)
    (mem : move ∈ moves) (inside : index < move.1.rawLen) :
    (page.relocate moves).bytes (move.2 + index) = page.bytes (move.1.itemOff + index) := by
  induction moves generalizing page with
  | nil => contradiction
  | cons first rest ih =>
    obtain ⟨spares, clearRest⟩ := pairwise_cons.1 clear
    rcases mem_cons.1 mem with rfl | later
    · have untouched : ∀ other ∈ rest, ¬ItemMove.Hits other (move.2 + index) := by
        rintro other listed ⟨low, _⟩
        have hit := (spares other listed (move.2 + index - other.2) (by omega)).2
        apply hit
        rw [Nat.add_sub_cancel' low]
        exact ⟨Nat.le_add_right .., Nat.add_lt_add_left inside _⟩
      apply (relocate_bytes_outside _ untouched).trans
      have target : move.2 ≤ move.2 + index ∧ move.2 + index < move.2 + move.1.rawLen :=
        ⟨Nat.le_add_right .., Nat.add_lt_add_left inside _⟩
      apply (if_pos target).trans
      rw [Nat.add_sub_cancel_left]
    · apply (ih (page.moveItem first.2 first.1) clearRest later).trans
      exact if_neg (spares move later index inside).1

end

/-- Where the loop of `compactify_tuples` puts the entries. -/
def placements (newUpper : Nat) : List ItemEntry → List ItemMove
  | [] => []
  | entry :: rest =>
    (entry, newUpper - entry.alignedLen) :: placements (newUpper - entry.alignedLen) rest

def finalUpper (newUpper : Nat) (entries : List ItemEntry) : Nat :=
  entries.foldl (fun upper entry => upper - entry.alignedLen) newUpper

theorem moveItems_eq (page : PageData) (newUpper : Nat) (entries : List ItemEntry) :
    page.moveItems newUpper entries = { page.relocate (placements newUpper entries) with
        pdUpper := finalUpper newUpper entries } := by
  induction entries generalizing page newUpper with
  | nil => rfl
  | cons _ _ ih => exact ih _ _

theorem finalUpper_le (newUpper : Nat) (entries : List ItemEntry) :
    finalUpper newUpper entries ≤ newUpper := by
  induction entries generalizing newUpper with
  | nil => exact le_rfl
  | cons _ _ ih => exact (ih _).trans (Nat.sub_le ..)

theorem map_fst_placements (newUpper : Nat) (entries : List ItemEntry) :
    (placements newUpper entries).map Prod.fst = entries := by
  induction entries generalizing newUpper with
  | nil => rfl
  | cons entry _ ih => exact congrArg (entry :: ·) (ih _)

theorem mem_of_mem_placements (mem : move ∈ placements newUpper entries) : move.1 ∈ entries := by
  rw [← map_fst_placements newUpper entries]
  exact mem_map_of_mem mem

theorem finalUpper_le_of_mem (mem : move ∈ placements newUpper entries) :
    finalUpper newUpper entries ≤ move.2 := by
  induction entries generalizing newUpper with
  | nil => contradiction
  | cons _ rest ih =>
    rcases mem_cons.1 mem with rfl | later
    · exact finalUpper_le _ rest
    · exact ih later

/-- Entries from high to low.  Those that take space each end where the bound or
the one before them starts; empty ones may stand anywhere. -/
def Descending (bound : Nat) : List ItemEntry → Prop
  | [] => True
  | entry :: rest =>
    if entry.alignedLen = 0 then Descending bound rest
    else entry.itemOff + entry.alignedLen ≤ bound ∧ Descending entry.itemOff rest

namespace Descending

theorem le (descending : Descending bound entries) {entry : ItemEntry}
    (mem : entry ∈ entries) (occupied : entry.alignedLen ≠ 0) :
    entry.itemOff + entry.alignedLen ≤ bound := by
  induction entries generalizing bound with
  | nil => contradiction
  | cons _ _ ih =>
    rw [Descending] at descending
    split_ifs at descending with empty
    · rcases mem_cons.1 mem with rfl | later
      · exact absurd empty occupied
      · exact ih descending later
    obtain ⟨fits, descendingRest⟩ := descending
    rcases mem_cons.1 mem with rfl | later
    · exact fits
    · have := ih descendingRest later
      omega

theorem tail {entry : ItemEntry}
    (descending : Descending bound (entry :: rest)) (room : bound ≤ newUpper) :
    entry.alignedLen ≤ newUpper ∧ ∃ next,
      Descending next rest ∧ next ≤ newUpper - entry.alignedLen := by
  rw [Descending] at descending
  split_ifs at descending with empty
  · rw [empty]
    exact ⟨Nat.zero_le _, bound, descending, room⟩
  · obtain ⟨_, descendingRest⟩ := descending
    exact ⟨by omega, entry.itemOff, descendingRest, by omega⟩

section

variable (descending : Descending bound entries)

include descending

section

variable (room : bound ≤ newUpper)

include room

theorem placed (mem : move ∈ placements newUpper entries) :
    move.2 + move.1.alignedLen ≤ newUpper := by
  induction entries generalizing bound newUpper with
  | nil => contradiction
  | cons _ _ ih =>
    obtain ⟨fits, _, descendingRest, lower⟩ := descending.tail room
    rcases mem_cons.1 mem with rfl | later
    · exact (Nat.sub_add_cancel fits).le
    · have := ih descendingRest lower later
      omega

theorem stacked : (placements newUpper entries).Pairwise fun move later =>
      later.2 + later.1.alignedLen ≤ move.2 := by
  induction entries generalizing bound newUpper with
  | nil => exact List.Pairwise.nil
  | cons _ _ ih =>
    obtain ⟨_, _, descendingRest, lower⟩ := descending.tail room
    refine pairwise_cons.2 ⟨?_, ih descendingRest lower⟩
    intro later mem
    exact descendingRest.placed lower mem

theorem apart (leftIn : left ∈ placements newUpper entries)
    (rightIn : right ∈ placements newUpper entries) (ne : left ≠ right) : left.Apart right := by
  have each : (placements newUpper entries).Pairwise ItemMove.Apart :=
    (descending.stacked room).imp Or.inr
  exact each.forall leftIn rightIn ne

theorem ahead : (placements newUpper entries).Pairwise fun move later =>
      later.1.alignedLen ≠ 0 → later.1.itemOff + later.1.alignedLen ≤ move.2 := by
  induction entries generalizing bound newUpper with
  | nil => exact List.Pairwise.nil
  | cons _ _ ih =>
    obtain ⟨_, _, descendingRest, lower⟩ := descending.tail room
    refine pairwise_cons.2 ⟨?_, ih descendingRest lower⟩
    intro later mem occupied
    have listed := mem_of_mem_placements mem
    exact (descendingRest.le listed occupied).trans lower

theorem clears (short : ∀ entry ∈ entries, entry.rawLen ≤ entry.alignedLen) :
    (placements newUpper entries).Pairwise ItemMove.Clears := by
  have both := (descending.stacked room).and (descending.ahead room)
  apply both.imp_of_mem
  rintro _ later - mem ⟨_, _⟩ _ _
  have listed := mem_of_mem_placements mem
  have shorter := short later.1 listed
  constructor
  all_goals
    rintro ⟨low, -⟩
    omega

theorem floor_le (start : floor ≤ newUpper)
    (above : ∀ entry ∈ entries, entry.alignedLen ≠ 0 → floor ≤ entry.itemOff) :
    floor ≤ finalUpper newUpper entries := by
  induction entries generalizing bound newUpper with
  | nil => exact start
  | cons entry rest ih =>
    have aboveRest : ∀ other ∈ rest, other.alignedLen ≠ 0 → floor ≤ other.itemOff :=
      fun other mem => above other (mem_cons_of_mem entry mem)
    have here := above entry mem_cons_self
    change floor ≤ finalUpper (newUpper - entry.alignedLen) rest
    rw [Descending] at descending
    split_ifs at descending with empty
    · apply ih descending _ _ aboveRest
      · omega
      · omega
    obtain ⟨_, descendingRest⟩ := descending
    apply ih descendingRest _ _ aboveRest
    · omega
    · omega

end

end

end Descending

theorem descending_of_sorted (sorted : entries.Pairwise fun left right =>
      right.itemOff ≤ left.itemOff) (apart : entries.Pairwise fun left right =>
      left.alignedLen ≠ 0 → right.alignedLen ≠ 0 → left.Apart right)
    (inside : ∀ entry ∈ entries, entry.alignedLen ≠ 0 → entry.itemOff + entry.alignedLen ≤ bound) :
    Descending bound entries := by
  induction entries generalizing bound with
  | nil => trivial
  | cons first _ ih =>
    obtain ⟨below, sortedRest⟩ := pairwise_cons.1 sorted
    obtain ⟨apartFirst, apartRest⟩ := pairwise_cons.1 apart
    rw [Descending]
    split_ifs with empty
    · apply ih sortedRest apartRest
      exact fun entry mem => inside entry (mem_cons_of_mem first mem)
    refine ⟨inside first mem_cons_self empty, ?_⟩
    apply ih sortedRest apartRest
    intro entry mem occupied
    have lower := below entry mem
    rcases apartFirst entry mem empty occupied with _ | under
    · omega
    · exact under

end PageData

end Pgcpp.Storage
