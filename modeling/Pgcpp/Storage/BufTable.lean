import Mathlib.Data.Finset.Card
import Pgcpp.Storage.BufInternals

/-!
# The hash table of the buffer pool

The hash table maps the tags of the tagged buffers, and nothing else, to their
buffers.  An insertion keeps this, and so does a deletion that does not cut the
path to another entry.
-/

namespace Pgcpp.Storage

open Lib Function BufferPool Finset

variable {P : Type}

/-! ## The size of the hash table -/

theorem le_doubleUntil (pos : 0 < size) (enough : target ≤ size + rounds) :
    target ≤ doubleUntil target rounds size ∧ 0 < doubleUntil target rounds size := by
  induction rounds generalizing size with
  | zero => exact ⟨by simpa [doubleUntil] using enough, pos⟩
  | succ rounds ih =>
    unfold doubleUntil
    split
    · apply ih
      · omega
      · omega
    · exact ⟨by omega, pos⟩

theorem lt_bufferHashTableSize (nBuffers : Nat) : nBuffers < bufferHashTableSize nBuffers := by
  have bounds := le_doubleUntil Nat.one_pos (show nBuffers * 2 ≤ 1 + nBuffers * 2 by omega)
  unfold bufferHashTableSize
  omega

/-! ## The hash table -/

/-- The hash table holds exactly the tags of the tagged buffers in `domain`.
Tags with an invalid block number cannot be stored. -/
structure TableCoherent (hash : BufferTag → Nat) (pool : BufferPool P)
    (domain : Nat → Prop) : Prop where
  probeable : Probeable pool.hashTableSize (pool.hashTableSlot hash)
    BufferHashEntry.isEmpty BufferHashEntry.tag pool.hashTable
  entries : ∀ slot < pool.hashTableSize, (pool.hashTable slot).isEmpty = false →
      (pool.hashTable slot).bufId < pool.nBuffers ∧
      domain (pool.hashTable slot).bufId ∧
      (pool.descriptors (pool.hashTable slot).bufId).tagged ∧
      (pool.descriptors (pool.hashTable slot).bufId).tag = (pool.hashTable slot).tag
  indexed : ∀ bufId < pool.nBuffers, domain bufId → (pool.descriptors bufId).tagged →
    (pool.descriptors bufId).tag.blockNum ≠ kInvalidBlockNumber →
    ∃ slot < pool.hashTableSize, pool.hashTable slot =
      { tag := (pool.descriptors bufId).tag, bufId := bufId }

/-- No path to another entry leads over the slots of the buffers that are to
be removed from the hash table. -/
def DeletionSafe (hash : BufferTag → Nat) (pool : BufferPool P) (removed : Nat → Prop) : Prop :=
  ∀ slot < pool.hashTableSize, (pool.hashTable slot).isEmpty = false →
    removed (pool.hashTable slot).bufId →
    OffPaths pool.hashTableSize (pool.hashTableSlot hash)
      BufferHashEntry.isEmpty BufferHashEntry.tag pool.hashTable slot

instance (hash : BufferTag → Nat) (pool : BufferPool P)
    (removed : Nat → Prop) [DecidablePred removed] : Decidable (DeletionSafe hash pool removed) :=
  inferInstanceAs (Decidable (∀ slot < pool.hashTableSize, _ → _ → _))

theorem isEmpty_iff {entry : BufferHashEntry} :
    entry.isEmpty ↔ entry.tag.blockNum = kInvalidBlockNumber :=
  decide_eq_true_iff

theorem isEmpty_eq_false (stored : tag.blockNum ≠ kInvalidBlockNumber) :
    BufferHashEntry.isEmpty { tag := tag, bufId := bufId } = false := by
  rw [← Bool.not_eq_true, isEmpty_iff]
  exact stored

section

variable {hash : BufferTag → Nat} {pool other : BufferPool P} {domain : Nat → Prop}

theorem hashTableSize_congr (sameSize : other.nBuffers = pool.nBuffers) :
    other.hashTableSize = pool.hashTableSize := by
  rw [hashTableSize, sameSize, hashTableSize]

theorem hashTableSlot_congr (sameSize : other.nBuffers = pool.nBuffers) :
    other.hashTableSlot hash = pool.hashTableSlot hash := by
  funext tag
  rw [hashTableSlot, hashTableSize_congr sameSize, hashTableSlot]

theorem DeletionSafe.of_fewer (safe : DeletionSafe hash pool removed)
    (sameSize : other.nBuffers = pool.nBuffers)
    (kept : ∀ slot, (other.hashTable slot).isEmpty = false →
      other.hashTable slot = pool.hashTable slot)
    (included : ∀ slot < pool.hashTableSize, (pool.hashTable slot).isEmpty = false →
      fewer (pool.hashTable slot).bufId →
      removed (pool.hashTable slot).bufId) : DeletionSafe hash other fewer := by
  unfold DeletionSafe
  rw [hashTableSize_congr sameSize, hashTableSlot_congr sameSize]
  intro slot inside occupied isRemoved
  have same := kept slot occupied
  rw [same] at occupied isRemoved
  exact (safe slot inside occupied (included slot inside occupied isRemoved)).of_fewer kept

namespace TableCoherent

variable (table : TableCoherent hash pool domain)

include table

theorem congr (sameSize : other.nBuffers = pool.nBuffers)
    (sameTable : other.hashTable = pool.hashTable) (same : ∀ bufId, domain bufId →
      (other.descriptors bufId).tagged = (pool.descriptors bufId).tagged ∧
      (other.descriptors bufId).tag = (pool.descriptors bufId).tag) :
    TableCoherent hash other domain := by
  have sameSlots := hashTableSize_congr sameSize
  constructor
  case probeable =>
    rw [sameSlots, hashTableSlot_congr sameSize, sameTable]
    exact table.probeable
  case entries =>
    rw [sameSlots, sameSize, sameTable]
    intro slot inside occupied
    obtain ⟨bound, within, tagged, tag⟩ := table.entries slot inside occupied
    obtain ⟨sameTagged, sameTag⟩ := same _ within
    exact ⟨bound, within, sameTagged.trans tagged, sameTag.trans tag⟩
  case indexed =>
    rw [sameSlots, sameSize, sameTable]
    intro bufId bound within tagged
    obtain ⟨sameTagged, sameTag⟩ := same bufId within
    rw [sameTagged] at tagged
    rw [sameTag]
    exact table.indexed bufId bound within tagged

theorem slot_unique (leftInside : left < pool.hashTableSize)
    (rightInside : right < pool.hashTableSize)
    (leftOccupied : (pool.hashTable left).isEmpty = false)
    (rightOccupied : (pool.hashTable right).isEmpty = false)
    (same : (pool.hashTable left).bufId = (pool.hashTable right).bufId) : left = right := by
  have leftTag := (table.entries left leftInside leftOccupied).2.2.2
  have rightTag := (table.entries right rightInside rightOccupied).2.2.2
  apply table.probeable.slot_unique leftInside rightInside leftOccupied rightOccupied
  rw [← leftTag, ← rightTag, same]

theorem exists_empty : ∃ slot < pool.hashTableSize, (pool.hashTable slot).isEmpty := by
  by_contra full
  push Not at full
  have occupied : ∀ slot < pool.hashTableSize, (pool.hashTable slot).isEmpty = false := by
    intro slot inside
    simpa using full slot inside
  have fits : Set.MapsTo (fun slot => (pool.hashTable slot).bufId)
      (range pool.hashTableSize) (range pool.nBuffers) := by
    intro slot inside
    have below := mem_range.1 (mem_coe.1 inside)
    exact mem_coe.2 (mem_range.2 (table.entries slot below (occupied slot below)).1)
  have injective : Set.InjOn (fun slot => (pool.hashTable slot).bufId)
      (range pool.hashTableSize) := by
    intro left leftInside right rightInside same
    have leftBelow := mem_range.1 (mem_coe.1 leftInside)
    have rightBelow := mem_range.1 (mem_coe.1 rightInside)
    exact table.slot_unique leftBelow rightBelow (occupied left leftBelow)
      (occupied right rightBelow) same
  have count := card_le_card_of_injOn _ fits injective
  rw [card_range, card_range] at count
  have more := lt_bufferHashTableSize pool.nBuffers
  unfold hashTableSize at count
  omega

theorem tag_ne_of_lookup_none (missing : pool.lookupBuffer hash tag = none)
    (inside : slot < pool.hashTableSize) (occupied : (pool.hashTable slot).isEmpty = false) :
    (pool.hashTable slot).tag ≠ tag := by
  rintro rfl
  have found := table.probeable.findSlot_eq inside occupied
  rw [lookupBuffer, probe, found] at missing
  simp [occupied] at missing

theorem bufId_unique (leftBound : left < pool.nBuffers) (rightBound : right < pool.nBuffers)
    (leftIn : domain left) (rightIn : domain right) (leftTagged : (pool.descriptors left).tagged)
    (rightTagged : (pool.descriptors right).tagged)
    (stored : (pool.descriptors left).tag.blockNum ≠ kInvalidBlockNumber)
    (same : (pool.descriptors left).tag = (pool.descriptors right).tag) : left = right := by
  obtain ⟨_, leftInside, leftEntry⟩ := table.indexed left leftBound leftIn leftTagged stored
  obtain ⟨_, rightInside, rightEntry⟩ :=
    table.indexed right rightBound rightIn rightTagged (same ▸ stored)
  rw [← same] at rightEntry
  obtain rfl := table.probeable.slot_unique leftInside rightInside
    (leftEntry ▸ isEmpty_eq_false stored)
    (rightEntry ▸ isEmpty_eq_false stored) (by rw [leftEntry, rightEntry])
  rw [leftEntry] at rightEntry
  exact congrArg BufferHashEntry.bufId rightEntry

omit table in
theorem exists_slot_of_lookup (found : pool.lookupBuffer hash tag = some bufId) :
    ∃ slot < pool.hashTableSize, (pool.hashTable slot).isEmpty = false ∧
      (pool.hashTable slot).tag = tag ∧ (pool.hashTable slot).bufId = bufId := by
  unfold lookupBuffer at found
  cases search : pool.probe hash tag with
  | none => simp [search] at found
  | some slot =>
    simp only [search] at found
    obtain ⟨_, _, _, place, _⟩ := findSlot_eq_some_iff.1 search
    cases occupied : (pool.hashTable slot).isEmpty with
    | true => simp [occupied] at found
    | false =>
      rw [occupied] at place
      refine ⟨slot, findSlot_lt search, occupied, ?_, ?_⟩
      · simpa using place
      · simpa [occupied] using found

theorem tag_of_lookup (found : pool.lookupBuffer hash tag = some bufId) :
    bufId < pool.nBuffers ∧ domain bufId ∧ (pool.descriptors bufId).tagged ∧
      (pool.descriptors bufId).tag = tag := by
  obtain ⟨slot, inside, occupied, rfl, rfl⟩ := exists_slot_of_lookup found
  exact table.entries slot inside occupied

omit table in
theorem tag_of_probe (found : pool.probe hash tag = some slot)
    (occupied : (pool.hashTable slot).isEmpty = false) : (pool.hashTable slot).tag = tag := by
  obtain ⟨_, _, _, place, _⟩ := findSlot_eq_some_iff.1 found
  rw [occupied] at place
  simpa using place

theorem delete_unstored (unstored : (pool.descriptors bufId).tag.blockNum = kInvalidBlockNumber) :
    pool.hashTableDelete hash (pool.descriptors bufId).tag = pool ∧
      TableCoherent hash pool (fun other => domain other ∧ other ≠ bufId) := by
  have apart : ∀ slot, (pool.hashTable slot).isEmpty = false →
      (pool.hashTable slot).tag ≠ (pool.descriptors bufId).tag := by
    intro slot occupied same
    rw [← same, ← isEmpty_iff, occupied] at unstored
    exact nomatch unstored
  refine ⟨?_, table.probeable, ?_, ?_⟩
  · unfold hashTableDelete
    cases search : pool.probe hash (pool.descriptors bufId).tag with
    | none => rfl
    | some slot =>
      cases occupied : (pool.hashTable slot).isEmpty with
      | true => simp [occupied]
      | false => exact absurd (tag_of_probe search occupied) (apart _ occupied)
  · intro slot inside occupied
    obtain ⟨below, within, tagged, tag⟩ := table.entries slot inside occupied
    refine ⟨below, ⟨within, ?_⟩, tagged, tag⟩
    intro same
    rw [same] at tag
    exact apart slot occupied tag.symm
  · intro other below within
    exact table.indexed other below within.1

theorem delete_stored (inside : slot < pool.hashTableSize)
    (occupied : (pool.hashTable slot).isEmpty = false) (holds : (pool.hashTable slot).bufId = bufId)
    (off : OffPaths pool.hashTableSize (pool.hashTableSlot hash)
      BufferHashEntry.isEmpty BufferHashEntry.tag pool.hashTable slot) : TableCoherent hash
      { pool with hashTable := update pool.hashTable slot .empty }
      (fun other => domain other ∧ other ≠ bufId) := by
  refine ⟨table.probeable.vacate rfl off, ?_, ?_⟩
  · intro other otherInside otherOccupied
    by_cases same : other = slot
    · subst same
      simp [BufferHashEntry.isEmpty, BufferHashEntry.empty, BufferTag.empty] at otherOccupied
    simp only [update_of_ne same] at otherOccupied ⊢
    obtain ⟨below, within, tagged, tag⟩ := table.entries other otherInside otherOccupied
    refine ⟨below, ⟨within, ?_⟩, tagged, tag⟩
    intro sameBuffer
    exact same (table.slot_unique otherInside inside otherOccupied occupied
      (sameBuffer.trans holds.symm))
  · rintro other below ⟨within, apart⟩ tagged stored
    obtain ⟨place, placeInside, entry⟩ := table.indexed other below within tagged stored
    have ne : place ≠ slot := by
      rintro rfl
      rw [entry] at holds
      exact apart holds
    refine ⟨place, placeInside, ?_⟩
    simp only [update_of_ne ne]
    exact entry

theorem delete (bound : bufId < pool.nBuffers) (within : domain bufId)
    (tagged : (pool.descriptors bufId).tagged) (safe : DeletionSafe hash pool (· = bufId)) :
    ∃ hashTable, pool.hashTableDelete hash (pool.descriptors bufId).tag =
        { pool with hashTable := hashTable } ∧
      (∀ slot, (hashTable slot).isEmpty = false → hashTable slot = pool.hashTable slot) ∧
      TableCoherent hash { pool with hashTable := hashTable }
        (fun other => domain other ∧ other ≠ bufId) := by
  by_cases stored : (pool.descriptors bufId).tag.blockNum = kInvalidBlockNumber
  · obtain ⟨unchanged, coherent⟩ := table.delete_unstored stored
    exact ⟨pool.hashTable, unchanged, fun _ _ => rfl, coherent⟩
  obtain ⟨slot, inside, entry⟩ := table.indexed bufId bound within tagged stored
  have occupied : (pool.hashTable slot).isEmpty = false := by
    rw [entry]
    exact isEmpty_eq_false stored
  have holds : (pool.hashTable slot).bufId = bufId := by rw [entry]
  have found : pool.probe hash (pool.descriptors bufId).tag = some slot := by
    have search := table.probeable.findSlot_eq inside occupied
    rwa [entry] at search
  refine ⟨update pool.hashTable slot .empty, ?_, ?_, ?_⟩
  · rw [hashTableDelete, found]
    simp [occupied]
  · intro other otherOccupied
    apply update_of_ne
    rintro rfl
    rw [update_self] at otherOccupied
    exact nomatch otherOccupied
  · exact table.delete_stored inside occupied holds (safe slot inside occupied holds)

theorem without_untagged (untagged : (pool.descriptors bufId).tagged = false) :
    TableCoherent hash pool (fun other => domain other ∧ other ≠ bufId) := by
  refine ⟨table.probeable, ?_, ?_⟩
  · intro slot inside occupied
    obtain ⟨bound, within, tagged, tag⟩ := table.entries slot inside occupied
    refine ⟨bound, ⟨within, ?_⟩, tagged, tag⟩
    intro same
    rw [same, untagged] at tagged
    exact nomatch tagged
  · intro other bound within
    exact table.indexed other bound within.1

omit table in
theorem with_untagged (table : TableCoherent hash pool (fun other => True ∧ other ≠ bufId))
    (untagged : (pool.descriptors bufId).tagged = false) :
    TableCoherent hash pool (fun _ => True) := by
  refine ⟨table.probeable, ?_, ?_⟩
  · intro slot inside occupied
    obtain ⟨bound, _, tagged, tag⟩ := table.entries slot inside occupied
    exact ⟨bound, trivial, tagged, tag⟩
  intro other bound _ tagged
  have ne : other ≠ bufId := by
    rintro rfl
    rw [untagged] at tagged
    exact nomatch tagged
  exact table.indexed other bound ⟨trivial, ne⟩ tagged

theorem remove (bound : bufId < pool.nBuffers) (within : domain bufId)
    (safe : (pool.descriptors bufId).tagged → DeletionSafe hash pool (· = bufId)) :
    ∃ hashTable, (if (pool.descriptors bufId).tagged then
        pool.hashTableDelete hash (pool.descriptors bufId).tag
      else pool) = { pool with hashTable := hashTable } ∧
      (∀ slot, (hashTable slot).isEmpty = false → hashTable slot = pool.hashTable slot) ∧
      TableCoherent hash { pool with hashTable := hashTable }
        (fun other => domain other ∧ other ≠ bufId) := by
  cases tagged : (pool.descriptors bufId).tagged with
  | true => exact table.delete bound within tagged (safe tagged)
  | false => exact ⟨pool.hashTable, rfl, fun _ _ => rfl, table.without_untagged tagged⟩

omit table in
theorem insert (table : TableCoherent hash pool (fun other => True ∧ other ≠ victim))
    (bound : victim < pool.nBuffers) (tagged : (pool.descriptors victim).tagged)
    (absent : ∀ slot < pool.hashTableSize, (pool.hashTable slot).isEmpty = false →
      (pool.hashTable slot).tag ≠ (pool.descriptors victim).tag) :
    ∃ hashTable, pool.hashTableInsert hash (pool.descriptors victim).tag victim =
        some { pool with hashTable := hashTable } ∧
      TableCoherent hash { pool with hashTable := hashTable } (fun _ => True) := by
  obtain ⟨_, freeInside, isFree⟩ := table.exists_empty
  obtain ⟨slot, found⟩ : ∃ slot, pool.probe hash (pool.descriptors victim).tag = some slot :=
    exists_findSlot freeInside isFree
  have inside : slot < pool.hashTableSize := findSlot_lt found
  have isEmpty : (pool.hashTable slot).isEmpty := by
    by_contra occupied
    rw [Bool.not_eq_true] at occupied
    exact absent slot inside occupied (tag_of_probe found occupied)
  refine ⟨_, by rw [hashTableInsert, found], ?_, ?_, ?_⟩
  · by_cases stored : (pool.descriptors victim).tag.blockNum = kInvalidBlockNumber
    · exact table.probeable.vacate (isEmpty_iff.2 stored)
        (table.probeable.offPaths_of_vacant isEmpty)
    · exact table.probeable.write (isEmpty_eq_false stored) found
  · intro other otherInside occupied
    by_cases same : other = slot
    · subst same
      simp only [update_self]
      exact ⟨bound, trivial, tagged, trivial⟩
    · simp only [update_of_ne same] at occupied ⊢
      obtain ⟨below, _, isTagged, tag⟩ := table.entries other otherInside occupied
      exact ⟨below, trivial, isTagged, tag⟩
  intro bufId below _ isTagged stored
  by_cases same : bufId = victim
  · subst same
    exact ⟨slot, inside, update_self ..⟩
  obtain ⟨place, placeInside, entry⟩ := table.indexed bufId below ⟨trivial, same⟩ isTagged stored
  have ne : place ≠ slot := by
    rintro rfl
    rw [entry, isEmpty_iff] at isEmpty
    exact stored isEmpty
  exact ⟨place, placeInside, (update_of_ne ne ..).trans entry⟩

end TableCoherent

end

end Pgcpp.Storage
