import Pgcpp.Access.GinExact
import Pgcpp.Access.HashExact
import Pgcpp.Access.Int32Keys

/-!
# Scans of hash and GIN indexes

Both access methods add a page to a chain when its pages are full.  Whatever is
inserted, in any order, a scan returns what was inserted.
-/

namespace Pgcpp.Access

open Storage Transaction List

section

variable (insertions : List IndexInsertion) (results : List Bool)

/-- The tuple identifiers of the insertions of a key that returned true. -/
def ginInserted (key : List UInt8) : List ItemPointerData :=
  ((insertions.zip results).filter fun pair =>
    pair.2 && btCompareKeys .int32 pair.1.key key = .eq).map
    fun pair => pair.1.tid

theorem filter_ginAccepted : ((ginAccepted insertions results).filter fun pair =>
      pair.1 = int32Key key).map Prod.snd = ginInserted insertions results key := by
  rw [ginAccepted, filter_map, map_map, filter_filter]
  have same : ((insertions.zip results).filter fun pair =>
      ((fun pair : BitVec 32 × ItemPointerData =>
        decide (pair.1 = int32Key key)) ∘
          fun pair : IndexInsertion × Bool => (int32Key pair.1.key, pair.1.tid)) pair && pair.2) =
      (insertions.zip results).filter fun pair =>
        pair.2 && decide (btCompareKeys .int32 pair.1.key key = .eq) := by
    apply filter_congr
    intro pair _
    rw [Function.comp_apply, Bool.and_comm]
    simp [btCompareKeys_int32_eq_iff]
  rw [same]
  rfl

theorem length_ginAccepted_le : (ginAccepted insertions results).length ≤ insertions.length := by
  rw [ginAccepted, length_map]
  apply Nat.le_trans (length_filter_le ..)
  rw [length_zip]
  exact Nat.min_le_left ..

end

/-- An equality scan of a hash index returns the tuple identifiers that were
inserted with the key, and a scan of the whole index returns all of them.  An
equality scan of a GIN index returns the tuple identifiers of the insertions of
the key that returned true.  Insertions return while there are block numbers. -/
theorem postingChains_exact : (∀ (kind : BTKeyKind) (entries : List IndexEntry),
      KeysValid kind entries → (kHashDefaultBuckets + 1 + entries.length ≤ kInvalidBlockNumber →
        ∀ fuel, kHashDefaultBuckets + 1 + entries.length ≤ fuel →
          (hashInsertAll fuel kind entries).isSome) ∧
      ∀ fuel index, hashInsertAll fuel kind entries = some index →
        ∀ scanFuel calls, index.nblocks ≤ scanFuel → entries.length < calls →
          (∀ key, ∃ tids, hashgetbitmap scanFuel calls kind index ⟨some key, .equal⟩ = some tids ∧
            tids.Perm ((entries.filter fun entry =>
              btCompareKeys kind entry.1 key = .eq).map Prod.snd)) ∧
          ∀ scanKey : BTScanKeyData, scanKey.strategy ≠ .equal → ∃ tids,
              hashgetbitmap scanFuel calls kind index scanKey = some tids ∧
              tids.Perm (entries.map Prod.snd)) ∧
    ∀ insertions : List IndexInsertion, (2 + insertions.length ≤ kInvalidBlockNumber →
        ∀ fuel, 2 + insertions.length ≤ fuel → (ginInsertAll fuel insertions).isSome) ∧
      ∀ fuel index results, ginInsertAll fuel insertions = some (index, results) →
        ∀ scanFuel calls, index.nblocks ≤ scanFuel → insertions.length < calls →
          ∀ key, ∃ tids, gingetbitmap scanFuel calls index ⟨some key, .equal⟩ = some tids ∧
            tids.Perm (ginInserted insertions results key) := by
  refine ⟨?_, ?_⟩
  · intro kind entries valid
    have empty := hashHolds_build kind
    refine ⟨?_, ?_⟩
    · intro room fuel enough
      exact empty.isSome_insertAll valid room enough
    intro fuel index ran scanFuel calls pages enough
    obtain ⟨items, chains, holds⟩ := empty.insertAll valid ran
    refine ⟨?_, ?_⟩
    · intro key
      exact holds.equalScan valid key pages enough
    · intro scanKey full
      exact holds.fullScan full pages enough
  · intro insertions
    refine ⟨?_, ?_⟩
    · intro room fuel enough
      exact ginHolds_build.isSome_runCalls insertions room enough
    intro fuel index results ran scanFuel calls pages enough key
    obtain ⟨⟨items, chains, _, holds⟩, -⟩ := ginHolds_build.runCalls ran
    rw [nil_append] at holds
    have short := length_ginAccepted_le insertions results
    obtain ⟨tids, scanned, same⟩ := holds.equalScan key pages (short.trans_lt enough)
    rw [filter_ginAccepted] at same
    exact ⟨tids, scanned, same⟩

theorem postingChains_exact_overflowing : (∃ index, hashInsertAll 1017 .int32
        (replicate 1000 ([1, 0, 0, 0], ⟨7, 1⟩)) = some index ∧
      ∃ tids, hashgetbitmap index.nblocks 1001 .int32 index
          ⟨some [1, 0, 0, 0], .equal⟩ = some tids ∧ tids.Perm (replicate 1000 ⟨7, 1⟩)) ∧
    ∃ index results, ginInsertAll 1002 (replicate 1000 ⟨.int32, [1, 0, 0, 0], ⟨7, 1⟩⟩) =
        some (index, results) ∧
      ∃ tids, gingetbitmap index.nblocks 1001 index ⟨some [1, 0, 0, 0], .equal⟩ = some tids ∧
        tids.Perm (ginInserted (replicate 1000 ⟨.int32, [1, 0, 0, 0], ⟨7, 1⟩⟩)
          results [1, 0, 0, 0]) := by
  refine ⟨?_, ?_⟩
  · obtain ⟨returns, scans⟩ := postingChains_exact.1 .int32
      (replicate 1000 ([1, 0, 0, 0], ⟨7, 1⟩)) fun _ member =>
        eq_of_mem_replicate member ▸ rfl
    rw [length_replicate] at returns scans
    obtain ⟨index, ran⟩ := Option.isSome_iff_exists.1 (returns (by decide) 1017 (by decide))
    have scanned := (scans 1017 index ran _ 1001 le_rfl (by decide)).1 [1, 0, 0, 0]
    rw [filter_replicate, if_pos (by decide), map_replicate] at scanned
    exact ⟨index, ran, scanned⟩
  obtain ⟨returns, scans⟩ := postingChains_exact.2
    (replicate 1000 ⟨.int32, [1, 0, 0, 0], ⟨7, 1⟩⟩)
  rw [length_replicate] at returns scans
  obtain ⟨⟨index, results⟩, ran⟩ :=
    Option.isSome_iff_exists.1 (returns (by decide) 1002 (by decide))
  exact ⟨index, results, ran,
    scans 1002 index results ran _ 1001 le_rfl (by decide) [1, 0, 0, 0]⟩

end Pgcpp.Access
