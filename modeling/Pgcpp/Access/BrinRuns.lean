import Pgcpp.Access.BrinInsert

/-!
# Runs of a BRIN index

As long as every insertion finds room on its range page, no page has a
successor, every change is marked as dirty, and a scan returns each tuple whose
key satisfies the strategy.
-/

namespace Pgcpp.Access

open Lib Storage Transaction IndexFile PageCache BrinStep
open List hiding after all chains count range

/-- The block of the range page for a tuple. -/
def brinRangeBlock (tid : ItemPointerData) : Nat :=
  tid.ipBlkid.toNat / kBrinDefaultPagesPerRange + 1

def brinEntries (entries : List IndexEntry) (block : Nat) : List IndexEntry :=
  entries.filter fun entry => brinRangeBlock entry.2 == block

/-- The pages of an index with the given entries. -/
structure BrinPages (index : BrinIndex) (entries : List IndexEntry) : Prop where
  perRange : index.metaPage.pagesPerRange = kBrinDefaultPagesPerRange
  positive : 0 < index.nblocks
  bounded : index.nblocks ≤ 2 ^ 28 + 1
  sound : index.cache.Sound index.nblocks
  range : ∀ block, 0 < block → block < index.nblocks →
    BrinRange (index.cache.read block) (brinEntries entries block)
  inside : ∀ entry ∈ entries, brinRangeBlock entry.2 < index.nblocks

/-- The meta page counts all blocks. -/
structure BrinHolds (index : BrinIndex) (entries : List IndexEntry) : Prop where
  pages : BrinPages index entries
  counted : index.metaPage.nblocks = index.nblocks

variable {index : BrinIndex} {entries : List IndexEntry}

theorem brinRangeBlock_le (tid : ItemPointerData) : brinRangeBlock tid ≤ 2 ^ 28 := by
  rw [brinRangeBlock, kBrinDefaultPagesPerRange]
  omega

theorem brinHolds_build : BrinHolds brinbuild [] := by
  refine ⟨⟨rfl, Nat.one_pos, ?_, ?_, ?_, ?_⟩, rfl⟩
  · exact Nat.le_add_left 1 _
  · refine ⟨?_, fun _ _ => rfl⟩
    intro block _ buffered
    exact absurd buffered (by simp [brinbuild])
  · intro block pos inside
    exact absurd inside (not_lt.2 pos)
  · intro _ mem
    exact absurd mem not_mem_nil

/-! ## Range pages are created -/

theorem BrinPages.createRangePage (pages : BrinPages index entries)
    (small : index.nblocks ≤ 2 ^ 28) : BrinPages (brinCreateRangePage index index.nblocks) entries ∧
      (brinCreateRangePage index index.nblocks).nblocks = index.nblocks + 1 := by
  have counted : (brinCreateRangePage index index.nblocks).nblocks =
      index.nblocks + 1 := Nat.max_eq_right (Nat.le_succ _)
  refine ⟨⟨pages.perRange, ?_, ?_, ?_, ?_, ?_⟩, counted⟩
  · rw [counted]
    exact Nat.succ_pos _
  · rw [counted]
    exact Nat.succ_le_succ small
  · rw [counted]
    exact pages.sound.extend _
  · intro block pos inside
    rw [counted] at inside
    rcases Nat.lt_succ_iff_lt_or_eq.1 inside with old | rfl
    · have same : (brinCreateRangePage index index.nblocks).cache.read block =
          index.cache.read block :=
        read_extend_of_ne old.ne
      rw [same]
      exact pages.range block pos old
    have new : (brinCreateRangePage index index.nblocks).cache.read
          index.nblocks = btInitPage kBrinRangePage 0 :=
      pages.sound.read_extend_self le_rfl
    have none : brinEntries entries index.nblocks = [] := by
      apply filter_eq_nil_iff.2
      intro entry mem
      have below := pages.inside entry mem
      simp only [beq_iff_eq]
      omega
    rw [new, none]
    exact brinRange_init
  · intro entry mem
    rw [counted]
    exact Nat.lt_succ_of_lt (pages.inside entry mem)

theorem BrinPages.createRangePages (count : Nat) (pages : BrinPages index entries)
    (small : index.nblocks + count ≤ 2 ^ 28 + 1) :
    BrinPages ((List.range' index.nblocks count).foldl brinCreateRangePage index) entries ∧
      ((List.range' index.nblocks count).foldl brinCreateRangePage
        index).nblocks = index.nblocks + count := by
  induction count generalizing index with
  | zero => exact ⟨pages, rfl⟩
  | succ count ih =>
    obtain ⟨created, counted⟩ := pages.createRangePage (by omega)
    rw [range'_succ, foldl_cons, ← counted]
    have later := ih created (by rw [counted]; omega)
    refine ⟨later.1, ?_⟩
    omega

theorem brinAddTid_of_hasSpace (read : index.cache.read block = page)
    (space : hasSpace page item) : brinAddTid item (fuel + 1) index block =
      some ((index.write block (addTo page item)).markBufferDirty block) := by
  subst read
  rw [brinAddTid, if_pos space]

theorem brinAddTid_of_written (space : hasSpace page item) :
    brinAddTid item (fuel + 1) (index.write block page) block =
      some ((index.write block (addTo page item)).markBufferDirty block) := by
  have again : (index.write block page).write block (addTo page item) =
        index.write block (addTo page item) := by
    simp [BrinIndex.write, PageCache.write]
  rw [brinAddTid_of_hasSpace read_write_self space, again]

section

variable (holds : BrinHolds index entries)

include holds

theorem BrinHolds.brinEnsureRangePage (tid : ItemPointerData) :
    ∃ ensured, brinEnsureRangePage index (tid.ipBlkid.toNat / kBrinDefaultPagesPerRange) =
          (ensured, brinRangeBlock tid) ∧
      BrinHolds ensured entries ∧ brinRangeBlock tid < ensured.nblocks := by
  have bound := brinRangeBlock_le tid
  rw [Access.brinEnsureRangePage, ← brinRangeBlock, holds.counted]
  split_ifs with present
  · exact ⟨index, rfl, holds, present⟩
  obtain ⟨created, counted⟩ := holds.pages.createRangePages
    (brinRangeBlock tid + 1 - index.nblocks) (by omega)
  have total : index.nblocks + (brinRangeBlock tid + 1 - index.nblocks) =
      brinRangeBlock tid + 1 := by omega
  rw [total] at counted
  refine ⟨_, rfl, ⟨⟨created.perRange, created.positive, created.bounded,
    created.sound, created.range, created.inside⟩, counted.symm⟩, ?_⟩
  exact Nat.lt_of_lt_of_eq (lt_add_one _) counted.symm

theorem BrinHolds.replaced (inside : brinRangeBlock tid < index.nblocks)
    (range : BrinRange page (brinEntries entries (brinRangeBlock tid) ++ [(key, tid)])) :
    BrinHolds ((index.write (brinRangeBlock tid) page).markBufferDirty (brinRangeBlock tid))
      (entries ++ [(key, tid)]) := by
  have pages := holds.pages
  refine ⟨⟨pages.perRange, pages.positive, pages.bounded,
    pages.sound.write_markDirty inside, ?_, ?_⟩, holds.counted⟩
  · intro block pos below
    have read : ((index.write (brinRangeBlock tid) page).markBufferDirty
        (brinRangeBlock tid)).cache.read block =
          (index.cache.write (brinRangeBlock tid) page).read block :=
      read_markDirty
    rw [read, brinEntries, filter_append]
    by_cases same : block = brinRangeBlock tid
    · rw [same, filter_cons_of_pos (by simp), read_write_self]
      exact range
    · rw [filter_cons_of_neg (by simpa using Ne.symm same), filter_nil, append_nil,
        read_write_of_ne same]
      exact pages.range block pos below
  · exact forall_mem_append.2 ⟨pages.inside, forall_mem_singleton.2 inside⟩

/-- An insertion brings the summary of its range page up to date and then adds
the tuple identifier. -/
theorem BrinHolds.brininsert_eq :
    ∃ ensured page summary, (∀ fuel, brininsert fuel index .int32 key tid =
        (brinAddTid (tidBytes tid) fuel (ensured.write (brinRangeBlock tid) page)
          (brinRangeBlock tid)).map fun after => (after, true)) ∧ BrinHolds ensured entries ∧
      brinRangeBlock tid < ensured.nblocks ∧
      BrinSummarized page summary (brinEntries entries (brinRangeBlock tid)) ∧
      BrinBounds summary (brinEntries entries (brinRangeBlock tid) ++ [(key, tid)]) := by
  obtain ⟨ensured, isEnsured, holdsEnsured, inside⟩ := holds.brinEnsureRangePage tid
  have range := holdsEnsured.pages.range (brinRangeBlock tid) (Nat.succ_pos _) inside
  obtain ⟨summary, summarized, bounds⟩ := range.brinSummarize
    (BitVec.ofNat 32 (tid.ipBlkid.toNat / kBrinDefaultPagesPerRange *
      kBrinDefaultPagesPerRange)) key tid
  refine ⟨ensured, _, summary, ?_, holdsEnsured, inside, summarized, bounds⟩
  intro fuel
  rw [brininsert, if_neg (not_not.2 rfl), holds.pages.perRange]
  dsimp only
  rw [isEnsured]

theorem BrinHolds.brininsert (key : List UInt8) (tid : ItemPointerData) (fuel : Nat)
    (room : (brinEntries entries (brinRangeBlock tid)).length < brinRangeCapacity) :
    ∃ after, brininsert (fuel + 1) index .int32 key tid = some (after, true) ∧
      BrinHolds after (entries ++ [(key, tid)]) := by
  obtain ⟨ensured, page, summary, inserts, holdsEnsured, inside, summarized,
    bounds⟩ := holds.brininsert_eq
  have space : hasSpace page (tidBytes tid) := (summarized.hasSpace_iff (key, tid)).2 room
  have added := summarized.addTo (key, tid) room
  have range : BrinRange (addTo page (tidBytes tid))
      (brinEntries entries (brinRangeBlock tid) ++ [(key, tid)]) :=
    ⟨added.formed, added.last, .inr ⟨summary, added, bounds⟩⟩
  refine ⟨_, ?_, holdsEnsured.replaced inside range⟩
  rw [inserts, brinAddTid_of_written space]
  rfl

/-- What a step adds to the entries. -/
def BrinStep.added : BrinStep → List IndexEntry
  | .insert insertion => attemptedEntries [insertion]
  | .load _ => []
  | .evict _ => []

theorem BrinHolds.cached (sound : cache.Sound index.nblocks)
    (same : ∀ block, cache.read block = index.cache.read block) :
    BrinHolds { index with cache := cache } entries := by
  have pages := holds.pages
  refine ⟨⟨pages.perRange, pages.positive, pages.bounded, sound, ?_, pages.inside⟩, holds.counted⟩
  intro block pos inside
  rw [same]
  exact pages.range block pos inside

/-- An insertion of an integer finds its range page with room. -/
def BrinStep.HasRoom (entries : List IndexEntry) : BrinStep → Prop
  | .insert insertion => insertion.kind = .int32 →
      (brinEntries entries (brinRangeBlock insertion.tid)).length < brinRangeCapacity
  | .load _ => True
  | .evict _ => True

theorem BrinHolds.brinStep (room : step.HasRoom entries) (fuel : Nat) :
    ∃ after result, brinStep (fuel + 1) index step = some (after, result) ∧
      BrinHolds after (entries ++ step.added) := by
  cases step with
  | insert insertion =>
    obtain ⟨kind, key, tid⟩ := insertion
    by_cases integer : kind = .int32
    · subst integer
      obtain ⟨after, inserted, holdsAfter⟩ := holds.brininsert key tid fuel (room rfl)
      exact ⟨after, true, inserted, holdsAfter⟩
    refine ⟨index, false, if_pos integer, ?_⟩
    have none : added (.insert ⟨kind, key, tid⟩) = [] := by simp [added, attemptedEntries, integer]
    rw [none, append_nil]
    exact holds
  | load block =>
    refine ⟨_, true, rfl, ?_⟩
    rw [added, append_nil]
    split_ifs with inside
    · exact holds.cached (holds.pages.sound.load inside) (read_load block)
    · exact holds
  | evict block =>
    refine ⟨_, true, rfl, ?_⟩
    rw [added, append_nil]
    exact holds.cached (holds.pages.sound.evict block) (holds.pages.sound.read_evict block)

end

/-- Every insertion of a run finds room, after the given entries. -/
def BrinRoom (entries : List IndexEntry) : List BrinStep → Prop
  | [] => True
  | step :: rest => step.HasRoom entries ∧ BrinRoom (entries ++ step.added) rest

def brinInserted (steps : List BrinStep) : List IndexEntry := steps.flatMap added

theorem BrinHolds.runCalls (fuel : Nat) (holds : BrinHolds index entries)
    (room : BrinRoom entries steps) :
    ∃ after results, runCalls (Access.brinStep (fuel + 1)) index steps = some (after, results) ∧
      BrinHolds after (entries ++ brinInserted steps) := by
  induction steps generalizing index entries with
  | nil =>
    refine ⟨index, [], rfl, ?_⟩
    rw [brinInserted, flatMap_nil, append_nil]
    exact holds
  | cons _ _ ih =>
    obtain ⟨_, result, taken, holdsNext⟩ := holds.brinStep room.1 fuel
    obtain ⟨last, results, ran, holdsLast⟩ := ih holdsNext room.2
    refine ⟨last, result :: results, runCalls_cons taken ran, ?_⟩
    rw [brinInserted, flatMap_cons, ← append_assoc]
    exact holdsLast

/-- The items of the pages of an index. -/
def BrinIndex.items (index : BrinIndex) (block : Nat) : List (List UInt8) :=
  btReadAllItems (index.cache.read block).page

theorem BrinRange.holds (range : BrinRange page entries) :
    Holds page.page (btReadAllItems page.page) := by
  rcases range.held with ⟨_, holds⟩ | ⟨_, summarized, _⟩
  · rw [holds.readAllItems]
    exact holds
  · rw [summarized.holds.readAllItems]
    exact summarized.holds

section

variable (holds : Holds (index.cache.read block).page held)

include holds

theorem Holds.items : Holds (index.file.pages block).page (index.items block) := by
  rw [BrinIndex.items, holds.readAllItems]
  exact holds

theorem brinChain_single (last : (index.cache.read block).special.btpoNext = 0)
    (inside : block < index.nblocks) : index.file.Chain index.items block [block] := by
  refine ⟨?_, ?_, ?_⟩
  · apply ChainFrom.cons
    rw [next_eq_none last]
    exact .nil
  · intro other mem
    obtain rfl := mem_singleton.1 mem
    exact holds.items
  · intro other mem
    obtain rfl := mem_singleton.1 mem
    exact inside

theorem brinChain_cons (linked : (index.cache.read block).special.btpoNext = second)
    (pos : second ≠ 0) (inside : block < index.nblocks)
    (chain : index.file.Chain index.items second rest) :
    index.file.Chain index.items block (block :: rest) := by
  refine ⟨?_, ?_, ?_⟩
  · apply ChainFrom.cons
    rw [next_eq_some linked pos]
    exact chain.linked
  · exact forall_mem_cons.2 ⟨holds.items, chain.held⟩
  · exact forall_mem_cons.2 ⟨inside, chain.below⟩

end

theorem BrinHolds.brinChains (holds : BrinHolds index entries) (pos : 0 < fuel) :
    BrinChains index index.items (fun block => [block]) fuel := by
  intro block isRange inside
  rw [holds.counted] at inside
  have range := holds.pages.range block isRange inside
  exact ⟨brinChain_single range.holds range.last inside, pos⟩

variable {scanKey : BTScanKeyData}

theorem brinRangeMatches_of_satisfies (lower : summary.min.toInt ≤ (int32Key key).toInt)
    (upper : (int32Key key).toInt ≤ summary.max.toInt) (satisfies : Satisfies .int32 scanKey key) :
    brinRangeMatches summary scanKey := by
  have matched := (int32EntryMatches_iff).2 satisfies
  obtain ⟨_ | search, strategy⟩ := scanKey
  · cases strategy <;> simp [brinRangeMatches]
  cases strategy with
  | all => simp [brinRangeMatches]
  | equal =>
    have same : int32Key key = int32Key search := by simpa [int32EntryMatches] using matched
    rw [same] at lower upper
    simp [brinRangeMatches, lower, upper]
  | less | lessEqual | greater | greaterEqual =>
    simp only [int32EntryMatches, brinRangeMatches, decide_eq_true_eq,
      reduceCtorEq, if_false] at matched ⊢
    omega

section

variable (holds : BrinHolds index entries) (mem : entry ∈ entries)
  (satisfies : Satisfies .int32 scanKey entry.1)

include holds mem satisfies

/-- A range page is not skipped when one of its entries is looked for. -/
theorem BrinHolds.mem_brinRangeItems : brinTidItem entry ∈ brinRangeItems index index.items
      (fun block => [block]) scanKey (brinRangeBlock entry.2) := by
  have range := holds.pages.range (brinRangeBlock entry.2) (Nat.succ_pos _)
    (holds.pages.inside entry mem)
  have listed : entry ∈ brinEntries entries (brinRangeBlock entry.2) := mem_filter.2 ⟨mem, by simp⟩
  rcases range.held with ⟨none, _⟩ | ⟨summary, summarized, bounds⟩
  · rw [none] at listed
    exact absurd listed not_mem_nil
  obtain ⟨lower, upper⟩ := bounds entry listed
  have visited : ¬(!summary.hasData || !brinRangeMatches summary scanKey) := by
    simp [summarized.hasData, brinRangeMatches_of_satisfies lower upper satisfies]
  rw [brinRangeItems, brinGetSummary_of_holds summarized.holds, if_neg visited, flatMap_singleton,
    BrinIndex.items, range.drop_items]
  exact mem_map_of_mem listed

theorem BrinHolds.mem_brinItemsFrom :
    brinTidItem entry ∈ brinItemsFrom index index.items (fun block => [block]) scanKey 1 := by
  have inside := holds.pages.inside entry mem
  apply mem_flatMap.2
  refine ⟨brinRangeBlock entry.2, mem_range'_1.2 ⟨?_, ?_⟩, holds.mem_brinRangeItems mem satisfies⟩
  · exact Nat.succ_pos _
  · rw [holds.counted]
    omega

end

/-- A scan returns these tuple identifiers, given enough steps. -/
def BrinScans (index : BrinIndex) (scanKey : BTScanKeyData) (tids : List ItemPointerData) : Prop :=
  ∀ fuel calls, index.metaPage.nblocks + 1 < fuel → tids.length < calls →
    brinDrain fuel calls index scanKey = some tids

theorem BrinHolds.scans (holds : BrinHolds index entries) (scanKey : BTScanKeyData) :
    BrinScans index scanKey ((brinItemsFrom index index.items
      (fun block => [block]) scanKey 1).map btItemTid) := by
  intro _ _ _ many
  rw [length_map] at many
  exact brinDrain_eq (holds.brinChains (by omega)) (by omega) many

/-- When every insertion of a run finds room on its range page, the run returns
and a scan of the index returns every tuple whose key satisfies the strategy. -/
theorem brinScans_complete (fuel : Nat) (steps : List BrinStep)
    (room : BrinRoom [] steps) (scanKey : BTScanKeyData) :
    ∃ index results tids, brinRun (fuel + 1) steps = some (index, results) ∧
      BrinScans index scanKey tids ∧
      ∀ entry ∈ brinInserted steps, Satisfies .int32 scanKey entry.1 → entry.2 ∈ tids := by
  obtain ⟨index, results, ran, holds⟩ := brinHolds_build.runCalls fuel room
  refine ⟨index, results, _, ran, holds.scans scanKey, ?_⟩
  intro entry member satisfies
  apply mem_map.2
  exact ⟨brinTidItem entry, holds.mem_brinItemsFrom member satisfies, btItemTid_tidBytes⟩

/-- Two ranges, with a buffer that is given up in between. -/
theorem brinScans_complete_two : ∃ index results tids,
      brinRun 1 [.insert ⟨.int32, [7, 0, 0, 0], ⟨3#32, 1#16⟩⟩, .evict 1,
        .insert ⟨.int32, [9, 0, 0, 0], ⟨40#32, 2#16⟩⟩] = some (index, results) ∧
      BrinScans index ⟨some [8, 0, 0, 0], .less⟩ tids ∧ ⟨3#32, 1#16⟩ ∈ tids := by
  obtain ⟨index, results, tids, ran, scans, complete⟩ :=
    brinScans_complete 0 [.insert ⟨.int32, [7, 0, 0, 0], ⟨3#32, 1#16⟩⟩,
      .evict 1, .insert ⟨.int32, [9, 0, 0, 0], ⟨40#32, 2#16⟩⟩]
      ⟨fun _ => by decide, trivial, fun _ => by decide, trivial⟩
      ⟨some [8, 0, 0, 0], .less⟩
  exact ⟨index, results, tids, ran, scans,
    complete ([7, 0, 0, 0], ⟨3#32, 1#16⟩) mem_cons_self (by decide)⟩

/-! ## The first page of an overflow chain -/

/-- The index after a tuple identifier went to a new overflow page. -/
def brinOverflowed (index : BrinIndex) (block : Nat) (page : BTPage)
    (item : List UInt8) : BrinIndex :=
  (((((index.write block page).smgrextend index.nblocks (btInitPage kBrinOverflow 0)).write block
      (linkTo page index.nblocks)).markBufferDirty block).write index.nblocks
          (addTo (btInitPage kBrinOverflow 0) item)).markBufferDirty index.nblocks

theorem brinOverflowed_read_new : (brinOverflowed index block page item).cache.read index.nblocks =
      addTo (btInitPage kBrinOverflow 0) item := by
  rw [brinOverflowed, BrinIndex.markBufferDirty, read_markDirty, BrinIndex.write, read_write_self]

theorem brinOverflowed_read_of_ne {other : Nat} (ne : other ≠ index.nblocks) :
    (brinOverflowed index block page item).cache.read other =
      (index.cache.write block (linkTo page index.nblocks)).read other := by
  simp only [brinOverflowed, BrinIndex.markBufferDirty, BrinIndex.write, BrinIndex.smgrextend,
    read_markDirty, read_write_of_ne ne]
  by_cases same : other = block
  · rw [same, read_write_self, read_write_self]
  · rw [read_write_of_ne same, read_extend_of_ne ne, read_write_of_ne same, read_write_of_ne same]

theorem hasSpace_init : hasSpace (btInitPage kBrinOverflow 0) (brinTidItem entry) := by
  apply (hasSpace_iff (holds_init ..)).2
  rw [itemCost_brinTidItem]
  exact (by decide : 0 + 12 ≤ pageCapacity)

theorem BrinPages.brinAddTid {summary : BrinSummaryData} {page : BTPage} {held : List IndexEntry}
    {entry : IndexEntry} {block : Nat} (pages : BrinPages index entries)
    (inside : block < index.nblocks) (summarized : BrinSummarized page summary held)
    (full : brinRangeCapacity ≤ held.length) (fuel : Nat) :
    brinAddTid (brinTidItem entry) (fuel + 2) (index.write block page) block =
      some (brinOverflowed index block page (brinTidItem entry)) := by
  have noSpace : ¬hasSpace page (brinTidItem entry) := by
    rw [summarized.hasSpace_iff entry]
    exact not_lt.2 full
  have small : (index.write block page).nblocks < kInvalidBlockNumber := by
    have bounded : (index.write block page).nblocks ≤ 2 ^ 28 + 1 := pages.bounded
    rw [kInvalidBlockNumber]
    omega
  have ne : index.nblocks ≠ block := inside.ne'
  have unbuffered : ((index.cache.write block page).extend index.nblocks
      (btInitPage kBrinOverflow 0)).buffers index.nblocks = none :=
    (Function.update_of_ne ne ..).trans (pages.sound.inside _ le_rfl)
  have fresh : ((((index.write block page).smgrextend index.nblocks
      (btInitPage kBrinOverflow 0)).write block (linkTo page index.nblocks)).markBufferDirty
          block).cache.read index.nblocks = btInitPage kBrinOverflow 0 := by
    rw [BrinIndex.markBufferDirty, read_markDirty, BrinIndex.write, read_write_of_ne ne,
      BrinIndex.smgrextend, BrinIndex.write, read_of_unbuffered unbuffered]
    exact Function.update_self ..
  have read : (index.write block page).cache.read block = page := read_write_self
  rw [Access.brinAddTid, read, if_neg noSpace, if_pos summarized.last]
  rw [if_pos small]
  exact brinAddTid_of_hasSpace fresh hasSpace_init

/-- The chains after the first overflow page was created. -/
def brinOverflowChains (block overflow : Nat) (other : Nat) : List Nat :=
  if other = block then [block, overflow] else [other]

section

variable {summary : BrinSummaryData} {page : BTPage} {entry : IndexEntry}

theorem BrinPages.drop_overflowed (pages : BrinPages index entries)
    (summarized : BrinSummarized page summary (brinEntries entries block))
    (pos : 0 < other) (inside : other < index.nblocks) :
    ((brinOverflowed index block page (brinTidItem entry)).items other).drop 1 =
      (brinEntries entries other).map brinTidItem := by
  rw [BrinIndex.items, brinOverflowed_read_of_ne inside.ne]
  by_cases same : other = block
  · rw [same, read_write_self]
    show (btReadAllItems page.page).drop 1 = _
    rw [summarized.holds.readAllItems]
    rfl
  · rw [read_write_of_ne same]
    exact (pages.range other pos inside).drop_items

theorem holds_overflowPage : Holds ((brinOverflowed index block page
      (brinTidItem entry)).cache.read index.nblocks).page [brinTidItem entry] := by
  rw [brinOverflowed_read_new]
  exact holds_addTo (holds_init ..) hasSpace_init

theorem BrinPages.chain_overflowed (pages : BrinPages index entries)
    (summarized : BrinSummarized page summary (brinEntries entries block))
    (pos : 0 < other) (inside : other < index.nblocks) :
    (brinOverflowed index block page (brinTidItem entry)).file.Chain
      (brinOverflowed index block page (brinTidItem entry)).items other
        (brinOverflowChains block index.nblocks other) := by
  have counted : (brinOverflowed index block page
      (brinTidItem entry)).nblocks = index.nblocks + 1 :=
    Nat.max_eq_right (Nat.le_succ _)
  have below : other < (brinOverflowed index block page (brinTidItem entry)).nblocks := by
    rw [counted]
    exact Nat.lt_succ_of_lt inside
  have read := @brinOverflowed_read_of_ne index block page (brinTidItem entry) other inside.ne
  rw [brinOverflowChains]
  split_ifs with same
  · subst same
    rw [read_write_self] at read
    have overflow : (brinOverflowed index other page (brinTidItem entry)).file.Chain
          (brinOverflowed index other page (brinTidItem entry)).items
            index.nblocks [index.nblocks] := by
      apply brinChain_single holds_overflowPage
      · rw [brinOverflowed_read_new]
        rfl
      · rw [counted]
        exact lt_add_one _
    apply brinChain_cons _ _ _ below overflow
    · exact summary.bytes :: (brinEntries entries other).map brinTidItem
    · rw [read]
      exact summarized.holds
    · rw [read]
      rfl
    · exact Nat.ne_of_gt (Nat.zero_lt_of_lt inside)
  · rw [read_write_of_ne same] at read
    have range := pages.range other pos inside
    apply brinChain_single _ _ below
    · exact btReadAllItems (index.cache.read other).page
    · rw [read]
      exact range.holds
    · rw [read]
      exact range.last

theorem BrinPages.mem_overflowed (pages : BrinPages index entries)
    (summarized : BrinSummarized page summary (brinEntries entries block))
    (pos : 0 < other) (inside : other < index.nblocks)
    (mem : item ∈ brinRangeItems (brinOverflowed index block page (brinTidItem entry))
      (brinOverflowed index block page (brinTidItem entry)).items
      (brinOverflowChains block index.nblocks) scanKey other) :
    ∃ found ∈ entries, item = brinTidItem found := by
  have listed : item ∈ (brinEntries entries other).map brinTidItem := by
    rw [brinRangeItems] at mem
    split_ifs at mem with skipped
    · exact absurd mem not_mem_nil
    obtain ⟨place, onChain, isItem⟩ := mem_flatMap.1 mem
    have chainEnd : place = other ∨ place = index.nblocks := by
      rw [brinOverflowChains] at onChain
      split_ifs at onChain with same
      · subst same
        simpa using onChain
      · exact .inl (mem_singleton.1 onChain)
    rcases chainEnd with rfl | rfl
    · rwa [pages.drop_overflowed summarized pos inside] at isItem
    · rw [BrinIndex.items, holds_overflowPage.readAllItems] at isItem
      exact absurd isItem not_mem_nil
  obtain ⟨found, isFound, rfl⟩ := mem_map.1 listed
  exact ⟨found, (mem_filter.1 isFound).1, rfl⟩

theorem BrinHolds.scans_overflowed (holds : BrinHolds index entries)
    (summarized : BrinSummarized page summary (brinEntries entries block))
    (scanKey : BTScanKeyData) :
    ∃ tids, BrinScans (brinOverflowed index block page (brinTidItem entry)) scanKey tids ∧
      ∀ found ∈ tids, ∃ entry ∈ entries, found = entry.2 := by
  have metaCount : (brinOverflowed index block page
      (brinTidItem entry)).metaPage.nblocks = index.nblocks := holds.counted
  refine ⟨(brinItemsFrom (brinOverflowed index block page (brinTidItem entry))
    (brinOverflowed index block page (brinTidItem entry)).items
    (brinOverflowChains block index.nblocks) scanKey 1).map btItemTid, ?_, ?_⟩
  · intro fuel _ enough many
    rw [length_map] at many
    have chains : BrinChains (brinOverflowed index block page (brinTidItem entry))
        (brinOverflowed index block page (brinTidItem entry)).items
        (brinOverflowChains block index.nblocks) fuel := by
      intro other isRange inside
      rw [metaCount] at inside enough
      refine ⟨holds.pages.chain_overflowed summarized isRange inside, ?_⟩
      have short : (brinOverflowChains block index.nblocks other).length ≤ 2 := by
        rw [brinOverflowChains]
        split_ifs with same
        · exact Nat.le_refl 2
        · exact Nat.le_succ 1
      omega
    exact brinDrain_eq chains (by omega) many
  · intro found listed
    obtain ⟨_, isItem, rfl⟩ := mem_map.1 listed
    obtain ⟨other, inRange, mem⟩ := mem_flatMap.1 isItem
    have bounds := mem_range'_1.1 inRange
    obtain ⟨old, isOld, rfl⟩ := holds.pages.mem_overflowed summarized bounds.1 (by omega) mem
    exact ⟨old, isOld, btItemTid_tidBytes⟩

end

/-- Every tuple identifier that a scan returns was inserted before the insertion
that found its range page full. -/
theorem BrinHolds.overflow (holds : BrinHolds index entries)
    (key : List UInt8) (tid : ItemPointerData) (fuel : Nat)
    (full : brinRangeCapacity ≤ (brinEntries entries (brinRangeBlock tid)).length) :
    ∃ after, Access.brininsert (fuel + 2) index .int32 key tid = some (after, true) ∧
      ∀ scanKey, ∃ tids, BrinScans after scanKey tids ∧
        ∀ found ∈ tids, ∃ entry ∈ entries, found = entry.2 := by
  obtain ⟨ensured, page, summary, inserts, holdsEnsured, inside, summarized,
    _⟩ := holds.brininsert_eq
  have added : brinAddTid (tidBytes tid) (fuel + 2)
      (ensured.write (brinRangeBlock tid) page) (brinRangeBlock tid) =
        some (brinOverflowed ensured (brinRangeBlock tid) page (tidBytes tid)) :=
    @BrinPages.brinAddTid _ _ _ _ _ (key, tid) _ holdsEnsured.pages inside summarized full fuel
  refine ⟨brinOverflowed ensured (brinRangeBlock tid) page (tidBytes tid), ?_, ?_⟩
  · rw [inserts, added]
    rfl
  · exact @BrinHolds.scans_overflowed _ _ _ _ (key, tid) _ holdsEnsured summarized

/-- Insertions of one key, with tuples of the first heap block. -/
def brinFirstBlock (count : Nat) : List BrinStep :=
  (List.range count).map fun number =>
    .insert ⟨.int32, [0, 0, 0, 0], ⟨0#32, BitVec.ofNat 16 number⟩⟩

theorem brinFirstBlock_succ : brinFirstBlock (count + 1) = brinFirstBlock count ++
      [.insert ⟨.int32, [0, 0, 0, 0], ⟨0#32, BitVec.ofNat 16 count⟩⟩] := by
  rw [brinFirstBlock, range_succ, map_append]
  rfl

theorem brinInserted_firstBlock : brinInserted (brinFirstBlock count) = (List.range count).map
      fun number => ([0, 0, 0, 0], ⟨0#32, BitVec.ofNat 16 number⟩) := by
  rw [brinInserted, brinFirstBlock, flatMap_map]
  exact map_eq_flatMap.symm

theorem brinRoom_of_length (few : entries.length + (brinInserted steps).length ≤
      brinRangeCapacity) : BrinRoom entries steps := by
  induction steps generalizing entries with
  | nil => trivial
  | cons step _ ih =>
    rw [brinInserted, flatMap_cons, ← brinInserted, length_append] at few
    constructor
    · cases step with
      | insert insertion =>
        intro integer
        have one : (added (.insert insertion)).length = 1 := by
          simp [added, attemptedEntries, integer]
        have fewer : (brinEntries entries (brinRangeBlock insertion.tid)).length ≤ entries.length :=
          length_filter_le ..
        omega
      | _ => trivial
    · apply ih
      rw [length_append]
      omega

theorem brinFirstBlock_misses_last (capacity : count = brinRangeCapacity) : ∃ index results tids,
      brinRun 2 (brinFirstBlock (count + 1)) = some (index, results) ∧
      BrinScans index ⟨none, .all⟩ tids ∧ ∃ entry ∈ brinInserted (brinFirstBlock (count + 1)),
        Satisfies .int32 ⟨none, .all⟩ entry.1 ∧ entry.2 ∉ tids := by
  have room : BrinRoom [] (brinFirstBlock count) := by
    apply brinRoom_of_length
    rw [brinInserted_firstBlock, length_map, length_range, capacity, length_nil, zero_add]
  obtain ⟨index, results, ran, holds⟩ := brinHolds_build.runCalls 1 room
  rw [brinInserted_firstBlock] at holds
  have full : brinRangeCapacity ≤ (brinEntries ((List.range count).map fun number =>
        ([0, 0, 0, 0], ⟨0#32, BitVec.ofNat 16 number⟩))
      (brinRangeBlock ⟨0#32, BitVec.ofNat 16 count⟩)).length := by
    rw [brinEntries, filter_eq_self.2, length_map, length_range, capacity]
    intro entry mem
    obtain ⟨number, _, rfl⟩ := mem_map.1 mem
    exact beq_iff_eq.2 rfl
  obtain ⟨after, inserted, scans⟩ := holds.overflow [0, 0, 0, 0]
    ⟨0#32, BitVec.ofNat 16 count⟩ 0 full
  obtain ⟨tids, scanned, old⟩ := scans ⟨none, .all⟩
  have ranLast : runCalls (brinStep 2) index [.insert ⟨.int32, [0, 0, 0, 0],
      ⟨0#32, BitVec.ofNat 16 count⟩⟩] = some (after, [true]) :=
    runCalls_cons inserted rfl
  have ranAll := runCalls_append ran ranLast
  rw [← brinFirstBlock_succ] at ranAll
  refine ⟨after, _, tids, ranAll, scanned,
    ([0, 0, 0, 0], ⟨0#32, BitVec.ofNat 16 count⟩), ?_, by simp [Satisfies], ?_⟩
  · rw [brinInserted_firstBlock]
    apply mem_map.2
    exact ⟨count, mem_range.2 (lt_add_one _), rfl⟩
  intro found
  obtain ⟨entry, mem, same⟩ := old _ found
  obtain ⟨number, below, rfl⟩ := mem_map.1 mem
  have smaller := mem_range.1 below
  have numbers := congrArg (fun tid => tid.ipPosid.toNat) same
  simp only [BitVec.toNat_ofNat] at numbers
  rw [brinRangeCapacity] at capacity
  omega

/-- Of one tuple more than a range page has room for, the last is not found. -/
theorem brinScan_misses_overflow : ∃ index results tids,
      brinRun 2 (brinFirstBlock (brinRangeCapacity + 1)) = some (index, results) ∧
      BrinScans index ⟨none, .all⟩ tids ∧
      ∃ entry ∈ brinInserted (brinFirstBlock (brinRangeCapacity + 1)),
        Satisfies .int32 ⟨none, .all⟩ entry.1 ∧ entry.2 ∉ tids :=
  brinFirstBlock_misses_last rfl

end Pgcpp.Access
