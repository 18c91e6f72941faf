import Pgcpp.Access.NbtOrder

/-!
# Keyed scans

A scan walks the leaf chain from its start position and returns the entries
that match until one rules out all later ones.  On an ordered tree this finds
every match.  A split that separates equal keys hides the left part of them
from a search, because the descent goes to the last child whose separator is
not beyond the key.
-/

namespace Pgcpp.Access

open Lib Storage Transaction
open List hiding after all count head length

/-- The items an index scan returns and those that end it. -/
def scanHit (kind : BTKeyKind) (scanKey : BTScanKeyData) (item : List UInt8) : Bool :=
  btEntryMatches kind (btItemGetKey item) scanKey

def scanStop (kind : BTKeyKind) (scanKey : BTScanKeyData) (item : List UInt8) : Bool :=
  btPastUpperBound kind (btItemGetKey item) scanKey

/-- The items in front of a scan at `offset` on `block`; at most `pages` pages
are left. -/
def ScanAt (index : BTIndex) (pages block offset : Nat) (remaining : List (List UInt8)) : Prop :=
  ∃ passed items rest, Linked index 0 ((block, passed ++ items) :: rest) ∧
      (∀ name ∈ rest.map Prod.fst, 0 < name) ∧
      rest.length < pages ∧
      offset = passed.length + 1 ∧
      remaining = items ++ rest.flatMap Prod.snd

section

variable {kind : BTKeyKind} {scanKey : BTScanKeyData}

theorem ScanAt.mono (pos : ScanAt index pages block offset remaining)
    (le : pages ≤ more) : ScanAt index more block offset remaining := by
  obtain ⟨passed, items, rest, linked, positive, few, shape⟩ := pos
  exact ⟨passed, items, rest, linked, positive, few.trans_le le, shape⟩

variable (kind scanKey) in
theorem Holds.scanPage (holds : Holds page (passed ++ items)) (following : List (List UInt8)) :
    match btScanPage page kind scanKey (List.range' (passed.length + 1) items.length) with
    | .found tid next => ∃ before item later,
        items = before ++ item :: later ∧ tid = btItemTid item ∧
          next = (passed ++ before ++ [item]).length + 1 ∧
          firstHit (scanHit kind scanKey) (scanStop kind scanKey)
            (items ++ following) = some (item, later ++ following)
    | .stopped => firstHit (scanHit kind scanKey) (scanStop kind scanKey)
        (items ++ following) = none
    | .exhausted => firstHit (scanHit kind scanKey) (scanStop kind scanKey)
        (items ++ following) = firstHit (scanHit kind scanKey) (scanStop kind scanKey)
            following := by
  induction items generalizing passed with
  | nil => rfl
  | cons item rest ih =>
    have listed : (passed ++ item :: rest)[passed.length]? = some item := by simp
    have isItem := holds.item_eq listed
    have normal := holds.normal (List.getElem?_eq_some_iff.1 listed).1
    rw [length_cons, range'_succ, btScanPage]
    simp only [normal, isItem, ne_eq, not_true_eq_false, if_false,
      cons_append, firstHit, scanHit, scanStop]
    by_cases hit : btEntryMatches kind (btItemGetKey item) scanKey
    · simp only [hit, if_true]
      exact ⟨[], item, rest, rfl, rfl, by simp, rfl⟩
    by_cases stop : btPastUpperBound kind (btItemGetKey item) scanKey
    · simp only [hit, stop, if_true, Bool.false_eq_true, if_false]
    have onward : Holds page ((passed ++ [item]) ++ rest) := by simpa using holds
    have later := ih onward
    simp only [hit, stop, Bool.false_eq_true, if_false]
    rw [length_append, length_singleton] at later
    cases outcome : btScanPage page kind scanKey
        (List.range' (passed.length + 1 + 1) rest.length) with
    | found tid next =>
      simp only [outcome] at later ⊢
      obtain ⟨before, next, behind, rfl, rfl, rfl, same⟩ := later
      exact ⟨item :: before, next, behind, rfl, rfl, by simp, same⟩
    | stopped => simpa only [outcome] using later
    | exhausted => simpa only [outcome] using later

variable (kind scanKey) in
theorem ScanAt.scanPages (pos : ScanAt index pages block offset remaining) (enough : pages ≤ fuel) :
    match firstHit (scanHit kind scanKey) (scanStop kind scanKey) remaining with
    | none => btScanPages index kind scanKey fuel block offset = some none
    | some (item, later) => ∃ nextBlock nextOffset,
        btScanPages index kind scanKey fuel block offset =
          some (some (btItemTid item, nextBlock, nextOffset)) ∧
        ScanAt index pages nextBlock nextOffset later := by
  induction fuel generalizing pages block offset remaining with
  | zero =>
    obtain ⟨_, _, rest, _, _, few, _⟩ := pos
    omega
  | succ fuel ih =>
    obtain ⟨passed, items, rest, linked, positive, few, rfl, rfl⟩ := pos
    obtain ⟨here, later⟩ := linked_cons.1 linked
    have scanned := here.holds.scanPage kind scanKey (rest.flatMap Prod.snd)
    have offsets : (index.pages block).page.maxOffsetNumber + 1 -
        (passed.length + 1) = items.length := by
      rw [here.holds.maxOffsetNumber, length_append]
      omega
    rw [btScanPages, offsets]
    cases outcome : btScanPage (index.pages block).page kind scanKey
        (List.range' (passed.length + 1) items.length) with
    | found _ next =>
      simp only [outcome] at scanned
      obtain ⟨before, item, behind, rfl, rfl, rfl, first⟩ := scanned
      rw [first]
      refine ⟨block, _, rfl, passed ++ before ++ [item], behind, rest, ?_, positive, few, rfl, rfl⟩
      simpa using linked
    | stopped =>
      simp only [outcome] at scanned
      simp only [scanned]
    | exhausted =>
      simp only [outcome] at scanned
      rw [scanned]
      cases rest with
      | nil =>
        have last : (index.pages block).special.btpoNext = 0 := here.next
        simp [firstHit, last]
      | cons leaf rest =>
        have next : (index.pages block).special.btpoNext = leaf.1 := here.next
        have onward : ScanAt index (pages - 1) leaf.1 1 ((leaf :: rest).flatMap Prod.snd) := by
          refine ⟨[], leaf.2, rest, later, ?_, ?_, rfl, rfl⟩
          · intro name mem
            exact positive name (mem_cons_of_mem _ mem)
          · rw [length_cons] at few
            omega
        have found := ih onward (by omega)
        have used : leaf.1 ≠ 0 := (positive leaf.1 (by simp)).ne'
        simp only [next, used, if_false]
        cases first : firstHit (scanHit kind scanKey)
            (scanStop kind scanKey)
            ((leaf :: rest).flatMap Prod.snd) with
        | none => simpa only [first] using found
        | some _ =>
          simp only [first] at found
          obtain ⟨nextBlock, nextOffset, scanned, there⟩ := found
          exact ⟨nextBlock, nextOffset, scanned, there.mono (Nat.sub_le pages 1)⟩

def runningScan (scanKey : BTScanKeyData) (block offset : Nat) : BTScanDesc :=
  { scanKey := scanKey, currBuf := some block, currOffset := offset, inited := true }

theorem ScanAt.getbitmap {pages block offset : Nat} {remaining : List (List UInt8)}
    (pos : ScanAt index pages block offset remaining) {fuel calls : Nat} (enoughFuel : pages ≤ fuel)
    (enoughCalls : remaining.length < calls) :
    btgetbitmap kind index fuel calls (runningScan scanKey block offset) =
      some ((collect (scanHit kind scanKey) (scanStop kind scanKey) remaining).map btItemTid) := by
  induction calls generalizing block offset remaining with
  | zero => omega
  | succ calls ih =>
    have found := pos.scanPages kind scanKey enoughFuel
    rw [btgetbitmap, collect_eq_of_firstHit]
    cases first : firstHit (scanHit kind scanKey) (scanStop kind scanKey) remaining with
    | none =>
      simp only [first] at found
      simp [btgettuple, runningScan, found]
    | some _ =>
      simp only [first] at found
      obtain ⟨_, _, scanned, there⟩ := found
      have fewer := length_lt_of_firstHit first
      have rest := ih there (by omega)
      unfold runningScan at rest
      simp [btgettuple, runningScan, scanned, rest]

theorem getbitmap_begin (start : btScanStart index kind scanKey = (block, offset)) :
    btgetbitmap kind index fuel calls (btbeginscan scanKey) =
      btgetbitmap kind index fuel calls (runningScan scanKey block offset) := by
  cases calls with
  | zero => rfl
  | succ calls =>
    rw [btgetbitmap, btgetbitmap]
    simp [btgettuple, btbeginscan, runningScan, start]

end

/-! ## Scans of ordered trees -/

/-- What the strategy of a scan asks of a key. -/
def Satisfies (kind : BTKeyKind) (scanKey : BTScanKeyData) (entryKey : List UInt8) : Prop :=
  ∀ key ∈ scanKey.key,
    match scanKey.strategy with
    | .all => True
    | .equal => btCompareKeys kind entryKey key = .eq
    | .less => btCompareKeys kind entryKey key = .lt
    | .lessEqual => btCompareKeys kind entryKey key ≠ .gt
    | .greater => btCompareKeys kind entryKey key = .gt
    | .greaterEqual => btCompareKeys kind entryKey key ≠ .lt

theorem btEntryMatches_iff :
    btEntryMatches kind entryKey scanKey ↔ Satisfies kind scanKey entryKey := by
  obtain ⟨_ | key, strategy⟩ := scanKey
  · simp [btEntryMatches, Satisfies]
  simp only [btEntryMatches, Satisfies, Option.mem_def, Option.some.injEq, forall_eq']
  generalize btCompareKeys kind entryKey key = order
  cases strategy <;> cases order <;> decide

instance (kind : BTKeyKind) (scanKey : BTScanKeyData)
    (entryKey : List UInt8) : Decidable (Satisfies kind scanKey entryKey) :=
  decidable_of_iff _ (btEntryMatches_iff)

section

variable {kind : BTKeyKind}

theorem scanStop_final (scanKey : BTScanKeyData) (item later : List UInt8)
    (le : KeyLe (btCompareKeys kind) btItemGetKey item later)
    (_miss : scanHit kind scanKey item = false) (stop : scanStop kind scanKey item) :
    scanHit kind scanKey later = false := by
  obtain ⟨_ | key, strategy⟩ := scanKey
  · simp [scanStop, btPastUpperBound] at stop
  have beyond : btCompareKeys kind (btItemGetKey item) key = .gt →
      btCompareKeys kind (btItemGetKey later) key = .gt := by
    intro greater
    rw [Std.OrientedCmp.gt_iff_lt] at greater ⊢
    exact Std.TransCmp.lt_of_lt_of_isLE greater le
  have notBelow : (btCompareKeys kind (btItemGetKey item) key).isGE →
      btCompareKeys kind (btItemGetKey later) key ≠ .lt := by
    intro atLeast less
    rw [Std.OrientedCmp.isGE_iff_isLE] at atLeast
    exact Std.OrientedCmp.not_lt_of_isLE (Std.TransCmp.isLE_trans atLeast le) less
  cases strategy with
  | equal | lessEqual =>
    have greater := beyond (by simpa [scanStop, btPastUpperBound] using stop)
    simp [scanHit, btEntryMatches, greater]
  | less =>
    have atLeast := notBelow (by simpa [scanStop, btPastUpperBound] using stop)
    simpa [scanHit, btEntryMatches] using atLeast
  | all | greater | greaterEqual => simp [scanStop, btPastUpperBound] at stop

section

variable (represents : Represents index chain)

include represents

theorem Represents.leaves_length_le : chain.leaves.length ≤ index.nblocks := by
  have within : chain.leaves.map Prod.fst ⊆ List.range index.nblocks := by
    intro block mem
    exact mem_range.2 (represents.allocated block mem).2
  have count := (subperm_of_subset represents.connected.distinct within).length_le
  simpa using count

theorem Represents.scanAt (shape : chain.leaves = before ++ (block, passed ++ items) :: after) :
    ScanAt index index.nblocks block (passed.length + 1) (items ++ after.flatMap Prod.snd) := by
  have linked := represents.linked
  have allocated := represents.allocated
  have few := represents.leaves_length_le
  rw [shape] at linked allocated few
  refine ⟨passed, items, after, (linked_append.1 linked).2, ?_, ?_, rfl, rfl⟩
  · intro name mem
    apply (allocated name _).1
    rw [map_append]
    exact mem_append_right _ (mem_cons_of_mem _ mem)
  · rw [length_append, length_cons] at few
    omega

theorem Represents.scanAt_leftmost (bounded : index.nblocks ≤ 2 ^ 32) :
    ScanAt index index.nblocks (btLeftmostLeaf index) 1 chain.contents := by
  obtain ⟨items, rest, start⟩ := represents.connected.start
  have pos := represents.scanAt
    (show chain.leaves = [] ++ (chain.first, [] ++ items) :: rest from start)
  rw [represents.leftmost_eq bounded, RoutedChain.contents, start]
  exact pos

end

section

variable (tree : OrderedTree kind index chain)

include tree

theorem OrderedTree.scanAt_search : ∃ skipped remaining, chain.contents = skipped ++ remaining ∧
      ScanAt index index.nblocks (btSearchLeaf index kind key).1
        (btSearchLeaf index kind key).2 remaining ∧
      ∀ item ∈ skipped, btCompareKeys kind (btItemGetKey item) key = .lt := by
  have represents := tree.represents
  have toTarget : (btSearchLeaf index kind key).1 = chain.target (btCompareKeys kind) key :=
    represents.target_eq tree.bounded kind key
  obtain ⟨before, items, after, shape, smaller⟩ := tree.ordered.before_route
  obtain ⟨passed, rest, rfl, count, passedSmaller⟩ :=
    exists_smaller (btCompareKeys kind) btItemGetKey key items
  have linked := represents.linked
  rw [shape, linked_append, linked_cons] at linked
  have atOffset : (btSearchLeaf index kind key).2 = passed.length + 1 := by
    rw [count, ← linked.2.1.holds.findPos]
    exact congrArg (fun block => btFindPos (index.pages block).page kind key) toTarget
  refine ⟨before.flatMap Prod.snd ++ passed, rest ++ after.flatMap Prod.snd, ?_, ?_, ?_⟩
  · rw [RoutedChain.contents, shape]
    simp
  · rw [toTarget, atOffset]
    exact represents.scanAt shape
  · exact forall_mem_append.2 ⟨smaller, passedSmaller⟩

theorem OrderedTree.exists_scanStart (scanKey : BTScanKeyData) :
    ∃ block offset skipped remaining, btScanStart index kind scanKey = (block, offset) ∧
      chain.contents = skipped ++ remaining ∧ ScanAt index index.nblocks block offset remaining ∧
      ∀ item ∈ skipped, scanHit kind scanKey item = false := by
  have leftmost := tree.represents.scanAt_leftmost tree.bounded
  obtain ⟨_ | key, strategy⟩ := scanKey
  · exact ⟨_, _, [], _, rfl, rfl, leftmost, by simp⟩
  obtain ⟨skipped, remaining, cut, pos, smaller⟩ := tree.scanAt_search
  cases strategy with
  | all | less | lessEqual => exact ⟨_, _, [], _, rfl, rfl, leftmost, by simp⟩
  | equal | greater | greaterEqual =>
    refine ⟨_, _, skipped, remaining, rfl, cut, pos, ?_⟩
    intro item mem
    simp [scanHit, btEntryMatches, smaller item mem]

theorem OrderedTree.getbitmap (scanKey : BTScanKeyData) {fuel calls : Nat}
    (enoughFuel : index.nblocks ≤ fuel) (enoughCalls : chain.contents.length < calls) :
    btgetbitmap kind index fuel calls (btbeginscan scanKey) =
      some ((chain.contents.filter (scanHit kind scanKey)).map btItemTid) := by
  obtain ⟨_, _, skipped, _, start, cut, pos, misses⟩ := tree.exists_scanStart scanKey
  have sorted : chain.contents.Pairwise _ := tree.ordered.contents_sorted
  rw [cut] at sorted enoughCalls ⊢
  rw [length_append] at enoughCalls
  have none : skipped.filter (scanHit kind scanKey) = [] := by
    rw [filter_eq_nil_iff]
    intro item mem
    simp [misses item mem]
  have found := collect_eq_filter (pairwise_append.1 sorted).2.1 (scanStop_final scanKey)
  rw [getbitmap_begin start, pos.getbitmap enoughFuel (by omega), found,
    filter_append, none, nil_append]

end

end

/-- Scans are exact after every run without a full root in which no split
separates equal keys. -/
theorem btgetbitmap_exact (kind : BTKeyKind) (entries : List IndexEntry)
    (valid : KeysValid kind entries) (notFull : RootNeverFull kind entries)
    (clean : EveryInsert kind (CleanInsert kind) entries) (scanKey : BTScanKeyData) :
    ∃ tids, tids.Perm ((entries.filter fun entry => Satisfies kind scanKey entry.1).map Prod.snd) ∧
      ∀ fuel calls, (btInsertAll kind entries).nblocks ≤ fuel → entries.length < calls →
        btgetbitmap kind (btInsertAll kind entries) fuel calls
          (btbeginscan scanKey) = some tids := by
  obtain ⟨chain, tree, perm⟩ := btInsertAll_orderedTree valid notFull clean
  refine ⟨(chain.contents.filter (scanHit kind scanKey)).map btItemTid, ?_, ?_⟩
  · have hits : scanHit kind scanKey = (fun entry => decide (Satisfies kind scanKey entry.1)) ∘
          itemEntry := by
      funext item
      rw [Bool.eq_iff_iff, Function.comp_apply, decide_eq_true_iff]
      exact btEntryMatches_iff
    have matching := (perm.filter fun entry => decide (Satisfies kind scanKey entry.1)).map Prod.snd
    rwa [filter_map, map_map, ← hits] at matching
  · intro fuel calls enoughFuel enoughCalls
    apply tree.getbitmap scanKey enoughFuel
    rwa [← perm.length_eq, length_map] at enoughCalls

theorem btgetbitmap_exact_distinctRows : ∃ tids, tids.Perm ((distinctRows.filter fun entry =>
        Satisfies .text ⟨some [20], .less⟩ entry.1).map Prod.snd) ∧
      ∀ fuel calls, (btInsertAll .text distinctRows).nblocks ≤ fuel →
        distinctRows.length < calls → btgetbitmap .text (btInsertAll .text distinctRows) fuel calls
          (btbeginscan ⟨some [20], .less⟩) = some tids := by
  obtain ⟨valid, distinct, notFull⟩ := distinctRows_spec
  have clean := everyInsert_clean_of_distinct valid distinct notFull
  exact btgetbitmap_exact .text distinctRows valid notFull clean _

/-! ## Equal keys on both sides of a split -/

def duplicateKey : List UInt8 := List.replicate 250 97

def duplicateTid (number : Nat) : ItemPointerData := ⟨0, BitVec.ofNat 16 number⟩

def duplicateRows (count : Nat) : List IndexEntry :=
  (List.range count).map fun number => (duplicateKey, duplicateTid number)

theorem duplicateRows_succ :
    duplicateRows (count + 1) = duplicateRows count ++ [(duplicateKey, duplicateTid count)] := by
  simp [duplicateRows, range_succ]

theorem duplicateKey_length : duplicateKey.length = 250 := length_replicate

theorem key_of_mem_duplicateRows (mem : entry ∈ duplicateRows count) : entry.1 = duplicateKey := by
  obtain ⟨_, _, rfl⟩ := mem_map.1 mem
  rfl

theorem duplicateRows_long : ∀ entry ∈ duplicateRows count, entry.1.length = 250 :=
  fun _ mem => key_of_mem_duplicateRows mem ▸ duplicateKey_length

theorem length_duplicateRows : (duplicateRows count).length = count := by simp [duplicateRows]

theorem duplicateRows_notFull : RootNeverFull .text (duplicateRows 32) :=
  longKeys_notFull duplicateRows_long length_duplicateRows.le

theorem duplicateRows_split : ∃ left head right, Represents (btInsertAll .text (duplicateRows 32))
        { first := 1, routes := [(2, duplicateKey)], leaves := [(1, left), (2, head :: right)] } ∧
      btItemGetKey head = duplicateKey ∧ (head :: right).length = 16 := by
  obtain ⟨items, holds, represents, blocks, _⟩ :=
    longKeys_leaf (@duplicateRows_long 31) length_duplicateRows.le
  have full : hasRoom items (btBuildItem .text duplicateKey (duplicateTid 31)) = false := by
    rw [holds.hasRoom duplicateKey_length, length_duplicateRows]
    rfl
  have bounded : (btInsertAll .text (duplicateRows 31)).nblocks ≤ 2 ^ 32 := by omega
  have notFull := (everyInsert_append.1 (duplicateRows_succ ▸ duplicateRows_notFull)).2
  obtain ⟨left, head, right, halves, split, _⟩ :=
    btinsert_of_full represents (keyValid_of_long duplicateKey_length) bounded full
  have grown : LongItems (duplicateRows 32) (left ++ head :: right) := by
    rw [halves.parts, duplicateRows_succ]
    exact holds.insert duplicateKey_length
  have isHead : btItemGetKey head = duplicateKey :=
    key_of_mem_duplicateRows (grown.perm.mem_iff.1 (mem_map_of_mem (f := itemEntry) (by simp)))
  refine ⟨left, head, right, ?_, isHead, ?_⟩
  · rw [duplicateRows_succ, btInsertAll_append]
    rw [notFull, blocks, RoutedChain.split, isHead] at split
    exact split
  have length := grown.perm.length_eq
  have middle := halves.middle
  rw [length_map, length_duplicateRows] at length
  rw [length] at middle
  rw [length_append] at length
  omega

def duplicateScan : BTScanKeyData := ⟨some duplicateKey, .equal⟩

theorem duplicateRows_satisfy : ((duplicateRows count).filter fun entry =>
      Satisfies .text duplicateScan entry.1).length = count := by
  have all : (duplicateRows count).filter (fun entry =>
      Satisfies .text duplicateScan entry.1) = duplicateRows count := by
    rw [filter_eq_self]
    intro entry mem
    simp [key_of_mem_duplicateRows mem, Satisfies, duplicateScan, Std.ReflCmp.compare_self]
  rw [all, length_duplicateRows]

theorem duplicateScan_start (represents : Represents index
      { first := 1, routes := [(2, duplicateKey)], leaves := [(1, left), (2, head :: right)] })
    (bounded : index.nblocks ≤ 2 ^ 32) (isHead : btItemGetKey head = duplicateKey) :
    btScanStart index .text duplicateScan = (2, 1) ∧ ScanAt index 1 2 1 (head :: right) := by
  have self : btCompareKeys .text duplicateKey duplicateKey = .eq := Std.ReflCmp.compare_self
  have toTarget : (btSearchLeaf index .text duplicateKey).1 = 2 := by
    have target := represents.target_eq bounded .text duplicateKey
    simp only [RoutedChain.target, route, self] at target
    exact target
  obtain ⟨_, there⟩ := linked_cons.1 represents.linked
  obtain ⟨here, _⟩ := linked_cons.1 there
  have atOffset : (btSearchLeaf index .text duplicateKey).2 = 1 := by
    have found : btFindPos (index.pages 2).page .text duplicateKey = 1 := by
      rw [here.holds.findPos, findIdx_cons, isHead, self]
      rfl
    rw [← found]
    exact congrArg (fun block => btFindPos (index.pages block).page .text duplicateKey) toTarget
  refine ⟨Prod.ext toTarget atOffset, ?_⟩
  exact ⟨[], head :: right, [], there, by simp, by simp, rfl, by simp⟩

/-- A search for a key of 32 rows returns at most 16 of them. -/
theorem btgetbitmap_misses_duplicates : KeysValid .text (duplicateRows 32) ∧
      RootNeverFull .text (duplicateRows 32) ∧
      ∃ tids, btgetbitmap .text (btInsertAll .text (duplicateRows 32)) 4 33
          (btbeginscan duplicateScan) = some tids ∧ tids.length ≤ 16 ∧
        ((duplicateRows 32).filter fun entry =>
          Satisfies .text duplicateScan entry.1).length = 32 := by
  refine ⟨?_, duplicateRows_notFull, ?_⟩
  · intro entry member
    exact keyValid_of_long (duplicateRows_long entry member)
  obtain ⟨_, _, _, represents, isHead, half⟩ := duplicateRows_split
  have bounded : (btInsertAll .text (duplicateRows 32)).nblocks ≤ 2 ^ 32 := by
    apply (btInsertAll_nblocks_le ..).trans
    simp [length_duplicateRows]
  obtain ⟨start, position⟩ := duplicateScan_start represents bounded isHead
  refine ⟨_, (getbitmap_begin start).trans (position.getbitmap ?_ ?_), ?_, duplicateRows_satisfy⟩
  · omega
  · omega
  · rw [length_map, ← half]
    exact (collect_sublist).length_le

end Pgcpp.Access
