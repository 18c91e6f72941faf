import Pgcpp.Access.ChainScan
import Pgcpp.Access.GistInsert

/-!
# Scans of a GiST index

A scan reads the leaves from the one it starts with to the right.  It finds
everything unless it starts with the second leaf while keys of the first one
satisfy its strategy.
-/

namespace Pgcpp.Access

open Lib Transaction IndexFile List Nat

section

variable {index : GistIndex} {right : List (List UInt8)} {items : Nat → List (List UInt8)}
  {fuel calls : Nat}

/-! ## The leaves that a scan reads -/

/-- The tuples that a scan has still to return. -/
structure GistRemaining (index : GistIndex) (items : Nat → List (List UInt8))
    (fuel : Nat) (scan : GistScanDesc) (tuples : List ItemPointerData) : Prop where
  inited : scan.inited
  position : ∃ block position rest, scan.currbuf = some block ∧ scan.curroff = position + 1 ∧
    index.Chain items block (block :: rest) ∧ rest.length < fuel ∧
    tuples = ((behind items block position rest).filter
      (gistEntryMatches scan.scanKey)).map btItemTid

theorem delivers_gistgettuple :
    Delivers (gistgettuple fuel index) (GistRemaining index items fuel) := by
  apply Delivers.of_cases
  intro scan tuples remaining
  obtain ⟨block, pos, rest, pinned, offset, chain, enough, rfl⟩ := remaining.position
  simp only [gistgettuple, remaining.inited, pinned, offset, if_true]
  rcases @IndexFile.scanChain_spec _ _ _ (gistEntryMatches scan.scanKey) _ _
      _ chain enough pos with
    ⟨ended, empty⟩ | ⟨item, place, later, more, found, chainAfter, shorter, split⟩
  · rw [ended, empty]
    exact .inl ⟨rfl, _, rfl⟩
  · rw [found, split]
    exact .inr ⟨_, _, rfl, _, rfl, rfl, place, later, more, rfl, rfl,
      chainAfter, shorter.trans_lt enough, rfl⟩

theorem gistgetbitmap_of_chain
    (chain : index.Chain items (gistStart index scanKey) (gistStart index scanKey :: rest))
    (enough : rest.length < fuel)
    (enoughCalls : (contents items (gistStart index scanKey :: rest)).length < calls) :
    gistgetbitmap fuel calls index scanKey = some (((contents items
        (gistStart index scanKey :: rest)).filter (int32ItemMatches scanKey)).map btItemTid) := by
  let started : GistScanDesc :=
    { scanKey := scanKey, currbuf := some (gistStart index scanKey), curroff := 1, inited := true }
  have first : gistgettuple fuel index (gistbeginscan scanKey) =
      gistgettuple fuel index started := rfl
  have remaining : GistRemaining index items fuel started (((contents items
        (gistStart index scanKey :: rest)).filter (int32ItemMatches scanKey)).map btItemTid) :=
    ⟨rfl, _, 0, rest, rfl, rfl, chain, enough, rfl⟩
  rw [gistgetbitmap, drain_congr first]
  apply delivers_gistgettuple.drain remaining
  rw [length_map]
  exact lt_of_le_of_lt (length_filter_le ..) enoughCalls

theorem GistOneLeaf.chain (leaf : GistOneLeaf index entries) :
    index.Chain (fun _ => entries.map int32Item) 1 [1] := by
  refine ⟨?_, ?_, ?_⟩
  · apply ChainFrom.cons
    rw [next_eq_none leaf.isLast]
    exact .nil
  · intro block mem
    rw [mem_singleton.1 mem]
    exact leaf.held
  · intro block mem
    rw [mem_singleton.1 mem, leaf.blocks]
    exact lt_succ_self 1

def gistLeafItems (left right : List (List UInt8)) (block : Nat) : List (List UInt8) :=
  if block = 1 then left else right

section

variable (leaves : GistTwoLeaves index first second left right lower)

include leaves

theorem GistTwoLeaves.chainRight : index.Chain (gistLeafItems left right) 2 [2] := by
  refine ⟨?_, ?_, ?_⟩
  · apply ChainFrom.cons
    rw [next_eq_none leaves.isLast]
    exact .nil
  · intro block mem
    rw [mem_singleton.1 mem]
    exact leaves.rightHeld
  · intro block mem
    rw [mem_singleton.1 mem, leaves.blocks]
    decide

theorem GistTwoLeaves.chainLeft : index.Chain (gistLeafItems left right) 1 [1, 2] := by
  have chain := leaves.chainRight
  refine ⟨?_, ?_, ?_⟩
  · apply ChainFrom.cons
    rw [next_eq_some leaves.linked (succ_ne_zero 1)]
    exact chain.linked
  · exact forall_mem_cons.2 ⟨leaves.leftHeld, chain.held⟩
  intro block mem
  rcases mem_cons.1 mem with rfl | later
  · rw [leaves.blocks]
    decide
  · exact chain.below block later

/-! ## The leaf that a scan starts with -/

theorem GistTwoLeaves.gistStart_of_key {scanKey : BTScanKeyData} {key : List UInt8}
    (isKey : scanKey.key = some key) (notAll : scanKey.strategy ≠ .all) :
    gistStart index scanKey = if first.contains (int32Key key) then 1 else 2 := by
  rw [gistStart, leaves.root, leaves.isInternal, if_neg notAll, isKey]
  exact leaves.gistRootChild (int32Key key)

theorem GistTwoLeaves.gistStart_of_no_key {scanKey : BTScanKeyData}
    (noKey : (if scanKey.strategy = .all then none else scanKey.key) = none) :
    gistStart index scanKey = 1 := by
  have normal : ((index.pages 3).page.linp (0 + 1)).liFlags = .normal :=
    leaves.children.normal (succ_pos 1)
  have item : (index.pages 3).page.item (0 + 1) = first.bytes := leaves.children.item_eq rfl
  rw [gistStart, leaves.root, leaves.isInternal, if_neg Bool.false_ne_true, noKey]
  rw [if_pos normal, item, gistEntryOf_bytes, leaves.firstChild]

end

/-- The keys of a range scan that start it with the first leaf, once the lower
keys are there. -/
def GistStartCovers (lower : List Int) (scanKey : BTScanKeyData) : Prop :=
  lower = [] ∨ ∀ key ∈ scanKey.key,
    match scanKey.strategy with
    | .less => ∃ other ∈ lower, (int32Key key).toInt ≤ other
    | .lessEqual => ∃ other ∈ lower, (int32Key key).toInt ≤ other
    | .greater => ∃ other ∈ lower, other ≤ (int32Key key).toInt
    | .greaterEqual => ∃ other ∈ lower, other ≤ (int32Key key).toInt
    | .equal => True
    | .all => True

section

variable (leaves : GistTwoLeaves index first second left right lower)

include leaves

theorem GistTwoLeaves.bounds (mem : item ∈ left) :
    first.minKey.toInt ≤ gistItemKey item ∧ gistItemKey item ≤ first.maxKey.toInt := by
  have within := leaves.within item mem
  rw [GistInternalEntry.contains, Bool.and_eq_true, decide_eq_true_iff,
    decide_eq_true_iff] at within
  exact within

theorem GistTwoLeaves.covers_some_iff :
    GistStartCovers lower ⟨some key, strategy⟩ ↔
      match strategy with
      | .less => (int32Key key).toInt ≤ first.maxKey.toInt
      | .lessEqual => (int32Key key).toInt ≤ first.maxKey.toInt
      | .greater => first.minKey.toInt ≤ (int32Key key).toInt
      | .greaterEqual => first.minKey.toInt ≤ (int32Key key).toInt
      | .equal => True
      | .all => True := by
  have nonempty : lower ≠ [] := ne_nil_of_mem leaves.minKey
  have below := leaves.le_maxKey_iff (int32Key key).toInt
  have above := leaves.minKey_le_iff (int32Key key).toInt
  rw [GistStartCovers, or_iff_right nonempty]
  cases strategy with
  | all => simp
  | equal => simp
  | greater => simp [above]
  | greaterEqual => simp [above]
  | _ => simp [below]

theorem GistTwoLeaves.covers_of_inside (inside : first.contains (int32Key key)) :
    GistStartCovers lower ⟨some key, strategy⟩ := by
  rw [GistInternalEntry.contains, Bool.and_eq_true, decide_eq_true_iff,
    decide_eq_true_iff] at inside
  apply leaves.covers_some_iff.2
  cases strategy with
  | all => trivial
  | equal => trivial
  | greater => exact inside.1
  | greaterEqual => exact inside.1
  | _ => exact inside.2

/-- A scan that starts with the second leaf misses nothing exactly if no key of
the first leaf matches. -/
theorem GistTwoLeaves.covers_iff_of_outside (outside : ¬first.contains (int32Key key))
    (notAll : strategy ≠ .all) :
    GistStartCovers lower ⟨some key, strategy⟩ ↔ left.filter (int32ItemMatches
        ⟨some key, strategy⟩) = [] := by
  obtain ⟨sample, isSample, -⟩ := leaves.lowerHeld _ leaves.minKey
  have sampleBounds := leaves.bounds isSample
  have apart : (int32Key key).toInt < first.minKey.toInt ∨
      first.maxKey.toInt < (int32Key key).toInt := by
    rw [GistInternalEntry.contains, Bool.and_eq_true, decide_eq_true_iff,
      decide_eq_true_iff, not_and_or, not_le, not_le] at outside
    exact outside
  rw [leaves.covers_some_iff, filter_eq_nil_iff]
  cases strategy with
  | all => contradiction
  | equal =>
    refine ⟨fun _ item mem isEqual => ?_, fun _ => trivial⟩
    have same : gistLeafGetKey item = int32Key key := of_decide_eq_true isEqual
    apply outside
    rw [← same]
    exact leaves.within item mem
  | less | lessEqual | greater | greaterEqual =>
    have keyOf (item : List UInt8) : (int32LeafGetKey item).toInt = gistItemKey item := rfl
    simp only [int32ItemMatches, int32EntryMatches, reduceCtorEq, if_false,
      decide_eq_true_iff, keyOf]
    constructor
    · intro covered item mem
      have bounds := leaves.bounds mem
      omega
    · intro none
      have apartFrom := none sample isSample
      omega

/-! ## Exact scans -/

end

def gistExpected (accepted : List IndexEntry) (scanKey : BTScanKeyData) : List ItemPointerData :=
  (accepted.filter fun entry => Satisfies .int32 scanKey entry.1).map Prod.snd

/-- A scan returns what it should, in some order. -/
def GistExact (index : GistIndex) (accepted : List IndexEntry)
    (scanKey : BTScanKeyData) (fuel calls : Nat) : Prop :=
  ∃ tids, gistgetbitmap fuel calls index scanKey = some tids ∧
    tids.Perm (gistExpected accepted scanKey)

theorem GistOneLeaf.exact (leaf : GistOneLeaf index accepted)
    (valid : KeysValid .int32 accepted) (scanKey : BTScanKeyData)
    (enough : 1 < fuel) (enoughCalls : accepted.length < calls) :
    GistExact index accepted scanKey fuel calls := by
  have start : gistStart index scanKey = 1 := by
    rw [gistStart, leaf.root, leaf.isLeaf]
    exact if_pos rfl
  have chain := leaf.chain
  rw [← start] at chain
  have contents : contents (fun _ => accepted.map int32Item)
      [gistStart index scanKey] = accepted.map int32Item := by
    rw [contents, flatMap_singleton]
  have ran := @gistgetbitmap_of_chain _ _ _ calls _ _ chain
    (lt_trans zero_lt_one enough) (by
      rw [contents, length_map]
      exact enoughCalls)
  refine ⟨_, ran, ?_⟩
  rw [contents, filter_int32Items valid]
  exact List.Perm.refl _

theorem gistExpected_perm (valid : KeysValid .int32 accepted)
    (all : (left ++ right).Perm (accepted.map int32Item)) (scanKey : BTScanKeyData) :
    (((left ++ right).filter (int32ItemMatches scanKey)).map btItemTid).Perm
      (gistExpected accepted scanKey) := by
  have matching := (all.filter (int32ItemMatches scanKey)).map btItemTid
  rw [filter_int32Items valid] at matching
  exact matching

section

variable (leaves : GistTwoLeaves index first second left right lower)

include leaves

theorem GistTwoLeaves.exact_of_left (valid : KeysValid .int32 accepted)
    (all : (left ++ right).Perm (accepted.map int32Item)) (start : gistStart index scanKey = 1)
    (enough : 1 < fuel) (enoughCalls : accepted.length < calls) :
    GistExact index accepted scanKey fuel calls := by
  have chain := leaves.chainLeft
  have contents : contents (gistLeafItems left right) [1, 2] = left ++ right := by
    simp [contents, gistLeafItems]
  rw [← start] at chain contents
  have ran := @gistgetbitmap_of_chain _ _ _ calls _ _ chain enough (by
    rw [contents, all.length_eq, length_map]
    exact enoughCalls)
  refine ⟨_, ran, ?_⟩
  rw [contents]
  exact gistExpected_perm valid all scanKey

theorem GistTwoLeaves.exact_iff_of_right (valid : KeysValid .int32 accepted)
    (all : (left ++ right).Perm (accepted.map int32Item)) (start : gistStart index scanKey = 2)
    (enough : 1 < fuel) (enoughCalls : accepted.length < calls) :
    GistExact index accepted scanKey fuel calls ↔ left.filter (int32ItemMatches scanKey) = [] := by
  have chain := leaves.chainRight
  have contents : contents (gistLeafItems left right) [2] = right := by
    simp [contents, gistLeafItems]
  have shorter : right.length ≤ accepted.length := by
    have whole := all.length_eq
    rw [length_append, length_map] at whole
    omega
  rw [← start] at chain contents
  have ran := @gistgetbitmap_of_chain _ _ _ calls _ _ chain
    (lt_trans zero_lt_one enough) (by
      rw [contents]
      exact shorter.trans_lt enoughCalls)
  rw [contents] at ran
  have expected := gistExpected_perm valid all scanKey
  rw [filter_append, map_append] at expected
  constructor
  · intro exact_scan
    obtain ⟨_, returned, same⟩ := exact_scan
    rw [ran] at returned
    cases returned
    have lengths := same.length_eq.trans expected.length_eq.symm
    rw [length_append, length_map, length_map] at lengths
    apply eq_nil_of_length_eq_zero
    omega
  · intro nothing
    refine ⟨_, ran, ?_⟩
    rw [nothing] at expected
    exact expected

end

theorem GistHolds.exact_iff (holds : GistHolds index accepted attempted)
    (valid : KeysValid .int32 accepted) (enough : 1 < fuel)
    (enoughCalls : accepted.length < calls) : GistExact index accepted scanKey fuel calls ↔
      GistStartCovers (gistLowerKeys attempted) scanKey := by
  cases holds with
  | oneLeaf same leaf =>
    have none : gistLowerKeys attempted = [] := by rw [gistLowerKeys, ← same, if_pos leaf.short]
    rw [none]
    exact ⟨fun _ => Or.inl rfl, fun _ => leaf.exact valid scanKey enough enoughCalls⟩
  | @twoLeaves first _ _ _ leaves _ all =>
    obtain ⟨stored, strategy⟩ := scanKey
    by_cases notAll : strategy = .all
    · subst notAll
      have start := @GistTwoLeaves.gistStart_of_no_key _ _ _ _ _ _ leaves
        ⟨stored, .all⟩ rfl
      exact ⟨fun _ => Or.inr fun _ _ => trivial,
        fun _ => leaves.exact_of_left valid all start enough enoughCalls⟩
    cases stored with
    | none =>
      have start := @GistTwoLeaves.gistStart_of_no_key _ _ _ _ _ _
        leaves ⟨none, strategy⟩ (if_neg notAll)
      refine ⟨fun _ => Or.inr fun key _ => ?_, fun _ =>
        leaves.exact_of_left valid all start enough enoughCalls⟩
      contradiction
    | some key =>
      have start := @GistTwoLeaves.gistStart_of_key _ _ _ _ _ _ leaves
        ⟨some key, strategy⟩ key rfl notAll
      by_cases inside : first.contains (int32Key key)
      · rw [if_pos inside] at start
        exact ⟨fun _ => leaves.covers_of_inside inside, fun _ =>
          leaves.exact_of_left valid all start enough enoughCalls⟩
      · rw [if_neg inside] at start
        rw [leaves.exact_iff_of_right valid all start enough enoughCalls,
          leaves.covers_iff_of_outside inside notAll]

end

/-- After any insertions, a scan returns exactly the tuple identifiers of the
insertions that returned true and whose keys satisfy its strategy, if and only
if it starts with the first leaf where it has to. -/
theorem gistScans_exact_iff (sort : GistSort) (insertions : List IndexInsertion)
    (valid : ∀ insertion ∈ insertions, InsertionValid insertion) :
    ∃ index results, gistInsertAll sort insertions = some (index, results) ∧
      ∀ (scanKey : BTScanKeyData) (fuel calls : Nat), 1 < fuel → insertions.length < calls →
        (GistExact index (acceptedEntries insertions results) scanKey fuel calls ↔
          GistStartCovers (gistLowerKeys (attemptedEntries insertions)) scanKey) := by
  obtain ⟨index, results, ran, holds, validAll⟩ := gistHolds_build.runCalls
    (fun _ member => absurd member not_mem_nil) valid sort
  refine ⟨index, results, ran, ?_⟩
  intro scanKey fuel calls enough enoughCalls
  exact holds.exact_iff validAll enough (lt_of_le_of_lt
    (length_acceptedEntries_le insertions results) enoughCalls)

/-- A sort that keeps the order of equal keys. -/
def gistStableSort : GistSort where
  sort items := items.insertionSort fun left right => gistItemKey left ≤ gistItemKey right
  perm items := perm_insertionSort _ items
  sorted items := @pairwise_insertionSort _ (fun left right => gistItemKey left ≤ gistItemKey right)
    _ ⟨fun _ _ => le_total _ _⟩ ⟨fun _ _ _ => le_trans⟩ items

/-- Equal keys that split the root. -/
def equalKeys : List IndexInsertion :=
  List.replicate gistSplitCount ⟨.int32, [0, 0, 0, 0], ⟨7, 1⟩⟩

theorem equalKeys_valid : ∀ insertion ∈ equalKeys, InsertionValid insertion := by
  intro insertion member _
  rw [eq_of_mem_replicate member]
  rfl

theorem gistLowerKeys_equalKeys :
    gistLowerKeys (attemptedEntries equalKeys) = List.replicate (gistSplitCount / 2) 0 := by
  rw [attemptedEntries, equalKeys, filter_replicate, if_pos (by decide), map_replicate,
    gistLowerKeys, length_replicate, if_neg (lt_irrefl _), take_replicate, map_replicate,
    mergeSort_of_pairwise (pairwise_replicate.2 (.inr (by decide))), take_replicate]
  rfl

theorem gistScans_exact_iff_afterSplit : ∃ index results,
      gistInsertAll gistStableSort equalKeys = some (index, results) ∧
        GistExact index (acceptedEntries equalKeys results)
          ⟨some [0, 0, 0, 0], .lessEqual⟩ 2 511 := by
  obtain ⟨index, results, ran, scans⟩ := gistScans_exact_iff gistStableSort _ equalKeys_valid
  refine ⟨index, results, ran, ?_⟩
  apply (scans _ 2 511 (by decide) (by rw [equalKeys, length_replicate]; decide)).2
  rw [gistLowerKeys_equalKeys]
  refine .inr fun _ isKey => ⟨0, mem_replicate.2 ⟨by decide, rfl⟩, ?_⟩
  cases isKey
  decide

/-- With equal keys in both leaves, a scan for smaller keys than a larger one
starts with the second leaf and misses the first one. -/
theorem gistScan_misses_first_leaf : ¬∀ (sort : GistSort) (insertions : List IndexInsertion),
      (∀ insertion ∈ insertions, InsertionValid insertion) →
      ∀ index results, gistInsertAll sort insertions = some (index, results) →
        ∀ (scanKey : BTScanKeyData) (fuel calls : Nat), 1 < fuel → insertions.length < calls →
          GistExact index (acceptedEntries insertions results) scanKey fuel calls := by
  intro always
  obtain ⟨index, results, ran, holds, validAll⟩ := gistHolds_build.runCalls
    (fun _ member => absurd member not_mem_nil) equalKeys_valid gistStableSort
  have length := length_acceptedEntries_le equalKeys results
  have fits : equalKeys.length < 511 := by
    rw [equalKeys, length_replicate]
    decide
  have isExact := always gistStableSort _ equalKeys_valid index results ran
    ⟨some [1, 0, 0, 0], .less⟩ 2 511 (by decide) fits
  have covers := (holds.exact_iff validAll (by decide) (length.trans_lt fits)).1 isExact
  rw [nil_append, gistLowerKeys_equalKeys] at covers
  rcases covers with none | some
  · cases none
  · obtain ⟨other, inLower, above⟩ := some [1, 0, 0, 0] rfl
    rw [eq_of_mem_replicate inLower] at above
    cases above

end Pgcpp.Access
