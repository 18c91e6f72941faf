import Pgcpp.Access.Gist
import Pgcpp.Access.PageChains

/-!
# Insertions into a GiST index

The first leaf takes 509 entries.  The next one splits it: the lower half of the
keys stays, and later the leaf gets only keys between its bounds.
-/

namespace Pgcpp.Access

open Lib Storage IndexFile GistInternalEntry Nat
open List hiding after all contains count head length

/-- The key of an entry, as a number. -/
def gistKey (entry : IndexEntry) : Int := (int32Key entry.1).toInt

def gistItemKey (item : List UInt8) : Int := (gistLeafGetKey item).toInt

/-- The number of entries whose insertion splits the root. -/
def gistSplitCount : Nat := 510

/-- The keys that stay in the first leaf when the root is split. -/
def gistLowerKeys (entries : List IndexEntry) : List Int :=
  if entries.length < gistSplitCount then []
  else
    (((entries.take gistSplitCount).map gistKey).mergeSort
      (fun left right => left ≤ right)).take (gistSplitCount / 2)

theorem gistLowerKeys_concat (long : gistSplitCount ≤ entries.length) :
    gistLowerKeys (entries ++ [entry]) = gistLowerKeys entries := by
  have longer : gistSplitCount ≤ (entries ++ [entry]).length := by
    rw [length_append]
    exact le_add_right_of_le long
  rw [gistLowerKeys, gistLowerKeys, if_neg (not_lt.2 longer),
    if_neg (not_lt.2 long), take_append_of_le_length long]

theorem gistItemKey_item (valid : KeyValid .int32 entry.1) :
    gistItemKey (int32Item entry) = gistKey entry := by
  rw [gistItemKey, gistLeafGetKey, int32LeafGetKey_item valid, gistKey]

theorem gistEntryOf_bytes (entry : GistInternalEntry) : gistEntryOf entry.bytes = entry := by
  obtain ⟨child, minKey, maxKey⟩ := entry
  have first := @field_wordBytes [child, minKey, maxKey] 0 child rfl
  have second := @field_wordBytes [child, minKey, maxKey] 1 minKey rfl
  have third := @field_wordBytes [child, minKey, maxKey] 2 maxKey rfl
  simp [gistEntryOf, bytes, first, second, third]

/-! ## The states of an index -/

structure GistOneLeaf (index : GistIndex) (entries : List IndexEntry) : Prop where
  root : index.metaPage.root = 1
  blocks : index.nblocks = 2
  isLeaf : gistIsLeaf (index.pages 1)
  isLast : (index.pages 1).special.btpoNext = 0
  held : Holds (index.pages 1).page (entries.map int32Item)
  short : entries.length < gistSplitCount

structure GistTwoLeaves (index : GistIndex) (first second : GistInternalEntry)
    (left right : List (List UInt8)) (lower : List Int) : Prop where
  root : index.metaPage.root = 3
  blocks : index.nblocks = 4
  isInternal : gistIsLeaf (index.pages 3) = false
  children : Holds (index.pages 3).page [first.bytes, second.bytes]
  firstChild : first.child.toNat = 1
  secondChild : second.child.toNat = 2
  linked : (index.pages 1).special.btpoNext = 2
  isLast : (index.pages 2).special.btpoNext = 0
  leftHeld : Holds (index.pages 1).page left
  rightHeld : Holds (index.pages 2).page right
  within : ∀ item ∈ left, first.contains (gistLeafGetKey item)
  lowerHeld : ∀ key ∈ lower, ∃ item ∈ left, gistItemKey item = key
  minKey : first.minKey.toInt ∈ lower
  maxKey : first.maxKey.toInt ∈ lower

/-- The index after insertions of integer keys, some of which were accepted. -/
inductive GistHolds (index : GistIndex) (accepted attempted : List IndexEntry) : Prop where
  | oneLeaf (same : accepted = attempted) (leaf : GistOneLeaf index accepted)
  | twoLeaves (leaves : GistTwoLeaves index first second left right (gistLowerKeys attempted))
      (long : gistSplitCount ≤ attempted.length)
      (all : (left ++ right).Perm (accepted.map int32Item))

theorem gistHolds_build : GistHolds gistbuild [] [] := by
  have isLeaf : hasFlag (kGistLeaf ||| kGistRoot) kGistLeaf := by decide
  exact .oneLeaf rfl
    { root := rfl, blocks := rfl, isLeaf := isLeaf, isLast := rfl
      held := holds_init _ 0, short := succ_pos 509 }

section

variable (leaves : GistTwoLeaves index first second left right lower)

include leaves

theorem GistTwoLeaves.gistRootChild (key : BitVec 32) :
    Access.gistRootChild index key = if first.contains key then 1 else 2 := by
  have count : (index.pages 3).page.maxOffsetNumber = 2 := leaves.children.maxOffsetNumber
  have firstNormal : ((index.pages 3).page.linp (0 + 1)).liFlags = .normal :=
    leaves.children.normal (succ_pos 1)
  have secondNormal : ((index.pages 3).page.linp (1 + 1)).liFlags = .normal :=
    leaves.children.normal (lt_succ_self 1)
  have firstItem : (index.pages 3).page.item (0 + 1) = first.bytes := leaves.children.item_eq rfl
  have secondItem : (index.pages 3).page.item (1 + 1) = second.bytes := leaves.children.item_eq rfl
  rw [Access.gistRootChild, leaves.root, count, show List.range' 1 2 = [0 + 1, 1 + 1] from rfl,
    gistChild, if_neg (not_not_intro firstNormal), firstItem, gistEntryOf_bytes]
  dsimp only
  rw [leaves.firstChild]
  split_ifs with inFirst
  · rfl
  rw [gistChild, if_neg (not_not_intro secondNormal), secondItem, gistEntryOf_bytes]
  dsimp only
  rw [leaves.secondChild]
  exact ite_self 2

theorem GistTwoLeaves.minKey_le_iff (key : Int) :
    first.minKey.toInt ≤ key ↔ ∃ other ∈ lower, other ≤ key := by
  constructor
  · intro above
    exact ⟨_, leaves.minKey, above⟩
  intro exists_other
  obtain ⟨other, inLower, below⟩ := exists_other
  obtain ⟨item, mem, rfl⟩ := leaves.lowerHeld other inLower
  have bounds := leaves.within item mem
  rw [contains, Bool.and_eq_true, decide_eq_true_iff] at bounds
  exact le_trans bounds.1 below

theorem GistTwoLeaves.le_maxKey_iff (key : Int) :
    key ≤ first.maxKey.toInt ↔ ∃ other ∈ lower, key ≤ other := by
  constructor
  · intro below
    exact ⟨_, leaves.maxKey, below⟩
  intro exists_other
  obtain ⟨other, inLower, above⟩ := exists_other
  obtain ⟨item, mem, rfl⟩ := leaves.lowerHeld other inLower
  have bounds := leaves.within item mem
  rw [contains, Bool.and_eq_true, decide_eq_true_iff, decide_eq_true_iff] at bounds
  exact le_trans above bounds.2

/-! ## Leaves with room -/

end

theorem hasSpace_int32Item {entries : List IndexEntry}
    (holds : Holds page.page (entries.map int32Item))
    (validAll : KeysValid .int32 entries) (valid : KeyValid .int32 entry.1) :
    hasSpace page (int32Item entry) ↔ entries.length + 1 < gistSplitCount := by
  have capacity : pageCapacity = 8152 := rfl
  have count : gistSplitCount = 510 := rfl
  rw [hasSpace_iff holds, pageCost_int32Items validAll, itemCost_int32Item valid]
  omega

theorem GistOneLeaf.placed (leaf : GistOneLeaf index entries)
    (validAll : KeysValid .int32 entries) (valid : KeyValid .int32 entry.1)
    (space : hasSpace (index.pages 1) (int32Item entry)) :
    GistOneLeaf (index.setPage 1 (addTo (index.pages 1) (int32Item entry))) (entries ++ [entry]) :=
  { leaf with
    held := by
      rw [map_append]
      exact holds_addTo leaf.held space
    short := by
      rw [length_append]
      exact (hasSpace_int32Item leaf.held validAll valid).1 space }

section

variable (leaves : GistTwoLeaves index first second left right lower)

include leaves

theorem GistTwoLeaves.placedLeft (space : hasSpace (index.pages 1) item)
    (inFirst : first.contains (gistLeafGetKey item)) :
    GistTwoLeaves (index.setPage 1 (addTo (index.pages 1) item))
      first second (left ++ [item]) right lower :=
  { leaves with
    leftHeld := holds_addTo leaves.leftHeld space, within := by
      exact forall_mem_append.2 ⟨leaves.within, forall_mem_singleton.2 inFirst⟩
    lowerHeld := by
      intro key inLower
      obtain ⟨other, mem, same⟩ := leaves.lowerHeld key inLower
      exact ⟨other, mem_append_left _ mem, same⟩ }

/-! ## The split of the root -/

end

theorem gistBounds_contains (sorted : items.Pairwise fun left right =>
      (gistLeafGetKey left).toInt ≤ (gistLeafGetKey right).toInt)
    (child : Nat) (mem : item ∈ items) :
    (gistBounds child items).contains (gistLeafGetKey item) := by
  rw [contains, Bool.and_eq_true, decide_eq_true_iff, decide_eq_true_iff]
  constructor
  · cases items with
    | nil => contradiction
    | cons _ _ =>
      rcases mem_cons.1 mem with rfl | later
      · exact le_refl _
      · exact rel_of_pairwise_cons sorted later
  rcases eq_nil_or_concat items with rfl | ⟨_, last, rfl⟩
  · contradiction
  rw [concat_eq_append] at sorted mem ⊢
  rw [gistBounds, getLastD_concat]
  rcases mem_append.1 mem with earlier | isLast
  · exact (pairwise_append.1 sorted).2.2 item earlier last mem_cons_self
  · rw [mem_singleton.1 isLast]

theorem gistBounds_mem (nonempty : items ≠ []) (child : Nat) :
    (gistBounds child items).minKey.toInt ∈ items.map gistItemKey ∧
      (gistBounds child items).maxKey.toInt ∈ items.map gistItemKey := by
  constructor
  · cases items with
    | nil => contradiction
    | cons _ _ => exact mem_cons_self
  rcases eq_nil_or_concat items with rfl | ⟨_, last, rfl⟩
  · contradiction
  · rw [concat_eq_append, gistBounds, getLastD_concat]
    exact mem_map.2 ⟨last, mem_append_right _ mem_cons_self, rfl⟩

theorem map_gistItemKey_sort (sort : GistSort) {entries : List IndexEntry}
    (valid : KeysValid .int32 entries) : (sort.sort (entries.map int32Item)).map gistItemKey =
      (entries.map gistKey).mergeSort (fun left right => left ≤ right) := by
  have keys : (entries.map int32Item).map gistItemKey = entries.map gistKey := by
    rw [map_map]
    apply map_congr_left
    intro entry mem
    exact gistItemKey_item (valid entry mem)
  have sorted : ((entries.map gistKey).mergeSort
      (fun left right => left ≤ right)).Pairwise (· ≤ ·) :=
    pairwise_mergeSort' (· ≤ ·) _
  apply List.Perm.eq_of_pairwise (fun left right _ _ below above => le_antisymm below above)
    (pairwise_map.2 (sort.sorted _)) sorted
  have permuted := (sort.perm (entries.map int32Item)).map gistItemKey
  rw [keys] at permuted
  exact permuted.trans (mergeSort_perm ..).symm

/-- The file after the root was split. -/
def gistAfterSplit (index : GistIndex) (lefts rights : List (List UInt8)) : GistIndex :=
  { metaPage := { root := 3 }, pages := Function.update
      (Function.update (Function.update index.pages 2
          { (rights.foldl addTo (btInitPage kGistLeaf 0)) with
            special := { (rights.foldl addTo
              (btInitPage kGistLeaf 0)).special with btpoPrev := 1 } })
        1 (linkTo (lefts.foldl addTo (btInitPage kGistLeaf 0)) 2))
      3 ([(gistBounds 1 lefts).bytes, (gistBounds 2 rights).bytes].foldl
        addTo (btInitPage (kGistRoot ||| kGistInternal) 0))
    nblocks := 4 }

theorem GistOneLeaf.gistSplit_eq (leaf : GistOneLeaf index entries)
    (isSorted : sort.sort ((entries ++ [entry]).map int32Item) = sorted) :
    gistSplit sort index (int32Item entry) =
      some (gistAfterSplit index (sorted.take (sorted.length / 2))
        (sorted.drop (sorted.length / 2))) := by
  have items : btReadAllItems (index.pages 1).page ++ [int32Item entry] =
      (entries ++ [entry]).map int32Item := by
    rw [leaf.held.readAllItems, map_append, map_singleton]
  rw [gistSplit, leaf.root, items, isSorted, extend, leaf.blocks]
  rfl

theorem holds_gistLeaf (room : pageCost items ≤ pageCapacity) :
    Holds (items.foldl addTo (btInitPage flags 0)).page items ∧
      (items.foldl addTo (btInitPage flags 0)).special = (btInitPage flags 0).special := by
  have empty : pageCost [] + pageCost items ≤ pageCapacity := by
    rw [show pageCost [] = 0 from rfl, zero_add]
    exact room
  exact holds_foldl_addTo (holds_init flags 0) empty

theorem gistTwoLeaves_split {lefts rights : List (List UInt8)}
    (sorted : lefts.Pairwise fun left right =>
      (gistLeafGetKey left).toInt ≤ (gistLeafGetKey right).toInt)
    (nonempty : lefts ≠ []) (leftRoom : pageCost lefts ≤ pageCapacity)
    (rightRoom : pageCost rights ≤ pageCapacity) :
    GistTwoLeaves (gistAfterSplit index lefts rights) (gistBounds 1 lefts)
      (gistBounds 2 rights) lefts rights (lefts.map gistItemKey) := by
  have cost (entry : GistInternalEntry) : itemCost entry.bytes = 16 := by
    have length : entry.bytes.length = 12 := by rfl
    show maxAlignUp entry.bytes.length + kItemIdSize = 16
    rw [length]
    rfl
  have rootRoom : pageCost [(gistBounds 1 lefts).bytes,
      (gistBounds 2 rights).bytes] ≤ pageCapacity := by
    simp only [pageCost, map_cons, map_nil, sum_cons, cost]
    decide
  have isInternal : hasFlag (kGistRoot ||| kGistInternal) kGistLeaf = false := by decide
  obtain ⟨rootHeld, _⟩ := holds_gistLeaf rootRoom
  obtain ⟨leftHeld, _⟩ := holds_gistLeaf leftRoom
  obtain ⟨rightHeld, rightSpecial⟩ := holds_gistLeaf rightRoom
  obtain ⟨minKey, maxKey⟩ := gistBounds_mem nonempty 1
  constructor
  case root => rfl
  case blocks => rfl
  case isInternal =>
    exact isInternal
  case children => exact rootHeld
  case firstChild => rfl
  case secondChild => rfl
  case linked => rfl
  case isLast =>
    show (List.foldl addTo _ rights).special.btpoNext = 0
    rw [rightSpecial]
    rfl
  case leftHeld => exact leftHeld
  case rightHeld => exact rightHeld
  case within =>
    intro _ mem
    exact gistBounds_contains sorted 1 mem
  case lowerHeld =>
    intro _ inLower
    exact mem_map.1 inLower
  case minKey => exact minKey
  case maxKey => exact maxKey

theorem GistOneLeaf.split (leaf : GistOneLeaf index entries) (validAll : KeysValid .int32 entries)
    (valid : KeyValid .int32 entry.1) (full : ¬hasSpace (index.pages 1) (int32Item entry))
    (sort : GistSort) : ∃ after, gistSplit sort index (int32Item entry) = some after ∧
      GistHolds after (entries ++ [entry]) (entries ++ [entry]) := by
  have length : (entries ++ [entry]).length = gistSplitCount := by
    rw [hasSpace_int32Item leaf.held validAll valid] at full
    rw [length_append]
    exact le_antisymm leaf.short (not_lt.1 full)
  have validNew : KeysValid .int32 (entries ++ [entry]) := by
    exact forall_mem_append.2 ⟨validAll, forall_mem_singleton.2 valid⟩
  generalize isSorted : sort.sort ((entries ++ [entry]).map int32Item) = sorted
  have permuted := sort.perm ((entries ++ [entry]).map int32Item)
  have ordered := sort.sorted ((entries ++ [entry]).map int32Item)
  have keys := map_gistItemKey_sort sort validNew
  rw [isSorted] at permuted ordered keys
  have sortedLength : sorted.length = gistSplitCount := by
    rw [permuted.length_eq, length_map, length]
  have cost : ∀ item ∈ sorted, itemCost item = 16 := by
    intro item mem
    obtain ⟨other, isOther, rfl⟩ := mem_map.1 (permuted.mem_iff.1 mem)
    exact itemCost_int32Item (validNew other isOther)
  have splits : sorted.length / 2 = gistSplitCount / 2 := by rw [sortedLength]
  have leftLength : (sorted.take (gistSplitCount / 2)).length = 255 := by
    rw [length_take, sortedLength]
    rfl
  have rightLength : (sorted.drop (gistSplitCount / 2)).length = 255 := by
    rw [length_drop, sortedLength]
    rfl
  have leftRoom : pageCost (sorted.take (gistSplitCount / 2)) ≤ pageCapacity := by
    rw [pageCost_of_forall fun item mem => cost item (mem_of_mem_take mem), leftLength]
    decide
  have rightRoom : pageCost (sorted.drop (gistSplitCount / 2)) ≤ pageCapacity := by
    rw [pageCost_of_forall fun item mem => cost item (mem_of_mem_drop mem), rightLength]
    decide
  have nonempty : sorted.take (gistSplitCount / 2) ≠ [] := by
    apply ne_nil_of_length_pos
    rw [leftLength]
    exact succ_pos 254
  have lower : (sorted.take (gistSplitCount / 2)).map gistItemKey =
      gistLowerKeys (entries ++ [entry]) := by
    rw [map_take, keys, gistLowerKeys, if_neg (not_lt.2 (le_of_eq length.symm)),
      take_of_length_le (le_of_eq length)]
  refine ⟨_, leaf.gistSplit_eq isSorted, ?_⟩
  rw [splits]
  have leaves := @gistTwoLeaves_split index _ _
    (ordered.sublist (take_sublist ..)) nonempty leftRoom rightRoom
  rw [lower] at leaves
  apply GistHolds.twoLeaves leaves (le_of_eq length.symm)
  rw [take_append_drop]
  exact permuted

/-! ## Runs of insertions -/

section

variable (holds : GistHolds index accepted attempted)

include holds

section

variable (validAll : KeysValid .int32 accepted)

include validAll

theorem GistHolds.insertInt32 (valid : KeyValid .int32 entry.1) (sort : GistSort) :
    ∃ after result, gistinsert sort index .int32 entry.1 entry.2 = some (after, result) ∧
      GistHolds after (accepted ++ if result then [entry] else []) (attempted ++ [entry]) := by
  rw [gistinsert, if_neg (not_not_intro rfl)]
  dsimp only
  rw [← int32Item]
  cases holds with
  | oneLeaf same leaf =>
    rw [leaf.root, leaf.isLeaf, if_pos rfl]
    by_cases space : hasSpace (index.pages 1) (int32Item entry)
    · rw [if_pos space]
      refine ⟨_, true, rfl, .oneLeaf ?_ (leaf.placed validAll valid space)⟩
      rw [same]
      rfl
    · rw [if_neg space]
      obtain ⟨after, ran, holdsAfter⟩ := leaf.split validAll valid space sort
      rw [ran, ← same]
      exact ⟨after, true, rfl, holdsAfter⟩
  | @twoLeaves first _ left right leaves long all =>
    have longer : gistSplitCount ≤ (attempted ++ [entry]).length := by
      rw [length_append]
      exact le_add_right_of_le long
    have readKey := int32LeafGetKey_item valid
    have added : ((left ++ right) ++ [int32Item entry]).Perm
        ((accepted ++ [entry]).map int32Item) := by
      rw [map_append]
      exact all.append_right _
    rw [← gistLowerKeys_concat long] at leaves
    rw [leaves.root, leaves.isInternal, if_neg Bool.false_ne_true,
      if_neg Bool.false_ne_true, leaves.gistRootChild]
    by_cases inFirst : first.contains (int32Key entry.1)
    · split_ifs with space
      · rw [← readKey] at inFirst
        refine ⟨_, true, rfl, .twoLeaves (leaves.placedLeft space inFirst) longer ?_⟩
        apply List.Perm.trans _ added
        rw [append_assoc, append_assoc]
        exact perm_append_comm.append_left left
      · refine ⟨index, false, rfl, ?_⟩
        rw [if_neg Bool.false_ne_true, append_nil]
        exact .twoLeaves leaves longer all
    · split_ifs with space
      · refine ⟨_, true, rfl, .twoLeaves
            { leaves with rightHeld := holds_addTo leaves.rightHeld space } longer ?_⟩
        rw [← append_assoc]
        exact added
      · refine ⟨index, false, rfl, ?_⟩
        rw [if_neg Bool.false_ne_true, append_nil]
        exact .twoLeaves leaves longer all

theorem GistHolds.insert (valid : InsertionValid insertion) (sort : GistSort) :
    ∃ after result, gistInsertion sort index insertion = some (after, result) ∧
      GistHolds after (accepted ++ acceptedEntries [insertion] [result])
        (attempted ++ attemptedEntries [insertion]) ∧
      KeysValid .int32 (acceptedEntries [insertion] [result]) := by
  obtain ⟨kind, key, tid⟩ := insertion
  by_cases isInt : kind = .int32
  · subst isInt
    obtain ⟨after, result, ran, holdsAfter⟩ :=
      @GistHolds.insertInt32 _ _ _ holds validAll (key, tid) (valid rfl) sort
    refine ⟨after, result, ran, ?_, ?_⟩
    · cases result with
      | false => exact holdsAfter
      | true => exact holdsAfter
    intro entry mem
    cases result with
    | false => contradiction
    | true =>
      rw [mem_singleton.1 mem]
      exact valid rfl
  · have nothing : attemptedEntries [⟨kind, key, tid⟩] = [] := by simp [attemptedEntries, isInt]
    refine ⟨index, false, ?_, ?_, ?_⟩
    · exact if_pos isInt
    · rw [nothing, append_nil]
      exact (append_nil accepted).symm ▸ holds
    · intro entry mem
      contradiction

theorem GistHolds.runCalls (valid : ∀ insertion ∈ insertions, InsertionValid insertion)
    (sort : GistSort) :
    ∃ after results, Lib.runCalls (gistInsertion sort) index insertions = some (after, results) ∧
      GistHolds after (accepted ++ acceptedEntries insertions results)
        (attempted ++ attemptedEntries insertions) ∧
      KeysValid .int32 (accepted ++ acceptedEntries insertions results) := by
  induction insertions generalizing index accepted attempted with
  | nil =>
    have nothing : attemptedEntries [] = [] := rfl
    refine ⟨index, [], rfl, ?_, ?_⟩
    · rw [nothing, append_nil]
      exact (append_nil accepted).symm ▸ holds
    · exact (append_nil accepted).symm ▸ validAll
  | cons insertion _ ih =>
    obtain ⟨_, result, first, holdsBetween, validFirst⟩ :=
      holds.insert validAll (valid insertion mem_cons_self) sort
    have validBetween : KeysValid .int32 (accepted ++ acceptedEntries [insertion] [result]) := by
      exact forall_mem_append.2 ⟨validAll, validFirst⟩
    obtain ⟨after, results, ran, holdsAfter, validAfter⟩ :=
      ih holdsBetween validBetween fun other mem => valid other (mem_cons_of_mem _ mem)
    refine ⟨after, result :: results, runCalls_cons first ran, ?_, ?_⟩
    · rw [acceptedEntries_cons, attemptedEntries_cons, ← append_assoc, ← append_assoc]
      exact holdsAfter
    · rw [acceptedEntries_cons, ← append_assoc]
      exact validAfter

end

end

end Pgcpp.Access
