import Pgcpp.Access.SpgistTrie
import Pgcpp.Lib.Simulation

/-!
# Insertions into an SP-GiST index

Insertions keep the trie and add their entries to it.  An insertion that returns
false changes nothing.
-/

namespace Pgcpp.Access

open Lib Storage Function
open IndexFile hiding pages nblocks
open List hiding after all count isPerm length

/-- The file is a trie with the entries that were accepted. -/
structure SpgistHolds (index : SpgistIndex) (nodes : Nat → TrieNode IndexEntry) (blocks : List Nat)
    (accepted : List IndexEntry) : Prop where
  root : index.metaPage.root = 1
  trie : TrieAt spgistBits 32 nodes [] 1 blocks
  allBlocks : blocks.Perm (List.range' 1 (index.nblocks - 1))
  pages : ∀ block ∈ blocks, SpgistPage (index.pages block) (nodes block)
  held : (blocks.flatMap fun block => (nodes block).values).Perm accepted
  valid : KeysValid .int32 accepted

theorem spgistHolds_build : SpgistHolds spgistbuild (fun _ => .leaf []) [1] [] := by
  constructor
  case root => rfl
  case trie =>
    apply TrieAt.leaf rfl
    intro entry mem
    contradiction
  case allBlocks => exact List.Perm.refl _
  case pages =>
    intro _ _
    have isLeaf : hasFlag (kSpgistLeaf ||| kSpgistRoot) kSpgistLeaf := by decide
    exact ⟨isLeaf, holds_init _ 0⟩
  case held => exact List.Perm.refl _
  case valid =>
    intro entry mem
    contradiction

section

variable {nodes : Nat → TrieNode IndexEntry}

section

variable (holds : SpgistHolds index nodes blocks accepted)

include holds

theorem SpgistHolds.distinct : blocks.Nodup := holds.allBlocks.nodup_iff.2 nodup_range'

theorem SpgistHolds.mem_iff : block ∈ blocks ↔ 1 ≤ block ∧ block < index.nblocks := by
  rw [holds.allBlocks.mem_iff, mem_range'_1]
  omega

theorem SpgistHolds.valid_leaf (mem : leaf ∈ blocks) (isLeaf : nodes leaf = .leaf entries) :
    KeysValid .int32 entries := by
  intro entry inside
  apply holds.valid
  apply holds.held.mem_iff.1
  apply mem_flatMap.2
  refine ⟨leaf, mem, ?_⟩
  rw [isLeaf]
  exact inside

theorem SpgistHolds.descend (key : BitVec 32) (enough : 32 < fuel) :
    ∃ leaf steps, leaf ∈ blocks ∧ Descends key.getLsbD nodes steps 1 leaf ∧
      spgistDescend fuel index key = some (some leaf) := by
  obtain ⟨steps, leaf, way, mem, short⟩ := holds.trie.descends
    nodup_nil (fun _ inPath => absurd inPath not_mem_nil)
  refine ⟨leaf, steps, mem, way, ?_⟩
  rw [spgistDescend, holds.root]
  apply spgistDescendFrom_of_trie holds.trie holds.pages way
  rw [length_nil, zero_add] at short
  exact short.trans_lt enough

theorem SpgistHolds.replaced (valid : KeyValid .int32 entry.1)
    (way : Descends (spgistBits entry) nodes steps 1 leaf) (root : after.metaPage.root = 1)
    (grown : (new ++ List.range' 1 (index.nblocks - 1)).Perm (List.range' 1 (after.nblocks - 1)))
    (sameNodes : ∀ other ∈ blocks, other ≠ leaf → nodesAfter other = nodes other)
    (samePages : ∀ other ∈ blocks, other ≠ leaf → after.pages other = index.pages other)
    (newPages : ∀ block ∈ leaf :: new, SpgistPage (after.pages block) (nodesAfter block))
    (changed : ∀ path, AgreesOn (spgistBits entry) path →
      (∀ value ∈ (nodes leaf).values, AgreesOn (spgistBits value) path) →
      TrieAt spgistBits 32 nodesAfter path leaf (leaf :: new))
    (values : ((new.flatMap fun block => (nodesAfter block).values) ++
      (nodesAfter leaf).values).Perm ((nodes leaf).values ++ [entry])) :
    ∃ blocksAfter, SpgistHolds after nodesAfter blocksAfter (accepted ++ [entry]) := by
  have mem := holds.trie.mem_of_descends way
  obtain ⟨blocksAfter, trieAfter, isPerm⟩ := holds.trie.replace way
    holds.distinct (fun _ inPath => absurd inPath not_mem_nil) sameNodes
    changed
  refine ⟨blocksAfter, ?_⟩
  constructor
  case root => exact root
  case trie => exact trieAfter
  case allBlocks => exact isPerm.trans ((holds.allBlocks.append_left new).trans grown)
  case pages =>
    intro block inside
    rcases mem_append.1 (isPerm.mem_iff.1 inside) with isNew | there
    · exact newPages block (mem_cons_of_mem _ isNew)
    by_cases isLeaf : block = leaf
    · rw [isLeaf]
      exact newPages leaf mem_cons_self
    · rw [sameNodes block there isLeaf, samePages block there isLeaf]
      exact holds.pages block there
  case held =>
    apply List.Perm.trans (isPerm.flatMap_right _)
    apply List.Perm.trans _ (holds.held.append_right [entry])
    apply flatMap_replace_perm holds.distinct mem _ values
    intro other there ne
    rw [sameNodes other there ne]
  case valid => exact forall_mem_append.2 ⟨holds.valid, forall_mem_singleton.2 valid⟩

theorem SpgistHolds.placed (valid : KeyValid .int32 entry.1)
    (way : Descends (spgistBits entry) nodes steps 1 leaf)
    (space : hasSpace (index.pages leaf) (int32Item entry)) :
    ∃ nodesAfter blocksAfter, SpgistHolds (index.setPage leaf
          (addTo (index.pages leaf) (int32Item entry)))
        nodesAfter blocksAfter (accepted ++ [entry]) := by
  obtain ⟨entries, isLeaf⟩ := way.isLeaf
  have page := holds.pages leaf (holds.trie.mem_of_descends way)
  rw [isLeaf] at page
  let nodesAfter := update nodes leaf (.leaf (entries ++ [entry]))
  have here : nodesAfter leaf = .leaf (entries ++ [entry]) := update_self ..
  have pageHere : (index.setPage leaf (addTo (index.pages leaf)
      (int32Item entry))).pages leaf = addTo (index.pages leaf) (int32Item entry) :=
    update_self ..
  have grown : ([] ++ List.range' 1 (index.nblocks - 1)).Perm
      (List.range' 1 (index.nblocks - 1)) := List.Perm.refl _
  refine ⟨nodesAfter, holds.replaced valid way holds.root grown ?_ ?_ ?_ ?_ ?_⟩
  · intro other _ ne
    exact update_of_ne ne ..
  · intro other _ ne
    exact update_of_ne ne ..
  · intro _ isBlock
    rw [mem_singleton.1 isBlock, here, pageHere]
    refine ⟨page.1, ?_⟩
    rw [map_append]
    exact holds_addTo page.2 space
  · intro _ agrees others
    rw [isLeaf] at others
    apply TrieAt.leaf here
    exact forall_mem_append.2 ⟨others, forall_mem_singleton.2 agrees⟩
  · rw [here, isLeaf]
    exact List.Perm.refl _

end

theorem foldl_partition (test : Element → Prop) [DecidablePred test]
    (add : Result → Element → Result) (elements : List Element) :
    elements.foldl (fun pair element =>
        if test element then (add pair.1 element, pair.2)
        else (pair.1, add pair.2 element)) (left, right) =
      ((elements.filter fun element => test element).foldl add left,
        (elements.filter fun element => !decide (test element)).foldl add right) := by
  induction elements generalizing left right with
  | nil => rfl
  | cons element _ ih =>
    rw [foldl_cons]
    split_ifs with isLeft
    all_goals
      rw [ih]
      simp [isLeft]

/-- The entries with a value of a bit. -/
def spgistSide (splitBit : Nat) (value : Bool) (entries : List IndexEntry) : List IndexEntry :=
  entries.filter fun entry => spgistBits entry splitBit == value

theorem spgistDistribute_eq (valid : KeysValid .int32 entries) :
    spgistDistribute splitBit (entries.map int32Item) =
      (((spgistSide splitBit false entries).map int32Item).foldl addTo (btInitPage kSpgistLeaf 0),
        ((spgistSide splitBit true entries).map int32Item).foldl
          addTo (btInitPage kSpgistLeaf 0)) := by
  have tested : ∀ entry ∈ entries,
      decide (extractBit (spgistLeafGetKey (int32Item entry)) splitBit = 0) =
        !spgistBits entry splitBit := by
    intro entry mem
    rw [spgistLeafGetKey, int32LeafGetKey_item (valid entry mem),
      Bool.eq_iff_iff, decide_eq_true_iff, extractBit_eq_zero_iff, Bool.not_eq_true']
    exact Iff.rfl
  have lefts : ((entries.map int32Item).filter fun item =>
      extractBit (spgistLeafGetKey item) splitBit = 0) =
      (spgistSide splitBit false entries).map int32Item := by
    rw [filter_map]
    congr 1
    apply filter_congr
    intro entry mem
    rw [comp_apply, tested entry mem]
    cases spgistBits entry splitBit with
    | false => rfl
    | true => rfl
  have rights : ((entries.map int32Item).filter fun item =>
      !decide (extractBit (spgistLeafGetKey item) splitBit = 0)) =
      (spgistSide splitBit true entries).map int32Item := by
    rw [filter_map]
    congr 1
    apply filter_congr
    intro entry mem
    rw [comp_apply, tested entry mem]
    cases spgistBits entry splitBit with
    | false => rfl
    | true => rfl
  rw [spgistDistribute, foldl_partition, lefts, rights]

theorem spgistSide_perm (splitBit : Nat) :
    (spgistSide splitBit false entries ++ spgistSide splitBit true entries).Perm entries := by
  have whole := filter_append_perm (fun entry => spgistBits entry splitBit == false) entries
  have others : (entries.filter fun entry =>
      !(spgistBits entry splitBit == false)) =
      spgistSide splitBit true entries := by
    apply filter_congr
    intro entry _
    cases spgistBits entry splitBit with
    | false => rfl
    | true => rfl
  rw [others] at whole
  exact whole

/-- A side fits on a page when the other side is not empty and all entries but
one fit. -/
theorem pageCost_spgistSide_le (valid : KeysValid .int32 entries)
    (full : 16 * (entries.length - 1) ≤ pageCapacity)
    (other : ∃ entry ∈ entries, spgistBits entry splitBit = !value) :
    pageCost ((spgistSide splitBit value entries).map int32Item) ≤ pageCapacity := by
  have validSide : KeysValid .int32 (spgistSide splitBit value entries) := by
    intro entry mem
    exact valid entry (mem_of_mem_filter mem)
  obtain ⟨entry, mem, isOther⟩ := other
  have shorter : (spgistSide splitBit value entries).length < entries.length := by
    apply length_filter_lt_length_iff_exists.2
    refine ⟨entry, mem, ?_⟩
    rw [isOther]
    cases value with
    | false => exact Bool.false_ne_true
    | true => exact Bool.false_ne_true
  rw [pageCost_int32Items validSide]
  omega

theorem spgistPage_side (room : pageCost ((spgistSide splitBit value entries).map int32Item) ≤
      pageCapacity) : SpgistPage (((spgistSide splitBit value entries).map int32Item).foldl
      addTo (btInitPage kSpgistLeaf 0)) (.leaf (spgistSide splitBit value entries)) := by
  have isLeaf : spgistIsLeaf (btInitPage kSpgistLeaf 0) := by decide
  have empty : pageCost [] + pageCost ((spgistSide splitBit value
      entries).map int32Item) ≤ pageCapacity := by
    rw [show pageCost [] = 0 from rfl, zero_add]
    exact room
  obtain ⟨holds, special⟩ := holds_foldl_addTo (holds_init kSpgistLeaf 0) empty
  refine ⟨?_, holds⟩
  rw [spgistIsLeaf, special]
  exact isLeaf

theorem spgistPage_internal (leftSmall : left < 2 ^ 32) (rightSmall : right < 2 ^ 32) :
    SpgistPage (spgistInternalPage splitBit left right) (.test splitBit left right) := by
  have isInternal : hasFlag kSpgistInternal kSpgistLeaf = false := by decide
  have cost (entry : SpgistInternalEntry) : itemCost entry.bytes = 12 := by
    have length : entry.bytes.length = 8 := by
      rw [SpgistInternalEntry.bytes, length_append, toBytes_length, toBytes_length]
    show maxAlignUp entry.bytes.length + kItemIdSize = 12
    rw [length]
    rfl
  have room : pageCost [] + pageCost (spgistChildren left right) ≤ pageCapacity := by
    simp only [spgistChildren, pageCost, map_cons, cost]
    decide
  obtain ⟨holds, -⟩ := holds_foldl_addTo (holds_init kSpgistInternal splitBit) room
  exact ⟨isInternal, rfl, leftSmall, rightSmall, holds⟩

/-- A block gets a new value, and so do two blocks behind the last one. -/
def splitUpdate {Stored : Type} (values : Nat → Stored) (block last : Nat)
    (here left right : Stored) : Nat → Stored :=
  update
    (update (update values last left) (last + 1) right)
    block here

section

variable {Stored : Type} {values : Nat → Stored}

theorem splitUpdate_left (below : block < last) :
    splitUpdate values block last here left right last = left := by
  rw [splitUpdate, update_of_ne (below.ne'), update_of_ne (Nat.ne_of_lt (Nat.lt_succ_self last)),
    update_self]

theorem splitUpdate_right (below : block < last) :
    splitUpdate values block last here left right (last + 1) = right := by
  rw [splitUpdate, update_of_ne (Nat.ne_of_gt (Nat.lt_succ_of_lt below)), update_self]

theorem splitUpdate_of_ne (below : other < last) (ne : other ≠ block) :
    splitUpdate values block last here left right other = values other := by
  rw [splitUpdate, update_of_ne ne, update_of_ne (Nat.ne_of_lt (Nat.lt_succ_of_lt below)),
    update_of_ne below.ne]

end

def spgistAfterSplit (index : SpgistIndex) (block splitBit : Nat)
    (pages : BTPage × BTPage) : SpgistIndex :=
  { index with
    pages := splitUpdate index.pages block index.nblocks
      (spgistInternalPage splitBit index.nblocks (index.nblocks + 1))
      pages.1 pages.2
    nblocks := index.nblocks + 2 }

theorem spgistSplit_eq : spgistSplit index block splitBit items =
      if index.nblocks + 1 < kInvalidBlockNumber then
        some (spgistAfterSplit index block splitBit (spgistDistribute splitBit items))
      else none := by
  rw [spgistSplit, IndexFile.extend]
  by_cases first : index.nblocks < kInvalidBlockNumber
  · rw [if_pos first]
    dsimp only
    rw [IndexFile.extend]
    split_ifs with second
    · rfl
    · rfl
  · rw [if_neg first, if_neg fun second => first (Nat.lt_of_succ_lt second)]

theorem range'_two_more (pos : 1 ≤ count) :
    ([count, count + 1] ++ List.range' 1 (count - 1)).Perm (List.range' 1 (count + 2 - 1)) := by
  obtain ⟨rest, rfl⟩ := Nat.exists_eq_add_of_le' pos
  have split : List.range' 1 (rest + 1 + 2 - 1) =
      List.range' 1 rest ++ [rest + 1, rest + 1 + 1] := by
    rw [show rest + 1 + 2 - 1 = rest + 1 + 1 by omega, range'_1_concat, range'_1_concat,
      append_assoc, add_comm 1 rest, add_comm 1 (rest + 1)]
    rfl
  rw [split]
  exact perm_append_comm

theorem SpgistHolds.split (holds : SpgistHolds index nodes blocks accepted)
    (valid : KeyValid .int32 entry.1) (way : Descends (spgistBits entry) nodes steps 1 leaf)
    (isLeaf : nodes leaf = .leaf entries) (small : splitBit < 32)
    (differ : ∀ value, ∃ other ∈ entries ++ [entry], spgistBits other splitBit = value)
    (room : index.nblocks + 1 < kInvalidBlockNumber) :
    ∃ nodesAfter blocksAfter, SpgistHolds (spgistAfterSplit index leaf splitBit
          (spgistDistribute splitBit ((entries ++ [entry]).map int32Item)))
        nodesAfter blocksAfter (accepted ++ [entry]) := by
  have mem := holds.trie.mem_of_descends way
  obtain ⟨positive, below⟩ := holds.mem_iff.1 mem
  have page := holds.pages leaf mem
  rw [isLeaf] at page
  have validLeaf := holds.valid_leaf mem isLeaf
  have validAll : KeysValid .int32 (entries ++ [entry]) := by
    exact forall_mem_append.2 ⟨validLeaf, forall_mem_singleton.2 valid⟩
  have capacity : 16 * ((entries ++ [entry]).length - 1) ≤ pageCapacity := by
    have cost := page.2.cost_le
    rw [pageCost_int32Items validLeaf] at cost
    rw [length_append]
    exact cost
  have sidePage (value : Bool) := spgistPage_side
    (pageCost_spgistSide_le validAll capacity (differ (!value)))
  have limit : kInvalidBlockNumber < 2 ^ 32 := by decide
  rw [spgistDistribute_eq validAll]
  let nodesAfter := splitUpdate nodes leaf index.nblocks
    (.test splitBit index.nblocks (index.nblocks + 1))
    (.leaf (spgistSide splitBit false (entries ++ [entry])))
    (.leaf (spgistSide splitBit true (entries ++ [entry])))
  have nodeLeft : nodesAfter index.nblocks =
      .leaf (spgistSide splitBit false (entries ++ [entry])) :=
    splitUpdate_left below
  have nodeRight : nodesAfter (index.nblocks + 1) =
      .leaf (spgistSide splitBit true (entries ++ [entry])) :=
    splitUpdate_right below
  have nodeLeaf : nodesAfter leaf =
      .test splitBit index.nblocks (index.nblocks + 1) := update_self ..
  refine ⟨nodesAfter, holds.replaced valid way holds.root
    (range'_two_more (Nat.le_of_lt (positive.trans_lt below))) ?_ ?_ ?_ ?_ ?_⟩
  · intro other there ne
    exact splitUpdate_of_ne (holds.mem_iff.1 there).2 ne
  · intro other there ne
    exact splitUpdate_of_ne (holds.mem_iff.1 there).2 ne
  · intro _ isBlock
    rcases mem_cons.1 isBlock with rfl | isNew
    · rw [nodeLeaf, spgistAfterSplit]
      dsimp only
      rw [splitUpdate, update_self]
      exact spgistPage_internal (Nat.lt_trans (Nat.lt_of_succ_lt room) limit) (room.trans limit)
    rcases mem_cons.1 isNew with rfl | isRight
    · rw [nodeLeft, spgistAfterSplit]
      dsimp only
      rw [splitUpdate_left below]
      exact sidePage false
    · rw [mem_singleton.1 isRight, nodeRight, spgistAfterSplit]
      dsimp only
      rw [splitUpdate_right below]
      exact sidePage true
  · intro path agrees others
    rw [isLeaf] at others
    have agreesAll : ∀ other ∈ entries ++ [entry], AgreesOn (spgistBits other) path := by
      exact forall_mem_append.2 ⟨others, forall_mem_singleton.2 agrees⟩
    -- The bit was not tested yet, since the keys differ in it.
    have newTest : splitBit ∉ path.map Prod.fst := by
      intro tested
      obtain ⟨⟨_, value⟩, inPath, rfl⟩ := mem_map.1 tested
      obtain ⟨other, inside, isOther⟩ := differ (!value)
      have isValue := agreesAll other inside _ inPath
      rw [isOther] at isValue
      exact Bool.not_ne_self value isValue
    have side (value : Bool) : ∀ other ∈ spgistSide splitBit value (entries ++ [entry]),
          AgreesOn (spgistBits other) ((splitBit, value) :: path) := by
      intro other inside
      obtain ⟨there, isValue⟩ := mem_filter.1 inside
      exact (agreesAll other there).cons (beq_iff_eq.1 isValue)
    exact TrieAt.test nodeLeaf small newTest (.leaf nodeLeft (side false))
      (.leaf nodeRight (side true))
  · rw [flatMap_cons, flatMap_cons, flatMap_nil, nodeLeft, nodeRight, nodeLeaf, isLeaf, append_nil]
    rw [show TrieNode.values (.test splitBit index.nblocks
      (index.nblocks + 1) : TrieNode IndexEntry) = [] from rfl, append_nil]
    exact spgistSide_perm splitBit

/-! ## Runs of insertions -/

def spgistInsertion (fuel : Nat) (index : SpgistIndex)
    (insertion : IndexInsertion) : Option (SpgistIndex × Bool) :=
  spgistinsert fuel index insertion.kind insertion.key insertion.tid

def spgistInsertAll (fuel : Nat) (insertions : List IndexInsertion) :
    Option (SpgistIndex × List Bool) :=
  runCalls (spgistInsertion fuel) spgistbuild insertions

theorem highestDifferingBit_items {entries : List IndexEntry} (valid : KeysValid .int32 entries)
    (found : 0 ≤ highestDifferingBit ((entries.map int32Item).map spgistLeafGetKey)) :
    (highestDifferingBit ((entries.map int32Item).map spgistLeafGetKey)).toNat < 32 ∧
      ∀ value, ∃ entry ∈ entries, spgistBits entry (highestDifferingBit
          ((entries.map int32Item).map spgistLeafGetKey)).toNat = value := by
  obtain ⟨small, differ⟩ := highestDifferingBit_spec found
  refine ⟨small, ?_⟩
  intro value
  obtain ⟨_, isKey, isValue⟩ := differ value
  obtain ⟨_, isItem, rfl⟩ := mem_map.1 isKey
  obtain ⟨entry, mem, rfl⟩ := mem_map.1 isItem
  have read : spgistLeafGetKey (int32Item entry) = int32Key entry.1 :=
    int32LeafGetKey_item (valid entry mem)
  rw [read] at isValue
  exact ⟨entry, mem, isValue⟩

section

variable (holds : SpgistHolds index nodes blocks accepted)

include holds

theorem SpgistHolds.insertLeaf {entry : IndexEntry} (valid : KeyValid .int32 entry.1)
    {steps leaf : Nat} (way : Descends (spgistBits entry) nodes steps 1 leaf) :
    (index.nblocks + 1 < kInvalidBlockNumber →
      (spgistInsertLeaf index leaf (int32Item entry)).isSome) ∧
    ∀ after result, spgistInsertLeaf index leaf (int32Item entry) = some (after, result) →
      after.nblocks ≤ index.nblocks + 2 ∧
      ∃ nodesAfter blocksAfter, SpgistHolds after nodesAfter blocksAfter
          (accepted ++ if result then [entry] else []) := by
  obtain ⟨entries, isLeaf⟩ := way.isLeaf
  have mem := holds.trie.mem_of_descends way
  have page := holds.pages leaf mem
  have validHere := holds.valid_leaf mem isLeaf
  rw [isLeaf] at page
  have validAll : KeysValid .int32 (entries ++ [entry]) := by
    exact forall_mem_append.2 ⟨validHere, forall_mem_singleton.2 valid⟩
  have allItems : btReadAllItems (index.pages leaf).page ++
      [int32Item entry] = (entries ++ [entry]).map int32Item := by
    rw [page.2.readAllItems, map_append, map_singleton]
  rw [spgistInsertLeaf]
  rw [allItems]
  by_cases space : hasSpace (index.pages leaf) (int32Item entry)
  · rw [if_pos space]
    refine ⟨fun _ => rfl, ?_⟩
    intro after result ran
    cases ran
    exact ⟨Nat.le_add_right _ 2, holds.placed valid way space⟩
  rw [if_neg space]
  by_cases same : highestDifferingBit
      (((entries ++ [entry]).map int32Item).map spgistLeafGetKey) < 0
  · rw [if_pos same]
    refine ⟨fun _ => rfl, ?_⟩
    intro after result ran
    cases ran
    refine ⟨Nat.le_add_right _ 2, nodes, blocks, ?_⟩
    rw [if_neg Bool.false_ne_true, append_nil]
    exact holds
  obtain ⟨small, differ⟩ := highestDifferingBit_items validAll (Int.not_lt.1 same)
  rw [if_neg same, spgistSplit_eq]
  split_ifs with room
  · refine ⟨fun _ => rfl, ?_⟩
    intro after result ran
    cases ran
    exact ⟨le_rfl, holds.split valid way isLeaf small differ room⟩
  · refine ⟨fun enough => absurd enough room, ?_⟩
    intro after result ran
    contradiction

theorem SpgistHolds.insert {insertion : IndexInsertion} (valid : InsertionValid insertion)
    (enough : 32 < fuel) : (index.nblocks + 1 < kInvalidBlockNumber →
      (spgistInsertion fuel index insertion).isSome) ∧
    ∀ after result, spgistInsertion fuel index insertion = some (after, result) →
      after.nblocks ≤ index.nblocks + 2 ∧
      ∃ nodesAfter blocksAfter, SpgistHolds after nodesAfter blocksAfter
          (accepted ++ acceptedEntries [insertion] [result]) := by
  obtain ⟨_, key, tid⟩ := insertion
  rw [spgistInsertion, spgistinsert]
  split_ifs with otherKind
  · refine ⟨fun _ => rfl, ?_⟩
    intro after result ran
    cases ran
    refine ⟨Nat.le_add_right _ 2, nodes, blocks, ?_⟩
    rwa [← append_nil accepted] at holds
  obtain rfl := not_not.1 otherKind
  obtain ⟨_, _, -, way, descended⟩ := holds.descend (int32Key key) enough
  rw [spgistInsertFrom_of_descend descended]
  have inserted := @SpgistHolds.insertLeaf _ _ _ _ holds (key, tid) (valid rfl) _ _ way
  refine ⟨inserted.1, ?_⟩
  intro after result ran
  have added := inserted.2 after result ran
  cases result with
  | false => exact added
  | true => exact added

theorem SpgistHolds.runCalls (valid : ∀ insertion ∈ insertions, InsertionValid insertion)
    (enough : 32 < fuel)
    (ran : Lib.runCalls (spgistInsertion fuel) index insertions = some (after, results)) :
    ∃ nodesAfter blocksAfter, SpgistHolds after nodesAfter blocksAfter
        (accepted ++ acceptedEntries insertions results) := by
  induction insertions generalizing index nodes blocks accepted results with
  | nil =>
    cases ran
    refine ⟨nodes, blocks, ?_⟩
    rwa [← append_nil accepted] at holds
  | cons insertion _ ih =>
    obtain ⟨_, _, _, first, ranRest, rfl⟩ := runCalls_cons_inv ran
    obtain ⟨-, _, _, holdsBetween⟩ :=
      (holds.insert (valid insertion mem_cons_self) enough).2 _ _ first
    have all := ih holdsBetween (fun other mem => valid other (mem_cons_of_mem _ mem)) ranRest
    rwa [append_assoc, ← acceptedEntries_cons] at all

theorem SpgistHolds.isSome_runCalls (valid : ∀ insertion ∈ insertions, InsertionValid insertion)
    (enough : 32 < fuel) (room : index.nblocks + 2 * insertions.length ≤ kInvalidBlockNumber) :
    (Lib.runCalls (spgistInsertion fuel) index insertions).isSome := by
  induction insertions generalizing index nodes blocks accepted with
  | nil => rfl
  | cons insertion _ ih =>
    rw [length_cons] at room
    have inserted := holds.insert (valid insertion mem_cons_self) enough
    obtain ⟨⟨_, _⟩, first⟩ := Option.isSome_iff_exists.1 (inserted.1 (by omega))
    obtain ⟨_, _, _, holdsBetween⟩ := inserted.2 _ _ first
    have later := ih holdsBetween (fun other mem => valid other (mem_cons_of_mem _ mem)) (by omega)
    obtain ⟨⟨_, _⟩, ranRest⟩ := Option.isSome_iff_exists.1 later
    rw [runCalls_cons first ranRest]
    rfl

end

end

end Pgcpp.Access
