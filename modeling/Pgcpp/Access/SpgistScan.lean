import Pgcpp.Access.ChainScan
import Pgcpp.Access.SpgistInsert

/-!
# Scans of an SP-GiST index

A descent finds the only leaf with entries of its key, and the leaves of the
file together have all entries.
-/

namespace Pgcpp.Access

open Lib Storage Transaction List

section

variable {index : SpgistIndex} {nodes : Nat → TrieNode IndexEntry} {fuel calls : Nat}

/-! ## The leaf of a key -/

structure SpgistLeafRemaining (index : SpgistIndex) (scan : SpgistScanDesc)
    (tuples : List ItemPointerData) : Prop where
  inited : scan.inited
  equal : (equalKey scan.scanKey).isSome
  position : (scan.currbuf = none ∧ tuples = []) ∨
    ∃ block held position, scan.currbuf = some block ∧
      scan.curroff = position + 1 ∧ Holds (index.pages block).page held ∧
      tuples = ((held.drop position).filter (spgistEntryMatches scan.scanKey)).map btItemTid

variable {scan : SpgistScanDesc}

theorem delivers_spgistgettuple_leaf :
    Delivers (spgistgettuple fuel index) (SpgistLeafRemaining index) := by
  apply Delivers.of_cases
  intro scan tuples remaining
  obtain ⟨_, isKey⟩ := Option.isSome_iff_exists.1 remaining.equal
  simp only [spgistgettuple, isKey, remaining.inited, if_true, spgistScanLeaf]
  rcases remaining.position with
    ⟨unpinned, nothing⟩ | ⟨block, held, pos, pinned, offset, holds, rfl⟩
  · rw [unpinned]
    exact .inl ⟨nothing, _, rfl⟩
  rw [pinned, offset]
  dsimp only
  rcases @IndexFile.scanPage_spec (spgistEntryMatches scan.scanKey) _ _
      holds pos with ⟨ended, empty⟩ | ⟨item, later, found, split⟩
  · rw [ended, empty]
    exact .inl ⟨rfl, _, rfl⟩
  · rw [found, split]
    exact .inr ⟨_, _, rfl, _, rfl, rfl, remaining.equal,
      .inr ⟨block, held, later, rfl, rfl, holds, rfl⟩⟩

theorem SpgistHolds.equal_entries (holds : SpgistHolds index nodes blocks accepted)
    (mem : leaf ∈ blocks) (way : Descends (int32Key key).getLsbD nodes steps 1 leaf) :
    ((nodes leaf).values.filter fun entry => Satisfies .int32 ⟨some key, .equal⟩ entry.1).Perm
      (accepted.filter fun entry => Satisfies .int32 ⟨some key, .equal⟩ entry.1) := by
  have whole : accepted.Perm ((nodes leaf).values ++
      (blocks.erase leaf).flatMap fun block => (nodes block).values) := by
    have first := (perm_cons_erase mem).flatMap_right fun block => (nodes block).values
    exact holds.held.symm.trans first
  have others : (((blocks.erase leaf).flatMap fun block =>
      (nodes block).values).filter fun entry =>
        Satisfies .int32 ⟨some key, .equal⟩ entry.1) = [] := by
    apply filter_eq_nil_iff.2
    intro entry inside satisfied
    obtain ⟨block, inErased, held⟩ := mem_flatMap.1 inside
    obtain ⟨ne, there⟩ := holds.distinct.mem_erase_iff.1 inErased
    obtain ⟨⟨_, otherWay⟩, -⟩ := holds.trie.descends_of_mem there held
    have compared : btCompareKeys .int32 entry.1 key = .eq := of_decide_eq_true satisfied key rfl
    have sameKey : int32Key entry.1 = int32Key key :=
      (btCompareKeys_int32_eq_iff entry.1 key).1 compared
    have sameBits : spgistBits entry = (int32Key key).getLsbD := by
      funext pos
      rw [spgistBits, sameKey]
    rw [sameBits] at otherWay
    exact ne (way.unique otherWay)
  have filtered := whole.filter fun entry =>
    Satisfies .int32 ⟨some key, .equal⟩ entry.1
  rw [filter_append, others, append_nil] at filtered
  exact filtered.symm

theorem SpgistHolds.equalScan (holds : SpgistHolds index nodes blocks accepted) (key : List UInt8)
    (enough : 32 < fuel) (enoughCalls : accepted.length < calls) :
    ∃ tids, spgistgetbitmap fuel calls index ⟨some key, .equal⟩ = some tids ∧
      tids.Perm ((accepted.filter fun entry => Satisfies .int32 ⟨some key, .equal⟩
          entry.1).map Prod.snd) := by
  obtain ⟨leaf, _, mem, way, descended⟩ := holds.descend (int32Key key) enough
  obtain ⟨entries, isLeaf⟩ := way.isLeaf
  have page := holds.pages leaf mem
  have entriesPerm := holds.equal_entries mem way
  rw [isLeaf] at page entriesPerm
  let started : SpgistScanDesc :=
    { scanKey := ⟨some key, .equal⟩
      currbuf := some leaf, curroff := 1, inited := true, scanBlock := 0 }
  have first : spgistgettuple fuel index (spgistbeginscan ⟨some key, .equal⟩) =
        spgistgettuple fuel index started := by
    have fresh : spgistgettuple fuel index
        (spgistbeginscan ⟨some key, .equal⟩) =
        (spgistDescend fuel index (int32Key key)).map fun leaf =>
          spgistScanLeaf index { started with currbuf := leaf } := rfl
    rw [fresh, descended]
    rfl
  have remaining : SpgistLeafRemaining index started (((entries.map int32Item).filter
        (int32ItemMatches started.scanKey)).map btItemTid) :=
    ⟨rfl, rfl, .inr ⟨leaf, entries.map int32Item, 0, rfl, rfl, page.2, rfl⟩⟩
  rw [filter_int32Items (holds.valid_leaf mem isLeaf)] at remaining
  rw [spgistgetbitmap, drain_congr first]
  refine ⟨_, delivers_spgistgettuple_leaf.drain remaining ?_, entriesPerm.map Prod.snd⟩
  rw [length_map]
  have short := entriesPerm.length_eq.trans_le (length_filter_le ..)
  exact short.trans_lt enoughCalls

/-! ## All leaves -/

def spgistStored (nodes : Nat → TrieNode IndexEntry) (block : Nat) : List (List UInt8) :=
  (nodes block).values.map int32Item

theorem spgistPage_cases (page : SpgistPage (index.pages block) (nodes block)) :
    (spgistIsLeaf (index.pages block) ∧ Holds (index.pages block).page (spgistStored nodes block)) ∨
    (spgistIsLeaf (index.pages block) = false ∧ spgistStored nodes block = []) := by
  rw [spgistStored]
  cases isNode : nodes block with
  | leaf _ =>
    rw [isNode] at page
    exact .inl page
  | test _ _ _ =>
    rw [isNode] at page
    exact .inr ⟨page.1, rfl⟩

/-- What the loop over the blocks finds first, among the items that are left. -/
inductive SpgistFinds (index : SpgistIndex)
    (nodes : Nat → TrieNode IndexEntry) (scanKey : BTScanKeyData)
    (blocks : List Nat) (left : List (List UInt8)) : Option (List UInt8 × Nat × Nat) → Prop where
  | nothing (empty : left.filter (spgistEntryMatches scanKey) = []) :
      SpgistFinds index nodes scanKey blocks left none
  | item {front rest : List Nat} {item : List UInt8} {block later : Nat}
      (split : blocks = front ++ block :: rest) (isLeaf : spgistIsLeaf (index.pages block))
      (first : left.filter (spgistEntryMatches scanKey) =
        item :: ((spgistStored nodes block).drop later ++
          rest.flatMap (spgistStored nodes)).filter (spgistEntryMatches scanKey)) :
      SpgistFinds index nodes scanKey blocks left (some (item, block, later + 1))

theorem SpgistFinds.cons {scanKey : BTScanKeyData} {left more : List (List UInt8)}
    {result : Option (List UInt8 × Nat × Nat)}
    (finds : SpgistFinds index nodes scanKey blocks left result) (block : Nat)
    (same : more.filter (spgistEntryMatches scanKey) = left.filter (spgistEntryMatches scanKey)) :
    SpgistFinds index nodes scanKey (block :: blocks) more result := by
  cases finds with
  | nothing empty => exact .nothing (same.trans empty)
  | @item front rest item place _ split isLeaf first =>
    have longer : block :: blocks = (block :: front) ++ place :: rest := by rw [split, cons_append]
    exact .item longer isLeaf (same.trans first)

theorem spgistWalk_unpinned (scanKey : BTScanKeyData) (pages : ∀ block ∈ blocks,
      SpgistPage (index.pages block) (nodes block)) :
    SpgistFinds index nodes scanKey blocks (blocks.flatMap (spgistStored nodes))
      (spgistWalk index scanKey blocks none) := by
  induction blocks with
  | nil => exact .nothing rfl
  | cons block _ ih =>
    have later := ih fun other mem => pages other (mem_cons_of_mem _ mem)
    rw [spgistWalk, flatMap_cons, Option.getD_none]
    rcases spgistPage_cases (pages block mem_cons_self) with
      ⟨isLeaf, holds⟩ | ⟨notLeaf, nothing⟩
    · rw [isLeaf]
      rcases @IndexFile.scanPage_spec (spgistEntryMatches scanKey) _ _ holds
          0 with ⟨ended, empty⟩ | ⟨item, offset, found, split⟩
      · rw [ended]
        apply later.cons block
        rw [drop_zero] at empty
        rw [filter_append, empty, nil_append]
      · rw [found]
        rw [drop_zero] at split
        apply SpgistFinds.item (nil_append _).symm isLeaf
        rw [filter_append, split, filter_append, cons_append]
    · rw [notLeaf, nothing]
      exact later.cons block rfl

theorem spgistWalk_pinned
    (pages : ∀ other ∈ block :: rest, SpgistPage (index.pages other) (nodes other))
    (isLeaf : spgistIsLeaf (index.pages block)) : SpgistFinds index nodes scanKey (block :: rest)
      ((spgistStored nodes block).drop pos ++ rest.flatMap (spgistStored nodes))
      (spgistWalk index scanKey (block :: rest) (some (pos + 1))) := by
  have later := @spgistWalk_unpinned index nodes rest scanKey
    fun other mem => pages other (mem_cons_of_mem _ mem)
  rw [spgistWalk, Option.getD_some]
  rcases spgistPage_cases (pages block mem_cons_self) with
    ⟨-, holds⟩ | ⟨notLeaf, -⟩
  · rcases @IndexFile.scanPage_spec (spgistEntryMatches scanKey) _ _ holds
        pos with ⟨ended, empty⟩ | ⟨item, offset, found, split⟩
    · rw [ended]
      apply later.cons block
      rw [filter_append, empty, nil_append]
    · rw [found]
      apply SpgistFinds.item (nil_append _).symm isLeaf
      rw [filter_append, split, filter_append, cons_append]
  · rw [isLeaf] at notLeaf
    contradiction

/-- The blocks from one on. -/
def spgistBlocksFrom (index : SpgistIndex) (block : Nat) : List Nat :=
  List.range' block (index.nblocks - block)

/-- The items that are left at a position of a scan. -/
inductive SpgistLeft (index : SpgistIndex)
    (nodes : Nat → TrieNode IndexEntry) (scan : SpgistScanDesc) : List (List UInt8) → Prop where
  | unpinned (pin : scan.currbuf = none) (positive : 1 ≤ scan.scanBlock) :
      SpgistLeft index nodes scan
        ((spgistBlocksFrom index scan.scanBlock).flatMap (spgistStored nodes))
  | pinned {position : Nat} (pin : scan.currbuf = some scan.scanBlock)
      (offset : scan.curroff = position + 1) (positive : 1 ≤ scan.scanBlock)
      (below : scan.scanBlock < index.nblocks)
      (isLeaf : spgistIsLeaf (index.pages scan.scanBlock)) :
      SpgistLeft index nodes scan
        ((spgistStored nodes scan.scanBlock).drop position ++
          (spgistBlocksFrom index (scan.scanBlock + 1)).flatMap (spgistStored nodes))

theorem spgistBlocksFrom_cons (below : block < index.nblocks) :
    spgistBlocksFrom index block = block :: spgistBlocksFrom index (block + 1) := by
  obtain ⟨count, _⟩ := Nat.exists_eq_add_of_lt below
  rw [spgistBlocksFrom, spgistBlocksFrom, show index.nblocks - block = count + 1 by omega,
    show index.nblocks - (block + 1) = count by omega, range'_succ]

theorem spgistBlocksFrom_split (split : spgistBlocksFrom index start = front ++ block :: rest) :
    start ≤ block ∧ block < index.nblocks ∧ rest = spgistBlocksFrom index (block + 1) := by
  obtain ⟨_, _, -, isTail⟩ := range'_eq_append_iff.1 split
  obtain ⟨_, _, isRest⟩ := range'_eq_cons_iff.1 isTail.symm
  refine ⟨by omega, by omega, ?_⟩
  rw [isRest]
  congr 1
  omega

theorem spgistgettuple_of_notEqual
    (inited : scan.inited) (notEqual : equalKey scan.scanKey = none) :
    spgistgettuple fuel index scan = some (spgistScanBlocks index scan) := by
  rw [spgistgettuple, notEqual]
  exact if_pos inited

section

variable (holds : SpgistHolds index nodes blocks accepted)

include holds

theorem SpgistHolds.pagesFrom (pos : 1 ≤ start) :
    ∀ block ∈ spgistBlocksFrom index start, SpgistPage (index.pages block) (nodes block) := by
  intro block mem
  have bounds := mem_range'_1.1 mem
  apply holds.pages
  apply holds.mem_iff.2
  omega

theorem SpgistHolds.finds (remains : SpgistLeft index nodes scan left) : 1 ≤ scan.scanBlock ∧
    SpgistFinds index nodes scan.scanKey (spgistBlocksFrom index scan.scanBlock) left
      (spgistWalk index scan.scanKey (spgistBlocksFrom index scan.scanBlock)
        (scan.currbuf.map fun _ => scan.curroff)) := by
  cases remains with
  | unpinned pin positive =>
    rw [pin]
    exact ⟨positive, spgistWalk_unpinned scan.scanKey (holds.pagesFrom positive)⟩
  | @pinned pos pin offset positive below isLeaf =>
    have pages := holds.pagesFrom positive
    rw [spgistBlocksFrom_cons below] at pages ⊢
    rw [pin, offset]
    exact ⟨positive, spgistWalk_pinned pages isLeaf⟩

/-- The tuples that a scan of all leaves has still to return. -/
structure SpgistRemaining (index : SpgistIndex)
    (nodes : Nat → TrieNode IndexEntry) (scan : SpgistScanDesc)
    (tuples : List ItemPointerData) : Prop where
  inited : scan.inited
  notEqual : equalKey scan.scanKey = none
  position : ∃ left, SpgistLeft index nodes scan left ∧
    tuples = (left.filter (spgistEntryMatches scan.scanKey)).map btItemTid

theorem SpgistHolds.delivers :
    Delivers (spgistgettuple fuel index) (SpgistRemaining index nodes) := by
  apply Delivers.of_cases
  intro scan tuples remaining
  obtain ⟨left, remains, rfl⟩ := remaining.position
  rw [spgistgettuple_of_notEqual remaining.inited remaining.notEqual,
    spgistScanBlocks, ← spgistBlocksFrom]
  obtain ⟨pos, finds⟩ := holds.finds remains
  generalize spgistWalk index scan.scanKey
    (spgistBlocksFrom index scan.scanBlock)
    (scan.currbuf.map fun _ => scan.curroff) = result at finds
  cases finds with
  | nothing empty =>
    rw [empty]
    exact .inl ⟨rfl, _, rfl⟩
  | item split isLeaf first =>
    obtain ⟨after, below, isRest⟩ := spgistBlocksFrom_split split
    rw [first]
    refine .inr ⟨_, _, rfl, _, rfl, remaining.inited, remaining.notEqual, _,
      .pinned rfl rfl (pos.trans after) below isLeaf, ?_⟩
    rw [isRest]

theorem SpgistHolds.fullScan (notEqual : equalKey scanKey = none)
    (enoughCalls : accepted.length < calls) :
    ∃ tids, spgistgetbitmap fuel calls index scanKey = some tids ∧
      tids.Perm ((accepted.filter fun entry => Satisfies .int32 scanKey entry.1).map Prod.snd) := by
  let started : SpgistScanDesc :=
    { scanKey := scanKey, currbuf := none, curroff := 0, inited := true, scanBlock := 1 }
  have first : spgistgettuple fuel index (spgistbeginscan scanKey) =
      spgistgettuple fuel index started := by
    rw [@spgistgettuple_of_notEqual index fuel started rfl notEqual, spgistgettuple]
    dsimp only [spgistbeginscan]
    rw [notEqual]
    rfl
  have all : ((spgistBlocksFrom index 1).flatMap (spgistStored nodes)).Perm
      (accepted.map int32Item) := by
    have items : (spgistBlocksFrom index 1).flatMap (spgistStored nodes) =
        ((spgistBlocksFrom index 1).flatMap fun block => (nodes block).values).map int32Item := by
      rw [map_flatMap]
      rfl
    rw [items]
    apply List.Perm.map
    exact (holds.allBlocks.symm.flatMap_right _).trans holds.held
  have remaining : SpgistRemaining index nodes started
      ((((spgistBlocksFrom index 1).flatMap (spgistStored nodes)).filter
        (int32ItemMatches scanKey)).map btItemTid) :=
    ⟨rfl, notEqual, _, .unpinned rfl (Nat.le_refl 1), rfl⟩
  have same := (all.filter (int32ItemMatches scanKey)).map btItemTid
  rw [filter_int32Items holds.valid] at same
  rw [spgistgetbitmap, drain_congr first]
  refine ⟨_, holds.delivers.drain remaining ?_, same⟩
  rw [same.length_eq, length_map]
  exact Nat.lt_of_le_of_lt (length_filter_le ..) enoughCalls

end

end

/-- Whatever is inserted, a scan returns the tuple identifiers of the insertions
that returned true and whose keys satisfy its strategy, and every descent ends
at a leaf.  Insertions return while there are block numbers. -/
theorem spgistScans_exact (insertions : List IndexInsertion)
    (valid : ∀ insertion ∈ insertions, InsertionValid insertion) {fuel : Nat} (enough : 32 < fuel) :
    (2 + 2 * insertions.length ≤ kInvalidBlockNumber → (spgistInsertAll fuel insertions).isSome) ∧
    ∀ index results, spgistInsertAll fuel insertions = some (index, results) →
      (∀ (scanKey : BTScanKeyData) (calls : Nat), insertions.length < calls →
        ∃ tids, spgistgetbitmap fuel calls index scanKey = some tids ∧
          tids.Perm (((acceptedEntries insertions results).filter
            fun entry => Satisfies .int32 scanKey entry.1).map Prod.snd)) ∧
      ∀ key, ∃ leaf, spgistDescend fuel index key = some (some leaf) ∧
        1 ≤ leaf ∧ leaf < index.nblocks ∧ spgistIsLeaf (index.pages leaf) := by
  refine ⟨?_, ?_⟩
  · intro room
    exact spgistHolds_build.isSome_runCalls valid enough room
  intro index results ran
  obtain ⟨_, _, holds⟩ := spgistHolds_build.runCalls valid enough ran
  refine ⟨?_, ?_⟩
  · intro scanKey calls enoughCalls
    have short := Nat.lt_of_le_of_lt (length_acceptedEntries_le insertions results) enoughCalls
    by_cases notEqual : equalKey scanKey = none
    · exact holds.fullScan notEqual short
    obtain ⟨key, isKey⟩ := Option.ne_none_iff_exists'.1 notEqual
    obtain ⟨stored, strategy⟩ := scanKey
    rw [equalKey] at isKey
    split_ifs at isKey with isEqual
    obtain rfl : strategy = .equal := isEqual
    obtain rfl : stored = some key := isKey
    exact holds.equalScan key enough short
  · intro key
    obtain ⟨leaf, _, member, way, descended⟩ := holds.descend key enough
    obtain ⟨positive, below⟩ := holds.mem_iff.1 member
    obtain ⟨_, isLeaf⟩ := way.isLeaf
    have page := holds.pages leaf member
    rw [isLeaf] at page
    exact ⟨leaf, descended, positive, below, page.1⟩

/-- More keys than a leaf has room for. -/
def thousandKeys : List IndexInsertion :=
  (List.range 1000).map fun number =>
    ⟨.int32, [UInt8.ofNat number, UInt8.ofNat (number / 256), 0, 0], ⟨7, BitVec.ofNat 16 number⟩⟩

theorem spgistScans_exact_thousandKeys : ∃ index results,
      spgistInsertAll 33 thousandKeys = some (index, results) ∧
      ∃ tids, spgistgetbitmap 33 1001 index ⟨some [2, 0, 0, 0], .less⟩ = some tids ∧
        tids.Perm (((acceptedEntries thousandKeys results).filter fun entry =>
          Satisfies .int32 ⟨some [2, 0, 0, 0], .less⟩ entry.1).map Prod.snd) := by
  have valid : ∀ insertion ∈ thousandKeys, InsertionValid insertion := by
    intro insertion member _
    obtain ⟨_, _, rfl⟩ := mem_map.1 member
    rfl
  have length : thousandKeys.length = 1000 := by rw [thousandKeys, length_map, length_range]
  obtain ⟨returns, scans⟩ := @spgistScans_exact _ valid 33 (by decide)
  obtain ⟨⟨index, results⟩, ran⟩ :=
    Option.isSome_iff_exists.1 (returns (by rw [length]; decide))
  exact ⟨index, results, ran, (scans index results ran).1 _ 1001 (by rw [length]; decide)⟩

end Pgcpp.Access
