import Pgcpp.Access.ChainScan
import Pgcpp.Access.Gin
import Pgcpp.Lib.Simulation

/-!
# Equality scans of a GIN index

The entry page has one entry for every key, and the chain of the entry holds the
tuple identifiers of the insertions of the key that returned true.
-/

namespace Pgcpp.Access

open Lib Storage Transaction Function IndexFile Nat
open GinEntryData hiding key posting
open List hiding after all chains head

theorem ginEntryOf_bytes : ginEntryOf entry.bytes = entry := by
  obtain ⟨key, posting⟩ := entry
  have words : bytes ⟨key, posting⟩ = wordBytes [key, posting] := by
    simp [bytes, wordBytes]
  have first := @field_wordBytes [key, posting] 0 key rfl
  have second := @field_wordBytes [key, posting] 1 posting rfl
  simp [ginEntryOf, words, first, second]

theorem ginFindEntry_spec {table : List GinEntryData} (holds : Holds page (table.map bytes)) :
    (ginFindEntry page key = kInvalidOffsetNumber ∧ ∀ entry ∈ table, entry.key ≠ key) ∨
    ∃ entry ∈ table, entry.key = key ∧ ginFindEntry page key ≠ kInvalidOffsetNumber ∧
      ginEntryOf (page.item (ginFindEntry page key)) = entry := by
  have search := find?_offset holds fun item => (ginEntryOf item).key = key
  rw [findIdx?_map] at search
  have decoded : ((fun item => decide ((ginEntryOf item).key = key)) ∘
      bytes) = fun entry => decide (entry.key = key) := by
    funext entry
    rw [comp_apply, ginEntryOf_bytes]
  rw [decoded] at search
  rw [ginFindEntry, search]
  cases found : table.findIdx? fun entry => decide (entry.key = key) with
  | none =>
    left
    refine ⟨rfl, ?_⟩
    intro entry mem same
    have ne := findIdx?_eq_none_iff.1 found entry mem
    exact of_decide_eq_false ne same
  | some pos =>
    right
    obtain ⟨bound, accepted, -⟩ := findIdx?_eq_some_iff_getElem.1 found
    have item : (table.map bytes)[pos]? = some table[pos].bytes := by
      rw [getElem?_map, getElem?_eq_getElem bound]
      rfl
    refine ⟨table[pos], getElem_mem bound, of_decide_eq_true accepted, succ_ne_zero _, ?_⟩
    rw [Option.map_some, Option.getD_some, holds.item_eq item, ginEntryOf_bytes]

abbrev GinAccepted := List (BitVec 32 × ItemPointerData)

/-- The tuple identifiers of a key, as they are stored. -/
def ginPostingList (accepted : GinAccepted) (key : BitVec 32) : List (List UInt8) :=
  (accepted.filter fun pair => pair.1 = key).map fun pair => tidBytes pair.2

theorem ginPostingList_concat_self (accepted : GinAccepted) (key : BitVec 32)
    (tid : ItemPointerData) : ginPostingList (accepted ++ [(key, tid)]) key =
      ginPostingList accepted key ++ [tidBytes tid] := by
  simp [ginPostingList]

theorem ginPostingList_concat_of_ne (ne : other ≠ key) (tid : ItemPointerData) :
    ginPostingList (accepted ++ [(key, tid)]) other = ginPostingList accepted other := by
  simp [ginPostingList, ne.symm]

/-- The first blocks of the posting lists. -/
def ginHeads (table : List GinEntryData) : List Nat := table.map fun entry => entry.posting.toNat

/-- The index has the accepted tuple identifiers, each in the chain of the entry
of its key. -/
structure GinHolds (index : GinIndex) (items : Nat → List (List UInt8))
    (chains : Nat → List Nat) (table : List GinEntryData) (accepted : GinAccepted) : Prop where
  entries : Holds (index.pages kGinEntryBlock).page (table.map bytes)
  distinctKeys : (table.map GinEntryData.key).Nodup
  distinctHeads : (ginHeads table).Nodup
  formed : index.Chains items (ginHeads table) chains
  behind : ∀ head ∈ ginHeads table, ∀ block ∈ chains head, kGinEntryBlock < block
  held : ∀ entry ∈ table, (contents items (chains entry.posting.toNat)).Perm
      (ginPostingList accepted entry.key)
  complete : ∀ pair ∈ accepted, ∃ entry ∈ table, entry.key = pair.1
  blocks : kGinEntryBlock < index.nblocks

theorem ginHolds_build : GinHolds ginbuild (fun _ => []) (fun _ => []) [] [] := by
  constructor
  case entries => exact holds_init kGinEntry 0
  case distinctKeys => exact nodup_nil
  case distinctHeads => exact nodup_nil
  case formed =>
    constructor
    · intro head isHead
      contradiction
    · intro _ _
      contradiction
  case behind =>
    intro head isHead
    contradiction
  case held =>
    intro _ mem
    contradiction
  case complete =>
    intro _ mem
    contradiction
  case blocks => exact lt_succ_self 1

section

variable {items : Nat → List (List UInt8)} {chains : Nat → List Nat}

theorem mem_ginHeads (mem : entry ∈ table) : entry.posting.toNat ∈ ginHeads table :=
  mem_map.2 ⟨entry, mem, rfl⟩

theorem GinHolds.head_behind (holds : GinHolds index items chains table accepted)
    (mem : entry ∈ table) : kGinEntryBlock < entry.posting.toNat := by
  have isHead := mem_ginHeads mem
  obtain ⟨_, isChain⟩ := (holds.formed.chain _ isHead).eq_cons
  apply holds.behind _ isHead
  rw [isChain]
  exact mem_cons_self

theorem holds_ginPostingPage : Holds ginPostingPage.page [] := holds_init kGinPosting 0

theorem hasSpace_ginPostingPage (tid : ItemPointerData) :
    hasSpace ginPostingPage (tidBytes tid) := by
  apply (hasSpace_iff holds_ginPostingPage).2
  have cost : itemCost (tidBytes tid) = maxAlignUp (tidBytes tid).length + 4 := rfl
  rw [cost, tidBytes_length]
  decide

theorem GinHolds.addToEntry (holds : GinHolds index items chains table accepted)
    (mem : entry ∈ table) (ran : addToChain ginUpdateMeta ginPostingPage (tidBytes tid)
      fuel index entry.posting.toNat = some after) :
    ∃ itemsAfter chainsAfter, GinHolds after itemsAfter chainsAfter table
        (accepted ++ [(entry.key, tid)]) ∧ after.nblocks ≤ index.nblocks + 1 := by
  have isHead := mem_ginHeads mem
  have chain := holds.formed.chain _ isHead
  have space := hasSpace_ginPostingPage tid
  have added := added_of_addToChain space chain.linked chain.below ran
  obtain ⟨itemsAfter, chainsAfter, chainsAre, -⟩ :=
    holds.formed.added isHead holds_ginPostingPage rfl space added
  have blocks := holds.blocks
  have notEntryBlock : kGinEntryBlock ∉ chains entry.posting.toNat := by
    intro inChain
    exact lt_irrefl _ (holds.behind _ isHead _ inChain)
  have entryPage := chainsAre.pages kGinEntryBlock blocks notEntryBlock
  refine ⟨itemsAfter, chainsAfter, ?_, chainsAre.larger.2⟩
  constructor
  case entries =>
    rw [entryPage]
    exact holds.entries
  case distinctKeys => exact holds.distinctKeys
  case distinctHeads => exact holds.distinctHeads
  case formed => exact chainsAre.kept
  case behind =>
    intro other isOther block inChain
    rcases chainsAre.blocks other isOther block inChain with before | rfl
    · exact holds.behind other isOther block before
    · exact blocks
  case held =>
    intro other isOther
    by_cases same : other = entry
    · rw [same, ginPostingList_concat_self]
      apply chainsAre.added.trans
      apply List.Perm.trans (List.Perm.cons _ (holds.held entry mem))
      exact (perm_append_singleton ..).symm
    have otherKey : other.key ≠ entry.key := by
      intro equal
      exact same (inj_on_of_nodup_map holds.distinctKeys isOther mem equal)
    have otherHead : other.posting.toNat ≠ entry.posting.toNat := by
      intro equal
      exact same (inj_on_of_nodup_map holds.distinctHeads isOther mem equal)
    rw [ginPostingList_concat_of_ne otherKey, chainsAre.others _ (mem_ginHeads isOther) otherHead]
    exact holds.held other isOther
  case complete =>
    exact forall_mem_append.2 ⟨holds.complete, forall_mem_singleton.2 (⟨entry, mem, rfl⟩)⟩
  case blocks => exact blocks.trans_le chainsAre.larger.1

/-- The index with a new posting page. -/
def ginWithPosting (index : GinIndex) (tid : ItemPointerData) : GinIndex :=
  { metaPage := ginUpdateMeta index.metaPage (index.nblocks + 1)
    pages := update index.pages index.nblocks (addTo ginPostingPage (tidBytes tid))
    nblocks := index.nblocks + 1 }

theorem ginNewPosting_eq (blocks : kGinEntryBlock < index.nblocks)
    (room : index.nblocks < kInvalidBlockNumber) :
    ginNewPosting index kInvalidOffsetNumber key tid = if hasSpace (index.pages kGinEntryBlock)
          (bytes ⟨key, BitVec.ofNat 32 index.nblocks⟩) then
        some ((ginWithPosting index tid).setPage kGinEntryBlock (addTo (index.pages kGinEntryBlock)
            (bytes ⟨key, BitVec.ofNat 32 index.nblocks⟩)), true)
      else some (ginWithPosting index tid, false) := by
  have extended : ginNewPostingPage index = some
      { metaPage := ginUpdateMeta index.metaPage (index.nblocks + 1)
        pages := update index.pages index.nblocks ginPostingPage
        nblocks := index.nblocks + 1 } := by
    rw [ginNewPostingPage, IndexFile.extend, if_pos room]
    rfl
  have filled : setPage
      { metaPage := ginUpdateMeta index.metaPage (index.nblocks + 1)
        pages := update index.pages index.nblocks ginPostingPage
        nblocks := index.nblocks + 1 } index.nblocks
      (addTo (update index.pages index.nblocks ginPostingPage index.nblocks) (tidBytes tid)) =
      ginWithPosting index tid := by
    rw [IndexFile.setPage, ginWithPosting, update_self]
    rw [update_idem]
  have entryPage : (ginWithPosting index tid).pages kGinEntryBlock = index.pages kGinEntryBlock :=
    update_of_ne blocks.ne ..
  rw [ginNewPosting, extended]
  dsimp only
  rw [filled, entryPage, if_neg (not_not_intro rfl)]

section

variable (holds : GinHolds index items chains table accepted)

include holds

theorem GinHolds.chains_withPosting :
    (ginWithPosting index tid).Chains items (ginHeads table) chains := by
  apply holds.formed.frame
  · intro head isHead block inChain
    have below := (holds.formed.chain head isHead).below block inChain
    exact update_of_ne below.ne ..
  · exact le_succ _

theorem GinHolds.withPosting (tid : ItemPointerData) :
    GinHolds (ginWithPosting index tid) items chains table accepted := by
  constructor
  case entries =>
    have same : (ginWithPosting index tid).pages kGinEntryBlock = _ :=
      update_of_ne (Nat.ne_of_lt holds.blocks) ..
    rw [same]
    exact holds.entries
  case distinctKeys => exact holds.distinctKeys
  case distinctHeads => exact holds.distinctHeads
  case formed => exact holds.chains_withPosting
  case behind => exact holds.behind
  case held => exact holds.held
  case complete => exact holds.complete
  case blocks => exact lt_succ_of_lt holds.blocks

theorem GinHolds.ginPostingList_new (new : ∀ entry ∈ table, entry.key ≠ key) :
    ginPostingList accepted key = [] := by
  have none : (accepted.filter fun pair => pair.1 = key) = [] := by
    apply filter_eq_nil_iff.2
    intro pair mem same
    obtain ⟨entry, isEntry, equal⟩ := holds.complete pair mem
    exact new entry isEntry (equal.trans (of_decide_eq_true same))
  rw [ginPostingList, none, map_nil]

theorem GinHolds.newEntry (new : ∀ entry ∈ table, entry.key ≠ key)
    (room : index.nblocks < kInvalidBlockNumber) (space : hasSpace (index.pages kGinEntryBlock)
      (bytes ⟨key, BitVec.ofNat 32 index.nblocks⟩)) :
    GinHolds ((ginWithPosting index tid).setPage kGinEntryBlock (addTo (index.pages kGinEntryBlock)
          (bytes ⟨key, BitVec.ofNat 32 index.nblocks⟩))) (update items index.nblocks [tidBytes tid])
      (update chains index.nblocks [index.nblocks])
      (table ++ [⟨key, BitVec.ofNat 32 index.nblocks⟩]) (accepted ++ [(key, tid)]) := by
  have blocks := holds.blocks
  have posting : (BitVec.ofNat 32 index.nblocks).toNat = index.nblocks := by
    have limit : kInvalidBlockNumber < 2 ^ 32 := by decide
    exact mod_eq_of_lt (room.trans limit)
  have heads : ginHeads (table ++ [⟨key, BitVec.ofNat 32 index.nblocks⟩]) =
      ginHeads table ++ [index.nblocks] := by
    rw [ginHeads, map_append, map_singleton, posting, ← ginHeads]
  have fresh : ∀ head ∈ ginHeads table, ∀ block ∈ chains head, block ≠ index.nblocks := by
    intro head isHead block inChain
    exact Nat.ne_of_lt ((holds.formed.chain head isHead).below block inChain)
  have newHead : ∀ head ∈ ginHeads table, head ≠ index.nblocks := by
    intro head isHead
    obtain ⟨_, isChain⟩ := (holds.formed.chain head isHead).eq_cons
    apply fresh head isHead
    rw [isChain]
    exact mem_cons_self
  have cases {entry : GinEntryData}
      (mem : entry ∈ table ++ [⟨key, BitVec.ofNat 32 index.nblocks⟩]) :
      entry ∈ table ∨ entry = ⟨key, BitVec.ofNat 32 index.nblocks⟩ := by
    rcases mem_append.1 mem with there | isNew
    · exact .inl there
    · exact .inr (mem_singleton.1 isNew)
  constructor
  case entries =>
    rw [map_append]
    exact holds_addTo holds.entries space
  case distinctKeys =>
    rw [map_append]
    apply List.Nodup.append holds.distinctKeys (nodup_singleton _)
    rw [disjoint_singleton]
    intro inKeys
    obtain ⟨entry, mem, same⟩ := mem_map.1 inKeys
    exact new entry mem same
  case distinctHeads =>
    rw [heads]
    apply List.Nodup.append holds.distinctHeads (nodup_singleton _)
    rw [disjoint_singleton]
    intro isHead
    exact newHead _ isHead rfl
  case formed =>
    rw [heads]
    have newPage : ((ginWithPosting index tid).setPage kGinEntryBlock
        (addTo (index.pages kGinEntryBlock)
          (bytes ⟨key, BitVec.ofNat 32 index.nblocks⟩))).pages index.nblocks =
        addTo ginPostingPage (tidBytes tid) := by
      rw [IndexFile.setPage, ginWithPosting]
      dsimp only
      rw [update_of_ne (blocks.ne'), update_self]
    apply IndexFile.Chains.newHead
    · apply holds.chains_withPosting.frame
      · intro head isHead block inChain
        exact update_of_ne (ne_of_gt (holds.behind head isHead block inChain)) ..
      · exact le_rfl
    · exact fresh
    · rw [newPage]
      rfl
    · rw [newPage]
      exact holds_addTo holds_ginPostingPage (hasSpace_ginPostingPage tid)
    · exact lt_add_one _
  case behind =>
    intro head isHead block inChain
    rw [heads] at isHead
    rcases mem_append.1 isHead with there | isNew
    · rw [update_of_ne (newHead head there)] at inChain
      exact holds.behind head there block inChain
    rw [mem_singleton.1 isNew, update_self] at inChain
    rw [mem_singleton.1 inChain]
    exact blocks
  case held =>
    intro entry mem
    rcases cases mem with there | rfl
    · have isHead := mem_ginHeads there
      have same : contents (update items index.nblocks [tidBytes tid])
          (chains entry.posting.toNat) =
          contents items (chains entry.posting.toNat) := by
        apply contents_congr
        intro block inChain
        exact update_of_ne (fresh _ isHead block inChain) ..
      rw [update_of_ne (newHead _ isHead), same, ginPostingList_concat_of_ne (new entry there)]
      exact holds.held entry there
    · rw [posting, update_self, ginPostingList_concat_self, holds.ginPostingList_new new,
        contents, flatMap_singleton, update_self]
      exact List.Perm.refl _
  case complete =>
    intro pair isPair
    rcases mem_append.1 isPair with before | isNew
    · obtain ⟨entry, mem, same⟩ := holds.complete pair before
      exact ⟨entry, mem_append_left _ mem, same⟩
    · rw [mem_singleton.1 isNew]
      exact ⟨_, mem_append_right _ mem_cons_self, rfl⟩
  case blocks => exact lt_succ_of_lt blocks

/-! ## Runs of insertions -/

end

def ginInsertion (fuel : Nat) (index : GinIndex)
    (insertion : IndexInsertion) : Option (GinIndex × Bool) :=
  gininsert fuel index insertion.kind insertion.key insertion.tid

def ginInsertAll (fuel : Nat) (insertions : List IndexInsertion) : Option (GinIndex × List Bool) :=
  runCalls (ginInsertion fuel) ginbuild insertions

/-- The insertions that returned true. -/
def ginAccepted (insertions : List IndexInsertion) (results : List Bool) : GinAccepted :=
  ((insertions.zip results).filter Prod.snd).map fun pair => (int32Key pair.1.key, pair.1.tid)

theorem ginAccepted_cons : ginAccepted (insertion :: insertions) (result :: results) =
      ginAccepted [insertion] [result] ++ ginAccepted insertions results := by
  cases result with
  | false => rfl
  | true => rfl

section

variable (holds : GinHolds index items chains table accepted)

include holds

/-- An insertion goes to the chain of its key, or it makes a new one. -/
theorem GinHolds.gininsert_cases :
    (∃ entry ∈ table, entry.key = int32Key key ∧ gininsert fuel index .int32 key tid =
        (addToChain ginUpdateMeta ginPostingPage (tidBytes tid) fuel
          index entry.posting.toNat).map fun after => (after, true)) ∨
    ((∀ entry ∈ table, entry.key ≠ int32Key key) ∧ gininsert fuel index .int32 key tid =
        ginNewPosting index kInvalidOffsetNumber (int32Key key) tid) := by
  rw [gininsert, if_neg (not_not_intro rfl)]
  dsimp only
  rcases ginFindEntry_spec holds.entries with
    ⟨notFound, new⟩ | ⟨entry, mem, same, found, isEntry⟩
  · right
    refine ⟨new, ?_⟩
    rw [notFound, if_neg (not_not_intro rfl), if_pos rfl]
  left
  have pos : entry.posting.toNat ≠ 0 :=
    ne_of_gt (lt_trans zero_lt_one (holds.head_behind mem))
  refine ⟨entry, mem, same, ?_⟩
  rw [if_pos found, isEntry, if_neg pos]

theorem GinHolds.insert {insertion : IndexInsertion} {result : Bool}
    (ran : ginInsertion fuel index insertion = some (after, result)) :
    (∃ itemsAfter chainsAfter tableAfter, GinHolds after itemsAfter chainsAfter tableAfter
        (accepted ++ ginAccepted [insertion] [result])) ∧ after.nblocks ≤ index.nblocks + 1 := by
  obtain ⟨kind, key, tid⟩ := insertion
  rw [ginInsertion] at ran
  by_cases isInt : kind = .int32
  · rw [isInt] at ran
    rcases holds.gininsert_cases with
      ⟨entry, mem, same, inserted⟩ | ⟨new, inserted⟩
    · rw [inserted] at ran
      obtain ⟨_, ranAdd, isAfter⟩ := Option.map_eq_some_iff.1 ran
      cases isAfter
      obtain ⟨itemsAfter, chainsAfter, holdsAfter, larger⟩ := holds.addToEntry mem ranAdd
      rw [same] at holdsAfter
      exact ⟨⟨itemsAfter, chainsAfter, table, holdsAfter⟩, larger⟩
    rw [inserted] at ran
    by_cases room : index.nblocks < kInvalidBlockNumber
    · rw [ginNewPosting_eq holds.blocks room] at ran
      split_ifs at ran with space
      · cases ran
        exact ⟨⟨_, _, _, holds.newEntry new room space⟩, le_rfl⟩
      cases ran
      refine ⟨⟨items, chains, table, ?_⟩, le_rfl⟩
      have kept := holds.withPosting tid
      rwa [← append_nil accepted] at kept
    · rw [ginNewPosting, ginNewPostingPage, IndexFile.extend, if_neg room] at ran
      contradiction
  · rw [gininsert, if_pos isInt] at ran
    cases ran
    refine ⟨⟨items, chains, table, ?_⟩, le_succ _⟩
    rwa [← append_nil accepted] at holds

theorem GinHolds.isSome_run (insertion : IndexInsertion)
    (room : index.nblocks < kInvalidBlockNumber) (enough : index.nblocks < fuel) :
    (ginInsertion fuel index insertion).isSome := by
  obtain ⟨kind, key, tid⟩ := insertion
  rw [ginInsertion]
  by_cases isInt : kind = .int32
  · rw [isInt]
    rcases holds.gininsert_cases with
      ⟨entry, mem, -, inserted⟩ | ⟨-, inserted⟩
    · have chain := holds.formed.chain _ (mem_ginHeads mem)
      rw [inserted, Option.isSome_map]
      apply isSome_addToChain (hasSpace_ginPostingPage tid) chain.linked chain.below room
      exact lt_of_le_of_lt chain.length_le enough
    · rw [inserted, ginNewPosting_eq holds.blocks room]
      split_ifs
      · rfl
      · rfl
  · rw [gininsert, if_pos isInt]
    rfl

theorem GinHolds.runCalls
    (ran : Lib.runCalls (ginInsertion fuel) index insertions = some (after, results)) :
    (∃ itemsAfter chainsAfter tableAfter, GinHolds after itemsAfter chainsAfter tableAfter
        (accepted ++ ginAccepted insertions results)) ∧
      after.nblocks ≤ index.nblocks + insertions.length := by
  induction insertions generalizing index items chains table accepted results with
  | nil =>
    cases ran
    refine ⟨⟨items, chains, table, ?_⟩, le_rfl⟩
    rwa [← append_nil accepted] at holds
  | cons _ _ ih =>
    obtain ⟨_, _, _, first, ranRest, rfl⟩ := runCalls_cons_inv ran
    obtain ⟨⟨_, _, _, holdsBetween⟩, _⟩ := holds.insert first
    obtain ⟨all, _⟩ := ih holdsBetween ranRest
    rw [ginAccepted_cons, ← append_assoc, length_cons]
    exact ⟨all, by omega⟩

theorem GinHolds.isSome_runCalls (insertions : List IndexInsertion)
    (room : index.nblocks + insertions.length ≤ kInvalidBlockNumber)
    (enough : index.nblocks + insertions.length ≤ fuel) :
    (Lib.runCalls (ginInsertion fuel) index insertions).isSome := by
  induction insertions generalizing index items chains table accepted with
  | nil => rfl
  | cons insertion _ ih =>
    rw [length_cons] at room enough
    have returns := holds.isSome_run insertion (show index.nblocks < kInvalidBlockNumber by omega)
      (show index.nblocks < fuel by omega)
    obtain ⟨⟨_, _⟩, first⟩ := Option.isSome_iff_exists.1 returns
    obtain ⟨⟨_, _, _, holdsBetween⟩, _⟩ := holds.insert first
    have later := ih holdsBetween (by omega) (by omega)
    obtain ⟨⟨_, _⟩, ranRest⟩ := Option.isSome_iff_exists.1 later
    rw [runCalls_cons first ranRest]
    rfl

/-! ## Equality scans -/

end

structure GinRemaining (index : GinIndex) (items : Nat → List (List UInt8))
    (chains : Nat → List Nat) (fuel : Nat) (scan : GinScanDesc)
    (tuples : List ItemPointerData) : Prop where
  inited : scan.inited
  equal : (equalKey scan.scanKey).isSome
  position : (scan.postingBuf = none ∧ tuples = []) ∨ ∃ block left, scan.postingBuf = some block ∧
      index.ScanAt items (fun _ => true) fuel chains block scan.postingOff []
        left ∧
      tuples = left.map btItemTid

theorem delivers_gingettuple :
    Delivers (gingettuple fuel index) (GinRemaining index items chains fuel) := by
  apply Delivers.of_cases
  intro scan tuples remaining
  obtain ⟨_, isKey⟩ := Option.isSome_iff_exists.1 remaining.equal
  simp only [gingettuple, ginScanPostings, remaining.inited, isKey, if_true]
  rcases remaining.position with
    ⟨unpinned, nothing⟩ | ⟨block, left, pinned, scanAt, rfl⟩
  · rw [unpinned]
    exact .inl ⟨nothing, _, rfl⟩
  rw [pinned]
  dsimp only
  rcases scanChains_spec scanAt with
    ⟨ended, rfl⟩ | ⟨item, number, place, offset, later, more, found, rfl, scanAtAfter, follows⟩
  · rw [ended]
    exact .inl ⟨rfl, _, rfl⟩
  rw [found]
  have noLater : later = [] := by
    rcases follows with ⟨-, same⟩ | ⟨_, _, split⟩
    · exact same
    · simp at split
  rw [noLater] at scanAtAfter
  exact .inr ⟨_, _, rfl, _, rfl, rfl, remaining.equal, .inr ⟨place, more, rfl, scanAtAfter, rfl⟩⟩

section

variable (holds : GinHolds index items chains table accepted)

include holds

theorem GinHolds.ginStartPosting_cases :
    (ginStartPosting index key = none ∧ ∀ entry ∈ table, entry.key ≠ int32Key key) ∨
    ∃ entry ∈ table, entry.key = int32Key key ∧
      ginStartPosting index key = some entry.posting.toNat := by
  rw [ginStartPosting]
  rcases ginFindEntry_spec holds.entries with
    ⟨notFound, new⟩ | ⟨entry, mem, same, found, isEntry⟩
  · left
    rw [notFound]
    exact ⟨rfl, new⟩
  right
  have pos : entry.posting.toNat ≠ 0 :=
    ne_of_gt (lt_trans zero_lt_one (holds.head_behind mem))
  refine ⟨entry, mem, same, ?_⟩
  rw [if_neg found, isEntry, if_neg pos]

theorem GinHolds.equalScan (key : List UInt8) (pages : index.nblocks ≤ fuel)
    (enough : accepted.length < calls) :
    ∃ tids, gingetbitmap fuel calls index ⟨some key, .equal⟩ = some tids ∧
      tids.Perm ((accepted.filter fun pair => pair.1 = int32Key key).map Prod.snd) := by
  let started : GinScanDesc :=
    { scanKey := ⟨some key, .equal⟩
      entryOff := 1, postingBuf := ginStartPosting index key, postingOff := 1, inited := true }
  have first : gingettuple fuel index (ginbeginscan ⟨some key, .equal⟩) =
        gingettuple fuel index started := rfl
  have stored : (accepted.filter fun pair =>
      pair.1 = int32Key key).map Prod.snd =
      (ginPostingList accepted (int32Key key)).map btItemTid := by
    rw [ginPostingList, map_map]
    apply map_congr_left
    intro pair _
    exact btItemTid_tidBytes.symm
  rw [gingetbitmap, drain_congr first, stored]
  rcases holds.ginStartPosting_cases with
    ⟨noPosting, new⟩ | ⟨entry, mem, same, posting⟩
  · have remaining : GinRemaining index items chains fuel started [] :=
      ⟨rfl, rfl, .inl ⟨noPosting, rfl⟩⟩
    refine ⟨[], delivers_gingettuple.drain remaining ?_, ?_⟩
    · exact lt_of_le_of_lt (zero_le _) enough
    · rw [holds.ginPostingList_new new]
      exact List.Perm.refl _
  have chain := holds.formed.chain _ (mem_ginHeads mem)
  have short := le_trans chain.length_le pages
  have held := holds.held entry mem
  rw [same] at held
  have scanAt := @IndexFile.scanAt_head _ _ _ (fun _ => true) fuel chains
    entry.posting.toNat [] chain short fun _ isLater => absurd isLater not_mem_nil
  rw [filter_true, flatMap_nil, filter_nil, append_nil] at scanAt
  have remaining : GinRemaining index items chains fuel started
      ((contents items (chains entry.posting.toNat)).map btItemTid) :=
    ⟨rfl, rfl, .inr ⟨_, _, posting, scanAt, rfl⟩⟩
  refine ⟨_, delivers_gingettuple.drain remaining ?_, held.map btItemTid⟩
  rw [length_map, held.length_eq, ginPostingList, length_map]
  exact lt_of_le_of_lt (length_filter_le ..) enough

end

end

end Pgcpp.Access
