import Pgcpp.Executor.UpdatePages

/-!
# Sequential scans

A scan notes at most 256 visible tuples of a page when it enters the page, and
a page has room for more tuples than that if they have no data.
-/

namespace Pgcpp.Executor

open Lib Storage Transaction Access Commands HeapSession PageData
open List hiding after all count

def heapRescan (session : HeapSession) (scan : HeapScanDesc) : HeapScanDesc :=
  { scan with
    nblocks := session.pages.length, cblock := 0, inited := false, vistuples := []
    vistupleIndex := 0 }

/-- What at most `fuel` calls of `heap_getnext` return, up to the end of the
scan. -/
def drainScan : Nat → HeapScanDesc → HeapSession → Option (List ScannedTuple)
  | 0, _, _ => none
  | fuel + 1, scan, session =>
    match session.heapGetnext scan with
    | (none, _, _) => some []
    | (some tuple, scan, session) => (drainScan fuel scan session).map (tuple :: ·)

namespace UpdateStart

section

variable (start : UpdateStart)

/-- The tuples that a scan notes on a block. -/
def notedTuples (block : Nat) : List ScannedTuple :=
  ((start.visibleOn block).take kHeapTuplesPerPage).map (start.tupleOn block)

/-- What a scan still returns. -/
def scanLeft (scan : HeapScanDesc) : List ScannedTuple :=
  (scan.vistuples.drop scan.vistupleIndex).map (start.tupleOn scan.cblock) ++
    (range' scan.nextBlock (scan.nblocks - scan.nextBlock)).flatMap start.notedTuples

/-- The checks on the blocks so far have filled the cache and set hint bits. -/
structure Scanned (scan : HeapScanDesc) (session : HeapSession) : Prop where
  same : scan.nblocks = start.nblocks
  coherent : session.backend.cache.Coherent session.backend.log
  visible : ∀ page, visibleOffsets session.backend session.snapshot page =
    visibleOffsets start.backend start.snapshot page
  unread : ∀ block, scan.nextBlock ≤ block → session.pages[block]? = start.pages[block]?
  noted : ∀ offset ∈ scan.vistuples,
    session.tupleAt ⟨scan.cblock, offset⟩ = some (start.tupleOn scan.cblock offset)

end

variable {start : UpdateStart} {scan : HeapScanDesc} {session : HeapSession}

theorem Scanned.enter (during : start.Scanned scan session) (more : scan.nextBlock < scan.nblocks) :
    let after := session.heapScanPage scan scan.nextBlock
    start.Scanned after.1 after.2 ∧
      after.1.vistuples = (start.visibleOn scan.nextBlock).take kHeapTuplesPerPage := by
  have inside : scan.nextBlock < start.pages.length := more.trans_eq during.same
  have isPage : start.pages[scan.nextBlock]? = some (start.page scan.nextBlock) := by
    rw [page, getD_eq_getElem?_getD, getElem?_eq_getElem inside, Option.getD_some]
  have found := (during.unread _ le_rfl).trans isPage
  obtain ⟨noted, kept, coherent⟩ := scanPage_spec during.coherent
    (start.formed _ (mem_of_getElem? isPage))
  rw [during.visible] at noted
  simp only [heapScanPage, enterBlock, found]
  refine ⟨⟨during.same, coherent, ?_, ?_, ?_⟩, noted⟩
  · intro page
    rw [visibleOffsets_eq coherent, ← during.visible, visibleOffsets_eq during.coherent]
    rfl
  · intro block later
    apply (getElem?_set_ne (Nat.ne_of_lt later)).trans
    exact during.unread block (Nat.le_of_succ_le later)
  · intro offset mem
    have visible := mem_of_mem_take (noted ▸ mem)
    have here := (List.getElem?_eq_some_iff.1 found).1
    rw [tupleAt, getElem?_set_self here, Option.map_some,
      kept.rows offset (isNormal_of_visible visible)]
    rfl

theorem Scanned.advance (during : start.Scanned scan session)
    (left : scan.nblocks - scan.nextBlock = blocks) : let after := advanceScan blocks scan session
    start.Scanned after.1 after.2 ∧ start.scanLeft after.1 = start.scanLeft scan ∧
      (after.1.vistuples[after.1.vistupleIndex]? = none →
        after.1.nblocks - after.1.nextBlock = 0) := by
  induction blocks generalizing scan session with
  | zero => exact ⟨during, rfl, fun _ => left⟩
  | succ blocks ih =>
    unfold advanceScan
    by_cases more : scan.vistupleIndex < scan.vistuples.length
    · rw [if_pos more]
      refine ⟨during, rfl, fun ends => ?_⟩
      exact absurd (getElem?_eq_none_iff.1 ends) (not_le.2 more)
    rw [if_neg more]
    obtain ⟨next, noted⟩ := during.enter (by omega)
    have rest : scan.nblocks - (scan.nextBlock + 1) = blocks := by omega
    obtain ⟨afterwards, same, ends⟩ := ih next rest
    refine ⟨afterwards, same.trans ?_, ends⟩
    rw [scanLeft, scanLeft, drop_of_length_le (not_lt.1 more), left, noted]
    change map _ (drop 0 _) ++ (range' (scan.nextBlock + 1)
      (scan.nblocks - (scan.nextBlock + 1))).flatMap _ = _
    rw [rest]
    rfl

theorem Scanned.drain (during : start.Scanned scan session)
    (enough : (start.scanLeft scan).length < fuel) :
    drainScan fuel scan session = some (start.scanLeft scan) := by
  induction fuel generalizing scan session with
  | zero => contradiction
  | succ fuel ih =>
    obtain ⟨afterwards, same, ends⟩ := during.advance rfl
    rw [← same] at enough ⊢
    unfold drainScan heapGetnext
    generalize advanceScan (scan.nblocks - scan.nextBlock) scan session = after at *
    obtain ⟨later, session⟩ := after
    dsimp only at afterwards ends enough ⊢
    cases noted : later.vistuples[later.vistupleIndex]? with
    | none =>
      rw [scanLeft, ends noted, drop_of_length_le (getElem?_eq_none_iff.1 noted)]
      rfl
    | some _ =>
      obtain ⟨index, rfl⟩ := List.getElem?_eq_some_iff.1 noted
      have first : start.scanLeft later =
          start.tupleOn later.cblock later.vistuples[later.vistupleIndex] ::
            start.scanLeft { later with vistupleIndex := later.vistupleIndex + 1 } := by
        rw [scanLeft, drop_eq_getElem_cons index]
        rfl
      rw [first] at enough ⊢
      have next : start.Scanned { later with vistupleIndex := later.vistupleIndex + 1 } session :=
        { afterwards with }
      simp [afterwards.noted _ (getElem_mem index), ih next (Nat.lt_of_succ_lt_succ enough)]

/-- A block returns all of its tuples if it has no more than a scan notes. -/
theorem notedTuples_eq_iff (start : UpdateStart) :
    ((range blocks).flatMap start.notedTuples).length ≤ (start.visibleBefore blocks).length ∧
      ((range blocks).flatMap start.notedTuples = start.visibleBefore blocks ↔
        ∀ block < blocks, (start.visibleOn block).length ≤ kHeapTuplesPerPage) := by
  induction blocks with
  | zero => simp [visibleBefore]
  | succ blocks ih =>
    obtain ⟨_, exact⟩ := ih
    have last : (start.notedTuples blocks).length =
        min kHeapTuplesPerPage (start.visibleOn blocks).length := by
      rw [notedTuples, length_map, length_take]
    rw [visibleBefore, range_succ, flatMap_append, flatMap_append, flatMap_singleton,
      flatMap_singleton, ← visibleBefore]
    constructor
    · rw [length_append, length_append, length_map]
      omega
    rw [Nat.forall_lt_succ_right, ← exact]
    constructor
    · intro same
      have lengths := congrArg length same
      rw [length_append, length_append, length_map] at lengths
      refine ⟨(append_inj same (by omega)).1, by omega⟩
    · rintro ⟨same, few⟩
      rw [same, notedTuples, take_of_length_le few]

theorem drainScan_eq (start : UpdateStart) :
    drainScan (start.visibleTuples.length + 1) start.heapBeginscan start.toHeapSession =
      some ((range start.nblocks).flatMap start.notedTuples) := by
  have begun : start.Scanned start.heapBeginscan start.toHeapSession :=
    ⟨rfl, start.coherent, fun _ => rfl, fun _ _ => rfl, fun _ mem => absurd mem not_mem_nil⟩
  have all : start.scanLeft start.heapBeginscan =
      (range start.nblocks).flatMap start.notedTuples := by
    rw [range_eq_range']
    rfl
  rw [← all]
  apply begun.drain
  rw [all]
  exact Nat.lt_succ_of_le start.notedTuples_eq_iff.1

theorem scan_exact_iff (start : UpdateStart) (earlier : HeapScanDesc) :
    let returned scan := drainScan (start.visibleTuples.length + 1) scan start.toHeapSession
    let few := ∀ block < start.nblocks, (start.visibleOn block).length ≤ kHeapTuplesPerPage
    (returned start.heapBeginscan = some start.visibleTuples ↔ few) ∧
      (returned (heapRescan start.toHeapSession earlier) = some start.visibleTuples ↔ few) := by
  intro returned few
  have begun : returned start.heapBeginscan = some start.visibleTuples ↔ few := by
    have drained : returned start.heapBeginscan = _ := start.drainScan_eq
    rw [drained, Option.some_inj]
    exact (start.notedTuples_eq_iff).2
  exact ⟨begun, begun⟩

end UpdateStart

def nullRow : FormedTuple :=
  ⟨toBytes 18 0 ++ toBytes 2 1 ++ toBytes 2 kHeapHasNull.toNat ++ [24, 1], by decide, true, false,
    by decide⟩

/-- A page after insertions of that row by the transaction 3. -/
def nullRows (count : Nat) : PageData :=
  (fun page => page.appended (insertedBlock nullRow.block 3 0))^[count] (pageInit kBlckSz 0)

theorem nullRows_grown (few : count ≤ 291) :
    ((nullRows count).pdLower = 24 + 4 * count ∧ (nullRows count).pdUpper = 8192 - 24 * count) ∧
      Grown 3 0 (pageInit kBlckSz 0) count (nullRows count) := by
  induction count with
  | zero => exact ⟨⟨rfl, rfl⟩, .unchanged⟩
  | succ count ih =>
    obtain ⟨⟨lower, upper⟩, grown⟩ := ih (by omega)
    have added : nullRows (count + 1) =
        (nullRows count).appended (insertedBlock nullRow.block 3 0) :=
      Function.iterate_succ_apply' ..
    have size : maxAlignUp (insertedBlock nullRow.block 3 0).length = 24 := by decide
    have last : (nullRows count).maxOffsetNumber = count := grown.maxOffsetNumber.trans (zero_add _)
    rw [added]
    refine ⟨?_, grown.append ?_ (fresh_insertedBlock nullRow 3 0)⟩
    · simp only [appended, kPageHeaderSize, kItemIdSize]
      omega
    · simp only [PageData.Fits, size, lower, kPageHeaderSize, kItemIdSize]
      omega

theorem nullRows_keepsRows : KeepsRows (pageInit kBlckSz 0) (nullRows 257) :=
  (nullRows_grown (by decide)).2.keepsRows (heapFormed_pageInit (by decide))

/-- The transaction has inserted 257 rows in an empty table. -/
def nullTable : UpdateStart :=
  { backend :=
      { stack := [{ pushedState [] with
          transactionId := 3, state := .inProgress, blockState := .started }]
        nextSubTransactionId := 2, nextXid := 4, log := fun _ => .inProgress, cache := .empty }
    snapshot := { xmin := 3, xmax := 4, xip := [], snapshotXid := 3, curcid := 1 }
    pages := [nullRows 257], inTransaction := cons_ne_nil _ _
    coherent := LogCache.coherent_empty
    formed := forall_mem_singleton.2 nullRows_keepsRows.formed
    bounded := forall_mem_singleton.2 nullRows_keepsRows.special.le }

theorem nullTable_misses_row : nullTable.visibleTuples.length = 257 ∧
    ∃ returned, drainScan 258 nullTable.heapBeginscan nullTable.toHeapSession = some returned ∧
      returned.length = 256 := by
  have visible : nullTable.visibleOn 0 = range' 1 257 := by
    have grown := (@nullRows_grown 257 (by decide)).2
    have page : nullTable.page 0 = nullRows 257 := getD_cons_zero
    rw [UpdateStart.visibleOn, page, visibleOffsets_eq nullTable.coherent,
      grown.filter_normalOffsets (heapFormed_pageInit (by decide))
        fun _ fresh => fresh.verdict (by decide) (by decide) (by decide)]
    exact nil_append _
  have all : nullTable.visibleTuples.length = 257 := by
    change ((nullTable.visibleOn 0).map _ ++ []).length = 257
    rw [append_nil, length_map, visible, length_range']
  refine ⟨all, _, all ▸ nullTable.drainScan_eq, ?_⟩
  change (nullTable.notedTuples 0 ++ []).length = 256
  rw [append_nil, UpdateStart.notedTuples, length_map, length_take, visible, length_range']
  rfl

end Pgcpp.Executor
