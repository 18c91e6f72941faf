import Pgcpp.Executor.ModifyTable

/-!
# Pages under an UPDATE

What a scan and the updates do to one page.  The rows on a page stay as they
are: checks set hint bits, an update writes to the transaction fields of the old
version, and the new version is appended.
-/

namespace Pgcpp.Executor

open Lib Storage Transaction Access Commands PageData ByteMem
open List hiding after all count
open Transaction.Visibility

section

variable {block : List UInt8} (long : kHeapTupleHeaderSize ≤ block.length)

include long

theorem length_withInfomask : (withInfomask block infomask).length = block.length := by
  unfold kHeapTupleHeaderSize at long
  apply length_patch
  rw [toBytes_length]
  omega

theorem length_withXmax (xid : TransactionId) : (withXmax block xid).length = block.length := by
  unfold kHeapTupleHeaderSize at long
  apply length_patch
  rw [toBytes_length]
  omega

theorem length_withCid (cid : CommandId) : (withCid block cid).length = block.length := by
  unfold kHeapTupleHeaderSize at long
  apply length_patch
  rw [toBytes_length]
  omega

section

variable (xid : TransactionId)

include xid

section

variable (cid : CommandId)

include cid

theorem length_insertedBlock : (insertedBlock block xid cid).length = block.length := by
  have first := length_withXmin long xid
  have second := length_withCid (first ▸ long) cid
  rw [insertedBlock, length_withXmax (by omega), second, first]

theorem headerOf_insertedBlock : headerOf (insertedBlock block xid cid) = { headerOf block with
        tXmin := xid, tCid := cid, tXmax := kInvalidTransactionId } := by
  have first := length_withXmin long xid
  have second := length_withCid (first ▸ long) cid
  rw [insertedBlock, headerOf_withXmax (by omega),
    headerOf_withCid (by omega), headerOf_withXmin long]

theorem length_updatedBlock (newTid : HeapTid) :
    (updatedBlock block xid cid newTid).length = block.length := by
  have first := length_withXmax long xid
  have second := length_withCid (first ▸ long) cid
  unfold kHeapTupleHeaderSize at long
  rw [updatedBlock, withTid, length_patch, second, first]
  simp only [length_append, toBytes_length]
  omega

theorem userRow_updatedBlock (newTid : HeapTid) :
    userRow (updatedBlock block xid cid newTid) = userRow block := by
  have first := length_withXmax long xid
  have second := length_withCid (first ▸ long) cid
  rw [updatedBlock, withTid, userRow_patch (by omega) (by simp), withCid,
    userRow_patch (by omega) (by simp), withXmax, userRow_patch long (by simp)]

end

end

end

/-! ## Writes to a tuple -/

theorem le_length_item (formed : HeapFormed page) (normal : page.IsNormal offset) :
    kHeapTupleHeaderSize ≤ (page.item offset).length := by
  rw [item, slice_length]
  exact formed.headers offset normal

theorem setItem_item_self (sameLength : block.length = (page.item offset).length) :
    (setItem page offset block).item offset = block := by
  rw [item, slice_length] at sameLength
  unfold item setItem
  rw [← sameLength]
  exact slice_store_self ..

theorem setItem_item_other (formed : HeapFormed page) (normal : page.IsNormal offset)
    (sameLength : block.length = (page.item offset).length)
    (otherNormal : page.IsNormal other) (ne : other ≠ offset) :
    (setItem page offset block).item other = page.item other := by
  rw [item, slice_length] at sameLength
  have separate := formed.formed.apart other offset otherNormal normal ne
  have alignedOther := le_maxAlignUp (page.linp other).liLen
  have alignedHere := le_maxAlignUp (page.linp offset).liLen
  unfold item setItem
  apply slice_store_of_disjoint
  dsimp only
  omega

theorem heapFormed_setItem (formed : HeapFormed page) : HeapFormed (setItem page offset block) := by
  obtain ⟨⟨header, lower, upper, above, below, nonempty, apart⟩, headers⟩ := formed
  exact ⟨⟨header, lower, upper, above, below, nonempty, apart⟩, headers⟩

/-- The rows of a page are still there on another one. -/
structure KeepsRows (before after : PageData) : Prop where
  formed : HeapFormed after
  special : after.pdSpecial = before.pdSpecial
  grown : before.maxOffsetNumber ≤ after.maxOffsetNumber
  normal : ∀ offset, before.IsNormal offset → after.IsNormal offset
  rows : ∀ offset, before.IsNormal offset →
    userRow (after.item offset) = userRow (before.item offset)

namespace KeepsRows

theorem refl (formed : HeapFormed page) : KeepsRows page page :=
  ⟨formed, rfl, le_rfl, fun _ normal => normal, fun _ _ => rfl⟩

theorem trans (first : KeepsRows before during)
    (second : KeepsRows during after) : KeepsRows before after := by
  constructor
  · exact second.formed
  · rw [second.special, first.special]
  · exact first.grown.trans second.grown
  · intro offset normal
    exact second.normal offset (first.normal offset normal)
  · intro offset normal
    rw [second.rows offset (first.normal offset normal), first.rows offset normal]

theorem setItem (formed : HeapFormed page) (normal : page.IsNormal offset)
    (sameLength : block.length = (page.item offset).length)
    (sameRow : userRow block = userRow (page.item offset)) :
    KeepsRows page (setItem page offset block) := by
  refine ⟨heapFormed_setItem formed, rfl, le_rfl, fun _ normal => normal, ?_⟩
  intro other otherNormal
  by_cases same : other = offset
  · rw [same, setItem_item_self sameLength, sameRow]
  · rw [setItem_item_other formed normal sameLength otherNormal same]

end KeepsRows

/-! ## Appended tuples -/

section

variable {page : PageData}

theorem fits_of_le_heapFreeSpace (formed : page.WellFormed)
    (long : kHeapTupleHeaderSize ≤ block.length)
    (room : block.length ≤ page.heapFreeSpace) : page.Fits block := by
  have header := formed.header
  unfold heapFreeSpace maxAlignDown kItemIdSize at room
  unfold kHeapTupleHeaderSize at long
  unfold PageData.Fits maxOffsetNumber maxAlignUp kItemIdSize
  constructor
  · omega
  · omega

theorem item_appended_other (formed : page.WellFormed) (fits : page.Fits block)
    (normal : page.IsNormal offset) : (page.appended block).item offset = page.item offset := by
  have ne : offset ≠ page.maxOffsetNumber + 1 := by
    have := normal.2.1
    omega
  have above := formed.above offset normal
  have aligned := le_maxAlignUp block.length
  have room := fits.1
  unfold item
  rw [appended_linp_other page block ne]
  apply slice_store_of_disjoint
  omega

theorem item_appended_last : (page.appended block).item (page.maxOffsetNumber + 1) = block := by
  unfold item
  rw [appended_linp_last]
  exact slice_store_self ..

theorem isNormal_appended (normal : page.IsNormal offset) :
    (page.appended block).IsNormal offset := by
  obtain ⟨pos, _, _⟩ := normal
  refine ⟨pos, ?_, ?_⟩
  · rw [appended_maxOffsetNumber]
    omega
  · rwa [appended_linp_other page block (by omega)]

theorem normalOffsets_appended :
    (page.appended block).normalOffsets = page.normalOffsets ++ [page.maxOffsetNumber + 1] := by
  unfold normalOffsets
  rw [appended_maxOffsetNumber, range'_1_concat, filter_append, add_comm 1]
  congr 1
  · apply filter_congr
    intro _ mem
    have bound := (mem_range'_1.1 mem).2
    rw [appended_linp_other page block (by omega)]
  · simp [appended_linp_last]

theorem KeepsRows.appended (formed : HeapFormed page)
    (long : kHeapTupleHeaderSize ≤ block.length) (fits : page.Fits block) :
    KeepsRows page (page.appended block) := by
  refine ⟨formed.appended long fits, rfl, ?_, fun _ => isNormal_appended, ?_⟩
  · rw [appended_maxOffsetNumber]
    omega
  · intro _ normal
    rw [item_appended_other formed.formed fits normal]

end

/-! ## What is visible on a page -/

theorem visibleOffsets_eq (coherent : backend.cache.Coherent backend.log) (page : PageData) :
    visibleOffsets backend snapshot page = page.normalOffsets.filter fun offset =>
        verdict backend.log backend.visibilityStack snapshot (headerOf (page.item offset)) := by
  apply filter_congr
  intro offset _
  rw [(heapTupleSatisfiesMVCC_coherent backend.visibilityStack snapshot
    coherent (headerOf (page.item offset))).1]

theorem normalOffsets_sorted (page : PageData) : page.normalOffsets.Pairwise (· < ·) :=
  List.Pairwise.filter _ pairwise_lt_range'

theorem visibleOffsets_sorted : (visibleOffsets backend snapshot page).Pairwise (· < ·) :=
  List.Pairwise.filter _ (normalOffsets_sorted page)

theorem isNormal_of_visible (visible : offset ∈ visibleOffsets backend snapshot page) :
    page.IsNormal offset :=
  mem_normalOffsets.1 (mem_of_mem_filter visible)

/-- A version that the transaction with the XID has created, by the command at
the latest. -/
structure Fresh (xid : TransactionId) (cid : CommandId) (block : List UInt8) : Prop where
  long : kHeapTupleHeaderSize ≤ block.length
  xmin : (headerOf block).tXmin = xid
  xmax : (headerOf block).tXmax = kInvalidTransactionId
  cid : (headerOf block).tCid ≤ cid
  plain : ∃ hasNull hasVarWidth, (headerOf block).tInfomask = formedInfomask hasNull hasVarWidth

theorem fresh_insertedBlock (tuple : FormedTuple) (xid : TransactionId)
    (cid : CommandId) : Fresh xid cid (insertedBlock tuple.block xid cid) := by
  have same := headerOf_insertedBlock tuple.long xid cid
  constructor
  · rw [length_insertedBlock tuple.long]
    exact tuple.long
  · rw [same]
  · rw [same]
  · rw [same]
    exact BitVec.le_refl cid
  · rw [same]
    exact tuple.plain

theorem Fresh.verdict {xid : TransactionId} {cid : CommandId} {block : List UInt8}
    (fresh : Fresh xid cid block) {log : CommitLog} {stack : List TransactionStateData}
    {snapshot : SnapshotData} (valid : transactionIdIsValid xid)
    (current : transactionIdIsCurrentTransactionId stack xid) (seen : cid ≤ snapshot.curcid) :
    Visibility.verdict log stack snapshot (headerOf block) := by
  obtain ⟨hasNull, hasVarWidth, same⟩ := fresh.plain
  obtain ⟨notCommitted, notInvalid, notFrozen, _, _, notUpdated⟩ := formed_flags hasNull hasVarWidth
  have notLater : ¬snapshot.curcid < (headerOf block).tCid := not_lt.2 (Nat.le_trans fresh.cid seen)
  have undeleted : transactionIdIsValid kInvalidTransactionId = false := by decide
  simp [Visibility.verdict, inserterShown, deleterHides, inserterTest,
    HeapTupleHeaderData.getXminStatus, same, notCommitted, notInvalid, notFrozen, notUpdated,
    fresh.xmin, fresh.xmax, valid, current, notLater, undeleted]

/-- A page to which a transaction has appended new versions. -/
inductive Grown (xid : TransactionId) (cid : CommandId) (page : PageData) :
    Nat → PageData → Prop where
  | unchanged : Grown xid cid page 0 page
  | append (earlier : Grown xid cid page count during) (fits : during.Fits block)
      (fresh : Fresh xid cid block) :
      Grown xid cid page (count + 1) (during.appended block)

namespace Grown

theorem mono (grown : Grown xid cid page count after) (le : cid ≤ later) :
    Grown xid later page count after := by
  induction grown with
  | unchanged => exact .unchanged
  | append _ fits fresh ih =>
    apply ih.append fits
    exact { fresh with cid := BitVec.le_trans fresh.cid le }

theorem eq_of_zero (grown : Grown xid cid page 0 after) : after = page := by
  cases grown
  rfl

theorem keepsRows (formed : HeapFormed page)
    (grown : Grown xid cid page count after) : KeepsRows page after := by
  induction grown with
  | unchanged => exact .refl formed
  | append _ fits fresh ih => exact ih.trans (.appended ih.formed fresh.long fits)

theorem maxOffsetNumber (grown : Grown xid cid page count after) :
    after.maxOffsetNumber = page.maxOffsetNumber + count := by
  induction grown with
  | unchanged => rfl
  | append _ _ _ ih => rw [appended_maxOffsetNumber, ih, add_assoc]

/-- A test that accepts the new versions finds them behind the tuples that were
there before. -/
theorem filter_normalOffsets {accepts : HeapTupleHeaderData → Bool}
    (formed : HeapFormed page) (grown : Grown xid cid page count after)
    (accepted : ∀ block, Fresh xid cid block → accepts (headerOf block)) :
    (after.normalOffsets.filter fun offset => accepts (headerOf (after.item offset))) =
      (page.normalOffsets.filter fun offset => accepts (headerOf (page.item offset))) ++
        List.range' (page.maxOffsetNumber + 1) count := by
  induction grown with
  | unchanged => rw [range'_zero, append_nil]
  | @append count during block earlier fits fresh ih =>
    have old : during.normalOffsets.filter (fun offset =>
          accepts (headerOf ((during.appended block).item offset))) =
        during.normalOffsets.filter fun offset => accepts (headerOf (during.item offset)) := by
      apply filter_congr
      intro offset mem
      rw [item_appended_other (earlier.keepsRows formed).formed.formed fits
        (mem_normalOffsets.1 mem)]
    have new : [during.maxOffsetNumber + 1].filter (fun offset =>
          accepts (headerOf ((during.appended block).item offset))) =
        [during.maxOffsetNumber + 1] := by
      apply filter_eq_self.2
      intro offset mem
      rw [mem_singleton.1 mem, item_appended_last]
      exact accepted block fresh
    rw [normalOffsets_appended, filter_append, old, new, ih,
      earlier.maxOffsetNumber, range'_1_concat, append_assoc]
    congr 3
    omega

end Grown

/-! ## The scan of a page -/

theorem take_append_take (noted more : List α) :
    (noted.take limit ++ more).take limit = (noted ++ more).take limit := by
  rcases Nat.le_total noted.length limit with short | long
  · rw [take_of_length_le short]
  · rw [take_append_of_le_length long, take_append_of_le_length
      (by rw [length_take]; omega), take_take, Nat.min_self]

/-- The state of a scan of `page` that has the offset numbers `left` before
it. -/
structure Scanning (backend : XactBackend) (page : PageData)
    (left : List Nat) (scan : HeapPageScan) : Prop where
  kept : KeepsRows page scan.page
  sameLinp : scan.page.linp = page.linp
  distinct : left.Nodup
  inside : ∀ offset ∈ left, 1 ≤ offset ∧ offset ≤ page.maxOffsetNumber
  untouched : ∀ offset ∈ left, page.IsNormal offset → scan.page.item offset = page.item offset
  coherent : scan.cache.Coherent backend.log
  few : scan.vistuples.length ≤ kHeapTuplesPerPage

namespace Scanning

variable {scan : HeapPageScan}

def accepts (backend : XactBackend) (snapshot : SnapshotData)
    (page : PageData) (offset : Nat) : Bool :=
  (page.linp offset).liFlags = .normal &&
    verdict backend.log backend.visibilityStack snapshot (headerOf (page.item offset))

theorem step (scanning : Scanning backend page (offset :: rest) scan) (snapshot : SnapshotData) :
    Scanning backend page rest (scanItem backend snapshot scan offset) ∧
      (scanItem backend snapshot scan offset).vistuples = (scan.vistuples ++
          [offset].filter (accepts backend snapshot page)).take kHeapTuplesPerPage := by
  obtain ⟨kept, sameLinp, distinct, inside, untouched, coherent, few⟩ := scanning
  obtain ⟨notLeft, distinctRest⟩ := nodup_cons.1 distinct
  have insideRest : ∀ other ∈ rest, 1 ≤ other ∧ other ≤ page.maxOffsetNumber :=
    fun other mem => inside other (mem_cons_of_mem _ mem)
  by_cases flag : (page.linp offset).liFlags = .normal
  · have here : page.IsNormal offset :=
      ⟨(inside offset (by simp)).1, (inside offset (by simp)).2, flag⟩
    have hereNow := kept.normal offset here
    have sameItem := untouched offset (by simp) here
    have long := le_length_item kept.formed hereNow
    obtain ⟨answer, coherentAfter⟩ := heapTupleSatisfiesMVCC_coherent
      backend.visibilityStack snapshot coherent
      (headerOf (scan.page.item offset))
    have sameNull : hasFlag (heapTupleSatisfiesMVCC backend.log
          backend.visibilityStack snapshot scan.cache
          (headerOf (scan.page.item offset))).tup.tInfomask kHeapHasNull =
        hasFlag (headerOf (scan.page.item offset)).tInfomask
          kHeapHasNull := by
      apply @heapTupleSatisfiesMVCC_keeps _ _ _ _ _ Bool fun tup =>
        hasFlag tup.tInfomask kHeapHasNull
      all_goals
        intro tup
        exact tup.hasFlag_setHint_of_disjoint (by decide) (by decide)
    have written := KeepsRows.setItem kept.formed hereNow
      (length_withInfomask long) (userRow_withInfomask long sameNull)
    unfold scanItem
    simp only [sameLinp, flag, ne_eq, not_true_eq_false, if_false]
    constructor
    · constructor
      · exact kept.trans written
      · exact sameLinp
      · exact distinctRest
      · exact insideRest
      · intro other mem normal
        have ne : other ≠ offset := by
          rintro rfl
          exact notLeft mem
        rw [setItem_item_other kept.formed hereNow
          (length_withInfomask long) (kept.normal other normal) ne]
        exact untouched other (mem_cons_of_mem _ mem) normal
      · exact coherentAfter
      split
      · next noted =>
          simp only [Bool.and_eq_true, decide_eq_true_eq] at noted
          simp only [length_append, length_singleton]
          omega
      · exact few
    · rw [answer, sameItem]
      cases seen : verdict backend.log backend.visibilityStack snapshot
          (headerOf (page.item offset)) with
      | false => simp [accepts, seen, take_of_length_le few]
      | true =>
        have noted : [offset].filter (accepts backend snapshot page) = [offset] := by
          simp [accepts, flag, seen]
        rw [noted]
        by_cases room : scan.vistuples.length < kHeapTuplesPerPage
        · rw [if_pos (by simp [room]), take_of_length_le]
          rw [length_append, length_singleton]
          omega
        · rw [if_neg (by simp [room]), take_append_of_le_length (by omega), take_of_length_le few]
  · have skipped : scanItem backend snapshot scan offset = scan := by
      simp [scanItem, sameLinp, flag]
    rw [skipped]
    constructor
    · exact ⟨kept, sameLinp, distinctRest, insideRest,
        fun other mem => untouched other (mem_cons_of_mem _ mem),
        coherent, few⟩
    · simp [accepts, flag, take_of_length_le few]

theorem run (scanning : Scanning backend page left scan) (snapshot : SnapshotData) :
    Scanning backend page [] (left.foldl (scanItem backend snapshot) scan) ∧
      (left.foldl (scanItem backend snapshot) scan).vistuples = (scan.vistuples ++
          left.filter (accepts backend snapshot page)).take kHeapTuplesPerPage := by
  induction left generalizing scan with
  | nil =>
    refine ⟨scanning, ?_⟩
    simp [take_of_length_le scanning.few]
  | cons _ _ ih =>
    obtain ⟨next, noted⟩ := scanning.step snapshot
    obtain ⟨done, all⟩ := ih next
    refine ⟨done, ?_⟩
    rw [foldl_cons, all, noted, take_append_take, append_assoc, ← filter_append, singleton_append]

end Scanning

theorem scanPage_spec {session : HeapSession} {page : PageData}
    (coherent : session.backend.cache.Coherent session.backend.log) (formed : HeapFormed page) :
    (session.scanPage page).vistuples =
        (visibleOffsets session.backend session.snapshot page).take kHeapTuplesPerPage ∧
      KeepsRows page (session.scanPage page).page ∧
      (session.scanPage page).cache.Coherent session.backend.log := by
  have initially : Scanning session.backend page (List.range' 1 page.maxOffsetNumber)
      { page := page, cache := session.backend.cache, vistuples := [] } := by
    refine ⟨.refl formed, rfl, nodup_range', ?_, fun _ _ _ => rfl, coherent, Nat.zero_le _⟩
    intro offset mem
    have bounds := mem_range'_1.1 mem
    omega
  obtain ⟨done, noted⟩ := initially.run session.snapshot
  refine ⟨?_, done.kept, done.coherent⟩
  rw [HeapSession.scanPage, noted, nil_append,
    visibleOffsets_eq coherent, normalOffsets, filter_filter]
  congr 2
  funext offset
  rw [Scanning.accepts, Bool.and_comm]

end Pgcpp.Executor
