import Pgcpp.Executor.UpdateBackend
import Pgcpp.Executor.UpdateScan

/-!
# The state of an UPDATE between two steps

Up to the block that is scanned everything may have changed.  The blocks ahead
are as they were, except that the last one may have taken new versions.
-/

namespace Pgcpp.Executor

open Storage Transaction Access Commands PageData
open List hiding after count head

/-! ## Where a new version goes -/

/-- A tuple is put on the last page, or on a new one if it has no room there. -/
inductive Placed (pages : List PageData) (block : List UInt8) : List PageData → HeapTid → Prop where
  | onLast (split : pages = before ++ [page])
      (room : block.length ≤ page.heapFreeSpace) (fits : page.Fits block) :
      Placed pages block (before ++ [page.appended block])
        { block := before.length, offset := page.maxOffsetNumber + 1 }
  | onNew (full : ∀ page ∈ pages.getLast?, page.heapFreeSpace < block.length)
      (fits : (pageInit kBlckSz 0).Fits block) :
      Placed pages block (pages ++ [(pageInit kBlckSz 0).appended block])
        { block := pages.length, offset := (pageInit kBlckSz 0).maxOffsetNumber + 1 }

theorem heapFreeSpace_le {page : PageData} (formed : page.WellFormed)
    (bounded : page.pdSpecial ≤ kBlckSz) :
    page.heapFreeSpace ≤ (pageInit kBlckSz 0).heapFreeSpace := by
  have header := formed.header
  have upper := formed.upper
  unfold heapFreeSpace pageInit maxAlignDown kItemIdSize
  dsimp only
  omega

theorem le_of_fits_pageInit (fits : (pageInit kBlckSz 0).Fits block) :
    block.length ≤ (pageInit kBlckSz 0).heapFreeSpace := by
  have room := fits.2
  unfold maxOffsetNumber pageInit maxAlignUp kItemIdSize kBlckSz kPageHeaderSize at room
  unfold heapFreeSpace pageInit maxAlignDown kItemIdSize kBlckSz kPageHeaderSize
  dsimp only at room ⊢
  omega

section

variable {session : HeapSession} {backend : XactBackend} {xid : TransactionId}
  (asked : session.backend.getCurrentTransactionId = (backend, .ok xid))
  (tuple : FormedTuple)

include asked

section

variable (formed : PagesFormed session.pages)

include formed

theorem heapInsertInternal_placed
    (small : tuple.block.length ≤ (pageInit kBlckSz 0).heapFreeSpace) :
    ∃ pages newTid, session.heapInsertInternal tuple.block =
        .ok ({ session with backend := backend, pages := pages }, newTid) ∧
      Placed session.pages (insertedBlock tuple.block xid backend.getCurrentCommandId) pages
        newTid := by
  have sameLength := length_insertedBlock tuple.long xid backend.getCurrentCommandId
  have long := sameLength ▸ tuple.long
  rw [← sameLength] at small
  unfold HeapSession.heapInsertInternal
  simp only [asked]
  generalize insertedBlock tuple.block xid backend.getCurrentCommandId = block at *
  have fitsNew := fits_of_le_heapFreeSpace (pageInit_wellFormed (by decide)) long small
  have pos {page : PageData} :
      ¬page.maxOffsetNumber + 1 = kInvalidOffsetNumber := Nat.succ_ne_zero _
  unfold insertTarget
  cases last : session.pages.getLast? with
  | none =>
    have empty := getLast?_eq_none_iff.1 last
    refine ⟨_, _, by
      simp only [addItem_of_fits fitsNew]
      rfl, ?_⟩
    rw [empty]
    exact Placed.onNew (by simp) fitsNew
  | some page =>
    by_cases full : page.heapFreeSpace < block.length
    · refine ⟨_, _, by
        simp only [full, if_true, addItem_of_fits fitsNew]
        rfl, ?_⟩
      apply Placed.onNew _ fitsNew
      simpa [last] using full
    have split := dropLast_append_getLast? page last
    have mem : page ∈ session.pages := mem_of_getLast? last
    have room := not_lt.1 full
    have fits := fits_of_le_heapFreeSpace (formed page mem).formed long room
    refine ⟨_, _, by
      simp only [full, if_false, addItem_of_fits fits]
      rfl, ?_⟩
    exact Placed.onLast split.symm room fits

theorem heapInsertInternal_error (bounded : ∀ page ∈ session.pages, page.pdSpecial ≤ kBlckSz)
    (large : (pageInit kBlckSz 0).heapFreeSpace < tuple.block.length) :
    ∃ text, session.heapInsertInternal tuple.block = .error text := by
  have sameLength := length_insertedBlock tuple.long xid backend.getCurrentCommandId
  rw [← sameLength] at large
  unfold HeapSession.heapInsertInternal
  simp only [asked]
  generalize insertedBlock tuple.block xid backend.getCurrentCommandId = block at *
  have full : ¬(pageInit kBlckSz 0).Fits block :=
    fun fits => not_lt.2 (le_of_fits_pageInit fits) large
  unfold insertTarget
  cases last : session.pages.getLast? with
  | none => simp [addItem_of_not_fits full]
  | some page =>
    have mem : page ∈ session.pages := mem_of_getLast? last
    have noRoom : page.heapFreeSpace < block.length := (heapFreeSpace_le (formed page mem).formed
        (bounded page mem)).trans_lt large
    simp [noRoom, addItem_of_not_fits full]

end

end

namespace Placed

variable {pages after : List PageData} {block : List UInt8} {newTid : HeapTid}
  (placed : Placed pages block after newTid)

include placed

theorem getElem?_of_lt (less : index + 1 < pages.length) : after[index]? = pages[index]? := by
  cases placed with
  | @onLast _ _ split _ fits =>
    subst split
    rw [length_append, length_singleton] at less
    rw [getElem?_append_left (by omega), getElem?_append_left (by omega)]
  | onNew _ fits => rw [getElem?_append_left (by omega)]

theorem getElem?_last (last : pages[index]? = some page) (isLast : index + 1 = pages.length) :
    (after[index]? = some (page.appended block) ∧ after.length = pages.length ∧ page.Fits block ∧
        block.length ≤ page.heapFreeSpace ∧
        newTid = { block := index, offset := page.maxOffsetNumber + 1 }) ∨
      (after[index]? = some page ∧ after.length = pages.length + 1 ∧
        page.heapFreeSpace < block.length ∧ newTid.block = pages.length) := by
  cases placed with
  | @onLast before _ split room fits =>
    subst split
    rw [length_append, length_singleton] at isLast
    have isIndex : index = before.length := by omega
    subst isIndex
    rw [getElem?_concat_length, Option.some.injEq] at last
    subst last
    refine Or.inl ⟨?_, ?_, fits, room, rfl⟩
    · exact getElem?_concat_length
    · rw [length_append, length_append, length_singleton, length_singleton]
  | onNew full fits =>
    refine Or.inr ⟨?_, ?_, ?_, rfl⟩
    · rw [getElem?_append_left (by omega), last]
    · rw [length_append, length_singleton]
    apply full
    rw [getLast?_eq_getElem?, ← isLast]
    exact last

theorem keepsRows (long : kHeapTupleHeaderSize ≤ block.length)
    {index : Nat} (formed : HeapFormed page)
    (there : pages[index]? = some page) (still : after[index]? = some later) :
    KeepsRows page later := by
  have inside := (List.getElem?_eq_some_iff.1 there).1
  by_cases isLast : index + 1 = pages.length
  · rcases placed.getElem?_last there isLast with
      ⟨appended, _, fits, _, _⟩ | ⟨same, _, _, _⟩
    · rw [still, Option.some.injEq] at appended
      rw [appended]
      exact .appended formed long fits
    · rw [still, Option.some.injEq] at same
      rw [same]
      exact .refl formed
  · rw [placed.getElem?_of_lt (by omega), there, Option.some.injEq] at still
    rw [← still]
    exact .refl formed

theorem forall_mem (long : kHeapTupleHeaderSize ≤ block.length)
    (formed : PagesFormed pages)
    (bounded : ∀ page ∈ pages, page.pdSpecial ≤ kBlckSz) :
    PagesFormed after ∧ ∀ page ∈ after, page.pdSpecial ≤ kBlckSz := by
  cases placed with
  | @onLast _ page split _ fits =>
    subst split
    simp only [forall_mem_append, forall_mem_singleton] at formed bounded ⊢
    exact ⟨⟨formed.1, formed.2.appended long fits⟩, bounded⟩
  | onNew _ fits =>
    have new := (heapFormed_pageInit (by decide)).appended long fits
    simp only [forall_mem_append, forall_mem_singleton]
    exact ⟨⟨formed, new⟩, bounded, le_rfl⟩

end Placed

/-! ## One update -/

theorem le_nextCommandId : cid ≤ nextCommandId cid := by
  unfold nextCommandId kInvalidCommandId
  split
  · bv_omega
  · exact BitVec.le_refl cid

theorem iterate_nextCommandId_mono (le : fewer ≤ more) :
    nextCommandId^[fewer] cid ≤ nextCommandId^[more] cid := by
  induction le with
  | refl => exact BitVec.le_refl _
  | step _ ih =>
    rw [Function.iterate_succ_apply']
    exact BitVec.le_trans ih le_nextCommandId

theorem Tracks.ask (tracks : Tracks start (start.backendAfter done) increments session)
    (assigned : start.backend.getCurrentTransactionId.2 = .ok xid) :
    ∃ backend, session.backend.getCurrentTransactionId = (backend, .ok xid) ∧
      Tracks start start.backend.getCurrentTransactionId.1 increments
        { session with backend := backend } := by
  unfold UpdateStart.backendAfter at tracks
  split at tracks
  · exact tracks.assign assigned
  · exact ⟨session.backend, tracks.asked assigned, tracks⟩

/-- What an update does to the pages: the new version is placed, and the old
one is marked. -/
structure Updated (start : UpdateStart) (xid : TransactionId)
    (increments : Nat) (version : NewVersion) (otid : HeapTid)
    (session after : HeapSession) (newTid : HeapTid) : Prop where
  tracks : Tracks start start.backend.getCurrentTransactionId.1
    (increments + version.chunksStored + version.chunksDeleted + 1) after
  pages : ∃ pages page block cid, Placed session.pages block pages newTid ∧
    block.length = version.tuple.block.length ∧
    Fresh xid after.backend.getCurrentCommandId block ∧
    pages[otid.block]? = some page ∧
    after.pages = pages.set otid.block (setItem page otid.offset
      (updatedBlock (page.item otid.offset) xid cid newTid))

section

variable (tracks : Tracks start (start.backendAfter done) increments session)

include tracks

theorem heapUpdate_updated (assigned : start.backend.getCurrentTransactionId.2 = .ok xid)
    (formed : PagesFormed session.pages) (present : otid.block < session.pages.length)
    (small : version.tuple.block.length ≤ (pageInit kBlckSz 0).heapFreeSpace) :
    ∃ after newTid, session.heapUpdate otid version = .ok (after, newTid) ∧
      Updated start xid increments version otid session after newTid := by
  have stored := tracks.iterate version.chunksStored
  obtain ⟨backend, asked, inserting⟩ := stored.ask assigned
  obtain ⟨pages, newTid, inserted, placed⟩ := heapInsertInternal_placed asked
    version.tuple (by rwa [iterate_commandCounterIncrement_pages]) small
  have grown := heapInsertInternal_length inserted
  rw [iterate_commandCounterIncrement_pages] at grown placed
  have deleted := (inserting.setPages pages).iterate version.chunksDeleted
  have page : otid.block < pages.length := present.trans_le grown
  have again := deleted.asked assigned
  unfold HeapSession.heapUpdate
  simp only [inserted, iterate_commandCounterIncrement_pages, again, getElem?_eq_getElem page]
  refine ⟨_, _, rfl, ?_, pages, pages[otid.block], _, _, placed,
    length_insertedBlock version.tuple.long .., ?_,
    getElem?_eq_getElem page, commandCounterIncrement_pages _⟩
  · exact (deleted.setPages _).increment
  have fresh := fresh_insertedBlock version.tuple xid backend.getCurrentCommandId
  refine { fresh with cid := BitVec.le_trans fresh.cid ?_ }
  rw [((deleted.setPages _).increment).command]
  have command := inserting.command
  rw [command]
  apply iterate_nextCommandId_mono
  omega

theorem heapUpdate_error (formed : PagesFormed session.pages)
    (bounded : ∀ page ∈ session.pages, page.pdSpecial ≤ kBlckSz)
    (assignedBefore : done ≠ [] → ∃ xid, start.backend.getCurrentTransactionId.2 = .ok xid)
    (failing : (¬∃ xid, start.backend.getCurrentTransactionId.2 = .ok xid) ∨
      (pageInit kBlckSz 0).heapFreeSpace < version.tuple.block.length) :
    ∃ text, session.heapUpdate otid version = .error text := by
  have stored := tracks.iterate version.chunksStored
  suffices failed : ∃ text, (HeapSession.commandCounterIncrement^[
      version.chunksStored] session).heapInsertInternal version.tuple.block = .error text by
    obtain ⟨text, inserted⟩ := failed
    refine ⟨text, ?_⟩
    unfold HeapSession.heapUpdate
    simp [inserted]
  cases answer : start.backend.getCurrentTransactionId.2 with
  | ok xid =>
    obtain ⟨backend, asked, _⟩ := stored.ask answer
    apply heapInsertInternal_error asked
    · rwa [iterate_commandCounterIncrement_pages]
    · rwa [iterate_commandCounterIncrement_pages]
    · apply failing.resolve_left
      exact not_not_intro ⟨xid, answer⟩
  | error text =>
    have first : done = [] := by
      by_contra notFirst
      obtain ⟨xid, assigned⟩ := assignedBefore notFirst
      rw [assigned] at answer
      contradiction
    subst first
    have here := (stored.same.getCurrentTransactionId start.inTransaction).1.trans answer
    refine ⟨text, ?_⟩
    unfold HeapSession.heapInsertInternal
    split
    · next other asked =>
        rw [asked] at here
        exact congrArg Except.error (Except.error.inj here)
    · next backend xid asked =>
        rw [asked] at here
        contradiction

end

/-! ## The state between two steps -/

namespace UpdateStart

/-- The XID of the transaction, which may still have to be assigned. -/
def xid (start : UpdateStart) : TransactionId :=
  match start.backend.getCurrentTransactionId.2 with
  | .ok xid => xid
  | .error _ => kInvalidTransactionId

/-- There is no tuple with the TID when the UPDATE starts. -/
def IsNew (start : UpdateStart) (tid : HeapTid) : Prop :=
  start.nblocks ≤ tid.block ∨ tid.block + 1 = start.nblocks ∧
      (start.page tid.block).maxOffsetNumber < tid.offset

theorem page_mem (start : UpdateStart)
    (inside : block < start.nblocks) : start.page block ∈ start.pages := by
  rw [page, getD_eq_getElem _ _ inside]
  exact getElem_mem _

theorem getElem?_pages (start : UpdateStart) (inside : block < start.nblocks) :
    start.pages[block]? = some (start.page block) := by
  rw [page, getD_eq_getElem _ _ inside]
  exact getElem?_eq_getElem inside

end UpdateStart

section

variable (start : UpdateStart) (newVersion : ScannedTuple → NewVersion) (done : List ScannedTuple)

/-- The last block of the table as it was holds `count` new versions.  There are
none if the first one had no room; and if there are none after an update, the
table has got another block. -/
structure LastPage (session : HeapSession) (count : Nat) (page : PageData) : Prop where
  there : session.pages[start.nblocks - 1]? = some page
  grown : Grown start.xid session.backend.getCurrentCommandId
    (start.page (start.nblocks - 1)) count page
  untouched : done = [] → count = 0 ∧ session.pages.length = start.nblocks
  filled : ∀ tuple ∈ done.head?, (count = 0 ↔ (start.page (start.nblocks - 1)).heapFreeSpace <
      (newVersion tuple).tuple.block.length) ∧
    (session.pages.length = start.nblocks → 0 < count)

/-- The UPDATE has updated the tuples `done` and is about to scan `block`. -/
structure Progress (block : Nat) (session : HeapSession) : Prop where
  assigned : done ≠ [] → ∃ xid, start.backend.getCurrentTransactionId.2 = .ok xid
  tracks : Tracks start (start.backendAfter done) (UpdateStart.commandsOf newVersion done) session
  formed : PagesFormed session.pages
  bounded : ∀ page ∈ session.pages, page.pdSpecial ≤ kBlckSz
  blocks : start.nblocks ≤ session.pages.length
  ahead : ∀ later, block ≤ later → later + 1 < start.nblocks →
    session.pages[later]? = some (start.page later)
  last : block < start.nblocks → ∃ count page, LastPage start newVersion done session count page

/-- The UPDATE has updated the tuples `done` and is at work on `block`. -/
structure Working (block : Nat) (session : HeapSession) : Prop extends
    Progress start newVersion done (block + 1) session where
  current : ∃ page, session.pages[block]? = some page ∧ KeepsRows (start.page block) page

end

variable {start : UpdateStart} {newVersion : ScannedTuple → NewVersion}

theorem Working.isNew (working : Working start newVersion done block session)
    (inside : block < start.nblocks) (placed : Placed session.pages placedBlock pages newTid) :
    start.IsNew newTid := by
  have blocks := working.blocks
  have lastInside : session.pages.length - 1 < session.pages.length := by omega
  rcases placed.getElem?_last (getElem?_eq_getElem lastInside)
      (by omega) with ⟨_, _, _, _, isTid⟩ | ⟨_, _, _, isBlock⟩
  · rw [isTid]
    by_cases extended : start.nblocks < session.pages.length
    · refine Or.inl ?_
      dsimp only
      omega
    have count : session.pages.length - 1 = start.nblocks - 1 := by omega
    have grown : (start.page (start.nblocks - 1)).maxOffsetNumber ≤
        session.pages[session.pages.length - 1].maxOffsetNumber := by
      have there := getElem?_eq_getElem lastInside
      simp only [count] at there ⊢
      by_cases isLast : block + 1 = start.nblocks
      · obtain ⟨page, here, kept⟩ := working.current
        have same : block = start.nblocks - 1 := by omega
        rw [same, there, Option.some.injEq] at here
        rw [here, ← same]
        exact kept.grown
      · obtain ⟨_, page, last⟩ := working.last (by omega)
        have isPage := last.there
        rw [there, Option.some.injEq] at isPage
        rw [isPage, last.grown.maxOffsetNumber]
        exact Nat.le_add_right ..
    refine Or.inr ⟨?_, ?_⟩
    · dsimp only
      omega
    · simp only [count] at grown ⊢
      omega
  · refine Or.inl ?_
    omega

theorem UpdateStart.xid_eq {xid : TransactionId}
    (assigned : start.backend.getCurrentTransactionId.2 = .ok xid) : start.xid = xid := by
  rw [UpdateStart.xid, assigned]

theorem UpdateStart.commandsOf_append : UpdateStart.commandsOf newVersion (done ++ [tuple]) =
      UpdateStart.commandsOf newVersion done + (newVersion tuple).chunksStored +
        (newVersion tuple).chunksDeleted + 1 := by
  simp [UpdateStart.commandsOf, add_assoc]

theorem Placed.length_le (placed : Placed pages placedBlock after newTid) :
    pages.length ≤ after.length := by
  cases placed with
  | @onLast _ _ split _ fits =>
    rw [split, length_append, length_append, length_singleton, length_singleton]
  | onNew _ fits => exact length_append ▸ Nat.le_add_right _ _

section

variable {after : HeapSession}

theorem LastPage.place (last : LastPage start newVersion done session count page)
    (notEmpty : 0 < start.nblocks) (blocks : start.nblocks ≤ session.pages.length)
    (later : session.backend.getCurrentCommandId ≤ after.backend.getCurrentCommandId)
    (placed : Placed session.pages placedBlock pages newTid)
    (sameLength : placedBlock.length = (newVersion tuple).tuple.block.length)
    (fresh : Fresh start.xid after.backend.getCurrentCommandId placedBlock) :
    ∃ count page, LastPage start newVersion (done ++ [tuple])
      { after with pages := pages } count page := by
  have grown := last.grown.mono later
  have longer := placed.length_le
  by_cases isLast : start.nblocks - 1 + 1 = session.pages.length
  · rcases placed.getElem?_last last.there isLast with
      ⟨there, sameBlocks, fits, room, _⟩ | ⟨there, moreBlocks, full, _⟩
    · refine ⟨count + 1, _, there, grown.append fits fresh, by simp, ?_⟩
      intro first isFirst
      cases done with
      | nil =>
        cases isFirst
        obtain rfl := (last.untouched rfl).1
        rw [last.grown.eq_of_zero, sameLength] at room
        simpa using room
      | cons earlier rest =>
        have filled := last.filled first isFirst
        omega
    refine ⟨count, _, there, grown, by simp, ?_⟩
    intro first isFirst
    refine ⟨?_, ?_⟩
    · cases done with
      | nil =>
        cases isFirst
        obtain rfl := (last.untouched rfl).1
        rw [last.grown.eq_of_zero, sameLength] at full
        simpa using full
      | cons earlier rest => exact (last.filled first isFirst).1
    · intro same
      dsimp only at same
      omega
  · refine ⟨count, page, ?_, grown, by simp, ?_⟩
    · exact (placed.getElem?_of_lt (by omega)).trans last.there
    intro first isFirst
    refine ⟨?_, ?_⟩
    · cases done with
      | nil =>
        have same := (last.untouched rfl).2
        omega
      | cons earlier rest => exact (last.filled first isFirst).1
    · intro same
      dsimp only at same
      omega

section

variable (progress : Progress start newVersion done (block + 1) session)

include progress

theorem Progress.place (assigned : start.backend.getCurrentTransactionId.2 = .ok xid)
    (tracks : Tracks start start.backend.getCurrentTransactionId.1
      (UpdateStart.commandsOf newVersion (done ++ [tuple])) after)
    (placed : Placed session.pages placedBlock pages newTid)
    (sameLength : placedBlock.length = (newVersion tuple).tuple.block.length)
    (fresh : Fresh xid after.backend.getCurrentCommandId placedBlock) :
    Progress start newVersion (done ++ [tuple]) (block + 1) { after with pages := pages } := by
  have longer := placed.length_le
  obtain ⟨formed, bounded⟩ := placed.forall_mem fresh.long progress.formed progress.bounded
  refine ⟨fun _ => ⟨xid, assigned⟩, ?_, formed, bounded, progress.blocks.trans longer, ?_, ?_⟩
  · have reference : start.backendAfter (done ++ [tuple]) =
        start.backend.getCurrentTransactionId.1 := by
      simp [UpdateStart.backendAfter]
    rw [reference]
    exact tracks.setPages pages
  · intro later ahead inside
    have blocks := progress.blocks
    exact (placed.getElem?_of_lt (by omega)).trans (progress.ahead later ahead inside)
  intro inside
  obtain ⟨_, _, last⟩ := progress.last inside
  rw [← UpdateStart.xid_eq assigned] at fresh
  apply last.place (by omega) progress.blocks _ placed sameLength fresh
  rw [progress.tracks.command, tracks.command, UpdateStart.commandsOf_append]
  apply iterate_nextCommandId_mono
  omega

theorem Progress.setCurrent (there : session.pages[block]? = some page)
    (original : KeepsRows (start.page block) page) (kept : KeepsRows page changed) :
    Working start newVersion done block
      { session with pages := session.pages.set block changed } := by
  have inside := (List.getElem?_eq_some_iff.1 there).1
  refine ⟨⟨progress.assigned, progress.tracks.setPages _, ?_, ?_, ?_, ?_, ?_⟩,
    changed, ?_, original.trans kept⟩
  · intro other mem
    rcases mem_or_eq_of_mem_set mem with old | rfl
    · exact progress.formed other old
    · exact kept.formed
  · intro other mem
    rcases mem_or_eq_of_mem_set mem with old | rfl
    · exact progress.bounded other old
    · rw [kept.special]
      exact progress.bounded page (mem_of_getElem? there)
  · exact progress.blocks.trans_eq length_set.symm
  · intro later ahead before
    rw [getElem?_set_ne (by omega)]
    exact progress.ahead later ahead before
  · intro before
    obtain ⟨count, lastPage, last⟩ := progress.last before
    refine ⟨count, lastPage, ?_, last.grown, ?_, ?_⟩
    · rw [getElem?_set_ne (by omega)]
      exact last.there
    · rw [length_set]
      exact last.untouched
    · rw [length_set]
      exact last.filled
  · exact getElem?_set_self inside

end

end

section

variable (working : Working start newVersion done block session)

include working

theorem Working.update (inside : block < start.nblocks)
    (normal : (start.page block).IsNormal offset)
    (assigned : start.backend.getCurrentTransactionId.2 = .ok xid)
    (small : (newVersion (start.tupleOn block offset)).tuple.block.length ≤
      (pageInit kBlckSz 0).heapFreeSpace) :
    ∃ after newTid, updateTuple newVersion session (start.tupleOn block offset) =
        .ok { returned := [start.tupleOn block offset], created := [newTid], session := after } ∧
      Working start newVersion (done ++ [start.tupleOn block offset]) block after ∧
      start.IsNew newTid := by
  obtain ⟨page, here, kept⟩ := working.current
  have present : (start.tupleOn block offset).tid.block <
      session.pages.length := inside.trans_le working.blocks
  obtain ⟨after, newTid, updated, effects⟩ := heapUpdate_updated
    working.tracks assigned working.formed present small
  obtain ⟨tracks, pages, current, placedBlock, cid, placed, sameLength, fresh,
    there, isPages⟩ := effects
  refine ⟨after, newTid, ?_, ?_, working.isNew inside placed⟩
  · rw [updateTuple, updated]
  rw [← UpdateStart.commandsOf_append] at tracks
  have grown := placed.keepsRows fresh.long kept.formed here there
  have long := le_length_item grown.formed (grown.normal offset (kept.normal offset normal))
  have marked := KeepsRows.setItem grown.formed (grown.normal offset (kept.normal offset normal))
    (length_updatedBlock long xid cid newTid)
    (userRow_updatedBlock long xid cid newTid)
  have next := (working.toProgress.place assigned tracks placed sameLength
    fresh).setCurrent there (kept.trans grown) marked
  dsimp only [UpdateStart.tupleOn] at next isPages
  rwa [← isPages] at next

theorem Working.update_error
    (failing : (¬∃ xid, start.backend.getCurrentTransactionId.2 = .ok xid) ∨
      (pageInit kBlckSz 0).heapFreeSpace < (newVersion tuple).tuple.block.length) :
    ∃ text, updateTuple newVersion session tuple = .error text := by
  obtain ⟨text, failed⟩ := heapUpdate_error working.tracks working.formed
    working.bounded working.assigned failing
  exact ⟨text, by rw [updateTuple, failed]⟩

theorem Working.tupleAt (normal : (start.page block).IsNormal offset) :
    session.tupleAt { block := block, offset := offset } = some (start.tupleOn block offset) := by
  obtain ⟨page, here, kept⟩ := working.current
  rw [HeapSession.tupleAt, here, Option.map_some, kept.rows offset normal]
  rfl

/-! ## The start and the next block -/

end

theorem UpdateStart.progress (start : UpdateStart) (newVersion : ScannedTuple → NewVersion) :
    Progress start newVersion [] 0 start.toHeapSession := by
  refine ⟨fun some => absurd rfl some, start.tracks, start.formed, start.bounded, le_rfl, ?_, ?_⟩
  · intro _ _ _
    exact start.getElem?_pages (by omega)
  · intro _
    exact ⟨0, _, start.getElem?_pages (by omega), .unchanged, fun _ => ⟨rfl, rfl⟩, by simp⟩

theorem snapshot_eq (progress : Progress start newVersion done block session) :
    session.snapshot = start.snapshotAfter newVersion done := by
  rw [progress.tracks.snapshot, UpdateStart.snapshotAfter]
  cases done with
  | nil => rfl
  | cons _ _ =>
    rw [if_neg (cons_ne_nil _ _), if_neg]
    simp only [UpdateStart.commandsOf, map_cons, sum_cons]
    omega

/-- The number of new versions that the scan meets on a block. -/
def NewOn (start : UpdateStart) (newVersion : ScannedTuple → NewVersion)
    (done : List ScannedTuple) (block count : Nat) : Prop :=
  (block + 1 < start.nblocks → count = 0) ∧ (done = [] → count = 0) ∧
    (block + 1 = start.nblocks → ∀ tuple ∈ done.head?,
      (count = 0 ↔ (start.page block).heapFreeSpace < (newVersion tuple).tuple.block.length))

section

variable (progress : Progress start newVersion done block session)

include progress

theorem Progress.next (inside : block < start.nblocks) :
    ∃ count page, session.pages[block]? = some page ∧
      Grown start.xid session.backend.getCurrentCommandId (start.page block)
        count page ∧ NewOn start newVersion done block count := by
  by_cases isLast : block + 1 = start.nblocks
  · obtain ⟨count, page, last⟩ := progress.last inside
    have isBlock : start.nblocks - 1 = block := by omega
    obtain ⟨there, grown, untouched, filled⟩ := last
    rw [isBlock] at there grown filled
    exact ⟨count, page, there, grown, by omega, fun first => (untouched first).1,
      fun _ tuple first => (filled tuple first).1⟩
  · have before : block + 1 < start.nblocks := by omega
    exact ⟨0, _, progress.ahead block le_rfl before, .unchanged,
      fun _ => rfl, fun _ => rfl, fun isLast => by omega⟩

/-- What the check accepts on the page: tuples that were there, and all new
versions. -/
theorem Progress.visibleOffsets (formed : HeapFormed (start.page block))
    (grown : Grown start.xid session.backend.getCurrentCommandId (start.page block) count page)
    (first : done = [] → count = 0) :
    visibleOffsets session.backend session.snapshot page = visibleOffsets (start.backendAfter done)
          (start.snapshotAfter newVersion done) (start.page block) ++
        List.range' ((start.page block).maxOffsetNumber + 1) count := by
  have tracks := progress.tracks
  rw [← snapshot_eq progress]
  by_cases isFirst : done = []
  · obtain rfl := first isFirst
    subst isFirst
    rw [grown.eq_of_zero, range'_zero, append_nil]
    exact tracks.same.visibleOffsets start.coherent tracks.coherent ..
  obtain ⟨xid, assigned⟩ := progress.assigned isFirst
  obtain ⟨valid, head, _, coherent⟩ := assigned_of_getCurrentTransactionId
    start.inTransaction start.coherent assigned
  have reference : start.backendAfter done =
      start.backend.getCurrentTransactionId.1 := if_neg isFirst
  rw [reference] at tracks ⊢
  rw [← tracks.same.visibleOffsets coherent tracks.coherent,
    visibleOffsets_eq tracks.coherent, visibleOffsets_eq tracks.coherent]
  apply grown.filter_normalOffsets formed
  intro _ isFresh
  rw [UpdateStart.xid_eq assigned] at isFresh
  apply isFresh.verdict valid
  · rw [isCurrent_visibilityStack, tracks.same.stack, any_eq_true]
    exact ⟨xid, mem_of_mem_head? head, by simp⟩
  · rw [snapshot_eq progress, UpdateStart.snapshotAfter, if_neg isFirst, tracks.command]
    exact BitVec.le_refl _

theorem Progress.enter (inside : block < start.nblocks) :
    ∃ count, (session.enterBlock block).1 = (Executor.visibleOffsets (start.backendAfter done)
            (start.snapshotAfter newVersion done) (start.page block) ++
          List.range' ((start.page block).maxOffsetNumber + 1) count).take kHeapTuplesPerPage ∧
      NewOn start newVersion done block count ∧
      Working start newVersion done block (session.enterBlock block).2 := by
  obtain ⟨count, page, there, grown, new⟩ := progress.next inside
  have formed := start.formed _ (start.page_mem inside)
  have original := grown.keepsRows formed
  obtain ⟨noted, kept, coherent⟩ := scanPage_spec progress.tracks.coherent original.formed
  unfold HeapSession.enterBlock
  simp only [there]
  refine ⟨count, ?_, new, ?_⟩
  · rw [noted, progress.visibleOffsets formed grown new.2.1]
  have checked : Progress start newVersion done (block + 1)
      { session with backend := { session.backend with cache := (session.scanPage page).cache } } :=
    ⟨progress.assigned, progress.tracks.setCache coherent, progress.formed,
      progress.bounded, progress.blocks, fun later ahead => progress.ahead later (by omega), ?_⟩
  · exact checked.setCurrent there original kept
  intro _
  obtain ⟨number, lastPage, last⟩ := progress.last inside
  exact ⟨number, lastPage, last.there, last.grown, last.untouched, last.filled⟩

end

end Pgcpp.Executor
