import Pgcpp.Executor.UpdateProgress

/-!
# When an UPDATE updates each row once

The scan is followed block by block.  As long as each block has returned the
tuples that were visible on it, the state in which the next block is entered is
known, and so is what the scan notes there.
-/

namespace Pgcpp.Executor

open Storage Transaction Access Commands Executor
open List hiding after count head

/-! ## The tuples that a run returns -/

section

variable {newVersion : ScannedTuple → NewVersion} {run : UpdateRun}

theorem updateTuple_eq_ok (updated : updateTuple newVersion session tuple = .ok run) :
    run.returned = [tuple] ∧ session.pages.length ≤ run.session.pages.length := by
  unfold updateTuple at updated
  split at updated
  · contradiction
  next after newTid marked =>
    cases updated
    exact ⟨rfl, heapUpdate_length marked⟩

section

variable (inside : block < session.pages.length)
  (updated : updateNoted newVersion block offsets session = .ok run)

include inside updated

theorem updateNoted_returned : (run.returned.map fun tuple => tuple.tid) =
        offsets.map (fun offset => { block := block, offset := offset }) ∧
      session.pages.length ≤ run.session.pages.length := by
  induction offsets generalizing session run with
  | nil =>
    cases updated
    exact ⟨rfl, le_rfl⟩
  | cons offset _ ih =>
    simp only [updateNoted, HeapSession.tupleAt, getElem?_eq_getElem inside] at updated
    obtain ⟨_, _, marked, others, rfl⟩ := andThen_eq_ok updated
    obtain ⟨isFirst, grown⟩ := updateTuple_eq_ok marked
    obtain ⟨areRest, grownLater⟩ := ih (inside.trans_le grown) others
    refine ⟨?_, grown.trans grownLater⟩
    rw [UpdateRun.append, isFirst, map_append, areRest]
    rfl

theorem updateNoted_block : ∀ tuple ∈ run.returned, tuple.tid.block = block := by
  intro tuple mem
  have isTid := mem_map_of_mem (f := fun tuple => tuple.tid) mem
  rw [(updateNoted_returned inside updated).1] at isTid
  obtain ⟨_, _, same⟩ := mem_map.1 isTid
  rw [← same]

end

theorem block_mem_of_updateBlocks (inside : ∀ block ∈ blocks, block < session.pages.length)
    (updated : updateBlocks newVersion blocks session = .ok run) :
    ∀ tuple ∈ run.returned, tuple.tid.block ∈ blocks := by
  induction blocks generalizing session run with
  | nil =>
    cases updated
    intro tuple mem
    contradiction
  | cons block _ ih =>
    obtain ⟨_, _, noted, others, rfl⟩ := andThen_eq_ok updated
    have present := (inside block mem_cons_self).trans_eq (enterBlock_length session block).symm
    have grown := (updateNoted_returned present noted).2
    rw [enterBlock_length] at grown
    intro tuple mem
    rcases mem_append.1 mem with here | behind
    · rw [updateNoted_block present noted tuple here]
      exact mem_cons_self
    apply mem_cons_of_mem
    apply ih _ others tuple behind
    intro other mem
    exact (inside other (mem_cons_of_mem _ mem)).trans_le grown

end

/-! ## One block -/

variable {start : UpdateStart} {newVersion : ScannedTuple → NewVersion}

section

variable (working : Working start newVersion done block session)

include working

theorem Working.updateNoted (inside : block < start.nblocks)
    (normal : ∀ offset ∈ offsets, (start.page block).IsNormal offset)
    (assignable : offsets ≠ [] → ∃ xid, start.backend.getCurrentTransactionId.2 = .ok xid)
    (small : ∀ offset ∈ offsets, (newVersion (start.tupleOn block offset)).tuple.block.length ≤
    (pageInit kBlckSz 0).heapFreeSpace) :
    ∃ run, updateNoted newVersion block offsets session = .ok run ∧
      run.returned = offsets.map (start.tupleOn block) ∧
      Working start newVersion (done ++ run.returned) block run.session ∧
      ∀ tid ∈ run.created, start.IsNew tid := by
  induction offsets generalizing done session with
  | nil =>
    refine ⟨.idle session, rfl, rfl, ?_, fun tid mem => by contradiction⟩
    rw [UpdateRun.idle, append_nil]
    exact working
  | cons offset _ ih =>
    obtain ⟨xid, assigned⟩ := assignable (cons_ne_nil _ _)
    obtain ⟨after, newTid, updated, next, isNew⟩ := working.update inside
      (normal offset mem_cons_self) assigned
      (small offset mem_cons_self)
    obtain ⟨run, finished, returned, last, created⟩ := ih next
      (fun other mem => normal other (mem_cons_of_mem _ mem))
      (fun _ => ⟨xid, assigned⟩)
      (fun other mem => small other (mem_cons_of_mem _ mem))
    let first : UpdateRun :=
      { returned := [start.tupleOn block offset], created := [newTid], session := after }
    refine ⟨first.append run, ?_, ?_, ?_, ?_⟩
    · simp [updateNoted, working.tupleAt (normal offset mem_cons_self), updated, andThen,
        finished, first]
    · simp only [UpdateRun.append, returned, map_cons, singleton_append, first]
    · simp only [UpdateRun.append, first]
      rw [← append_assoc]
      exact last
    exact forall_mem_cons.2 ⟨isNew, created⟩

/-- They are updated without an error only if an XID can be had and the new
versions fit on a page. -/
theorem Working.of_updateNoted (inside : block < start.nblocks)
    (normal : ∀ offset ∈ offsets, (start.page block).IsNormal offset)
    (updated : Executor.updateNoted newVersion block offsets session = .ok run) :
    (offsets ≠ [] → ∃ xid, start.backend.getCurrentTransactionId.2 = .ok xid) ∧
      ∀ offset ∈ offsets, (newVersion (start.tupleOn block offset)).tuple.block.length ≤
          (pageInit kBlckSz 0).heapFreeSpace := by
  induction offsets generalizing done session run with
  | nil => exact ⟨fun some => absurd rfl some, fun offset mem => by contradiction⟩
  | cons offset _ ih =>
    simp only [Executor.updateNoted, working.tupleAt (normal offset mem_cons_self)] at updated
    obtain ⟨_, _, marked, others, rfl⟩ := andThen_eq_ok updated
    have succeeds : ¬((¬∃ xid, start.backend.getCurrentTransactionId.2 = .ok xid) ∨
        (pageInit kBlckSz 0).heapFreeSpace <
          (newVersion (start.tupleOn block offset)).tuple.block.length) := by
      intro failing
      obtain ⟨_, failed⟩ := working.update_error failing
      rw [marked] at failed
      contradiction
    obtain ⟨possible, fits⟩ := not_or.1 succeeds
    obtain ⟨xid, assigned⟩ := not_not.1 possible
    have small := not_lt.1 fits
    obtain ⟨_, _, marking, next, _⟩ := working.update inside
      (normal offset mem_cons_self) assigned small
    rw [marked] at marking
    cases marking
    obtain ⟨_, fitting⟩ := ih next (fun other mem => normal other (mem_cons_of_mem _ mem)) others
    refine ⟨fun _ => ⟨xid, assigned⟩, ?_⟩
    exact forall_mem_cons.2 ⟨small, fitting⟩

end

structure BlockSafe (start : UpdateStart)
    (newVersion : ScannedTuple → NewVersion) (block : Nat) : Prop where
  assignable : start.visibleOn block ≠ [] → ∃ xid, start.backend.getCurrentTransactionId.2 = .ok xid
  fitting : ∀ offset ∈ start.visibleOn block,
    (newVersion (start.tupleOn block offset)).tuple.block.length ≤
      (pageInit kBlckSz 0).heapFreeSpace
  steady : (start.seenOn newVersion block).take kHeapTuplesPerPage = start.visibleOn block
  apart : block + 1 = start.nblocks → ∀ tuple ∈ (start.visibleBefore block).head?,
      (start.page block).heapFreeSpace < (newVersion tuple).tuple.block.length ∨
        kHeapTuplesPerPage ≤ (start.visibleOn block).length

variable {tuple : ScannedTuple}

theorem UpdateStart.mem_visibleBefore : tuple ∈ start.visibleBefore bound ↔
      ∃ block < bound, ∃ offset ∈ start.visibleOn block, start.tupleOn block offset = tuple := by
  simp [UpdateStart.visibleBefore]

theorem UpdateStart.updateSafe_iff :
    start.UpdateSafe newVersion ↔ ∀ block < start.nblocks, BlockSafe start newVersion block := by
  constructor
  · intro safe block inside
    refine ⟨?_, ?_, safe.steady block inside, ?_⟩
    · intro some
      apply safe.assignable
      obtain ⟨offset, mem⟩ := exists_mem_of_ne_nil _ some
      exact ne_nil_of_mem (mem_visibleBefore.2 ⟨block, inside, offset, mem, rfl⟩)
    · intro offset mem
      apply safe.fitting
      exact mem_visibleBefore.2 ⟨block, inside, offset, mem, rfl⟩
    intro _
    obtain rfl : block = start.nblocks - 1 := by
      omega
    exact safe.apart
  · intro safe
    refine ⟨?_, ?_, fun block inside => (safe block inside).steady, ?_⟩
    · intro some
      obtain ⟨tuple, mem⟩ := exists_mem_of_ne_nil _ some
      obtain ⟨block, inside, offset, visible, _⟩ := mem_visibleBefore.1 mem
      exact (safe block inside).assignable (ne_nil_of_mem visible)
    · intro tuple mem
      obtain ⟨block, inside, offset, visible, rfl⟩ := mem_visibleBefore.1 mem
      exact (safe block inside).fitting offset visible
    · intro tuple first
      obtain ⟨block, _, _⟩ := mem_visibleBefore.1 (mem_of_mem_head? first)
      exact (safe (start.nblocks - 1) (by omega)).apart (by omega) tuple first

/-- What the scan notes on a block if `count` new versions are there. -/
def notedOn (start : UpdateStart) (newVersion : ScannedTuple → NewVersion)
    (block count : Nat) : List Nat :=
  (start.seenOn newVersion block ++ List.range' ((start.page block).maxOffsetNumber + 1) count).take
      kHeapTuplesPerPage

theorem notedOn_sorted : (notedOn start newVersion block count).Pairwise (· < ·) := by
  apply List.Pairwise.take
  apply pairwise_append.2
  refine ⟨visibleOffsets_sorted, pairwise_lt_range', ?_⟩
  intro _ seen _ mem
  have bound := (isNormal_of_visible seen).2.1
  have behind := (mem_range'_1.1 mem).1
  omega

theorem notedOn_eq_iff : notedOn start newVersion block count = start.visibleOn block ↔
      (start.seenOn newVersion block).take kHeapTuplesPerPage = start.visibleOn block ∧
        (count = 0 ∨ kHeapTuplesPerPage ≤ (start.visibleOn block).length) := by
  rw [notedOn, take_append]
  constructor
  · intro noted
    have none : (List.range' ((start.page block).maxOffsetNumber + 1)
        count).take (kHeapTuplesPerPage - (start.seenOn newVersion block).length) = [] := by
      apply eq_nil_iff_forall_not_mem.2
      intro offset new
      have visible : offset ∈ start.visibleOn block := by
        rw [← noted]
        exact mem_append_right _ new
      have bound := (isNormal_of_visible visible).2.1
      have behind := (mem_range'_1.1 (mem_of_mem_take new)).1
      omega
    rw [none, append_nil] at noted
    refine ⟨noted, ?_⟩
    rw [← noted, length_take]
    rcases take_eq_nil_iff.1 none with full | empty
    · exact .inr (by omega)
    · exact .inl (range'_eq_nil_iff.1 empty)
  · rintro ⟨steady, empty | full⟩
    · rw [empty, range'_zero, take_nil, append_nil, steady]
    rw [← steady, length_take] at full
    have noRoom : kHeapTuplesPerPage - (start.seenOn newVersion block).length = 0 := by omega
    rw [noRoom, take_zero, append_nil, steady]

theorem apart_iff (new : NewOn start newVersion (start.visibleBefore block) block count)
    (inside : block < start.nblocks) :
    (count = 0 ∨ kHeapTuplesPerPage ≤ (start.visibleOn block).length) ↔
      (block + 1 = start.nblocks → ∀ tuple ∈ (start.visibleBefore block).head?,
          (start.page block).heapFreeSpace < (newVersion tuple).tuple.block.length ∨
            kHeapTuplesPerPage ≤ (start.visibleOn block).length) := by
  obtain ⟨before, first, onLast⟩ := new
  constructor
  · intro noted isLast tuple isFirst
    rw [← onLast isLast tuple isFirst]
    exact noted
  intro apart
  by_cases isLast : block + 1 = start.nblocks
  · cases head : (start.visibleBefore block).head? with
    | none => exact .inl (first (head?_eq_none_iff.1 head))
    | some tuple =>
      rw [onLast isLast tuple head]
      exact apart isLast tuple head
  · exact .inl (before (by omega))

/-! ## All blocks -/

/-- The visible tuples of `count` blocks from `block` on. -/
def visibleFrom (start : UpdateStart) (block count : Nat) : List ScannedTuple :=
  (List.range' block count).flatMap fun later => (start.visibleOn later).map (start.tupleOn later)

theorem visibleFrom_succ :
    visibleFrom start block (count + 1) = (start.visibleOn block).map (start.tupleOn block) ++
        visibleFrom start (block + 1) count := by
  simp [visibleFrom, range'_succ]

section

variable (progress : Progress start newVersion (start.visibleBefore block) block session)

include progress

theorem Progress.updateBlock (inside : block < start.nblocks)
    (safe : BlockSafe start newVersion block) :
    ∃ run, updateNoted newVersion block (session.enterBlock block).1
          (session.enterBlock block).2 = .ok run ∧
      run.returned = (start.visibleOn block).map (start.tupleOn block) ∧
      Progress start newVersion (start.visibleBefore (block + 1)) (block + 1) run.session ∧
      ∀ tid ∈ run.created, start.IsNew tid := by
  obtain ⟨_, noted, new, working⟩ := progress.enter inside
  have isVisible := noted.trans
    (notedOn_eq_iff.2 ⟨safe.steady, (apart_iff new inside).2 safe.apart⟩)
  rw [isVisible]
  have normal : ∀ offset ∈ start.visibleOn block, (start.page block).IsNormal offset :=
    fun offset visible => isNormal_of_visible visible
  obtain ⟨run, updated, returned, after, created⟩ :=
    working.updateNoted inside normal safe.assignable safe.fitting
  refine ⟨run, updated, returned, ?_, created⟩
  rw [UpdateStart.visibleBefore, range_succ, flatMap_append, flatMap_singleton, ← returned]
  exact after.toProgress

theorem Progress.blockSafe (inside : block < start.nblocks) (updated : updateNoted newVersion block
      (session.enterBlock block).1 (session.enterBlock block).2 = .ok run)
    (same : run.returned.Perm ((start.visibleOn block).map (start.tupleOn block))) :
    BlockSafe start newVersion block := by
  obtain ⟨count, noted, new, working⟩ := progress.enter inside
  have present := (inside.trans_le working.blocks)
  obtain ⟨tids, _⟩ := updateNoted_returned present updated
  -- both lists of offset numbers are sorted, so they agree
  have offsets := same.map fun tuple => tuple.tid.offset
  have isNoted : run.returned.map (fun tuple => tuple.tid.offset) =
      notedOn start newVersion block count := by
    have projected := congrArg (List.map HeapTid.offset) tids
    rw [map_map, map_map] at projected
    refine projected.trans ?_
    rw [noted]
    exact map_id _
  have areVisible : ((start.visibleOn block).map (start.tupleOn block)).map
      (fun tuple => tuple.tid.offset) = start.visibleOn block := by
    rw [map_map]
    exact map_id _
  rw [isNoted, areVisible] at offsets
  have isVisible : notedOn start newVersion block count = start.visibleOn block := by
    apply offsets.eq_of_pairwise _ notedOn_sorted visibleOffsets_sorted
    intro _ _ _ _ _ _
    omega
  have normal : ∀ offset ∈ (session.enterBlock block).1, (start.page block).IsNormal offset := by
    intro offset mem
    rw [noted.trans isVisible] at mem
    exact isNormal_of_visible mem
  obtain ⟨assignable, fitting⟩ := working.of_updateNoted inside normal updated
  rw [noted.trans isVisible] at assignable fitting
  obtain ⟨steady, apart⟩ := notedOn_eq_iff.1 isVisible
  exact ⟨assignable, fitting, steady, (apart_iff new inside).1 apart⟩

theorem Progress.updateBlocks (inside : block + count = start.nblocks)
    (safe : ∀ later, block ≤ later → later < start.nblocks → BlockSafe start newVersion later) :
    ∃ run, updateBlocks newVersion (List.range' block count) session = .ok run ∧
      run.returned = visibleFrom start block count ∧ ∀ tid ∈ run.created, start.IsNew tid := by
  induction count generalizing block session with
  | zero => exact ⟨.idle session, rfl, rfl, fun tid _ => by contradiction⟩
  | succ count ih =>
    obtain ⟨first, updated, returned, next, created⟩ :=
      progress.updateBlock (by omega) (safe block (by omega) (by omega))
    obtain ⟨run, finished, returnedLater, createdLater⟩ := ih next
      (by omega) (fun later _ => safe later (by omega))
    refine ⟨first.append run, ?_, ?_, ?_⟩
    · simp [range'_succ, updateBlocks, updated, andThen, finished]
    · rw [UpdateRun.append, returned, returnedLater, visibleFrom_succ]
    exact forall_mem_append.2 ⟨created, createdLater⟩

end

theorem block_mem_visibleFrom (mem : tuple ∈ visibleFrom start block count) :
    tuple.tid.block ∈ List.range' block count := by
  obtain ⟨_, inside, visible⟩ := mem_flatMap.1 mem
  obtain ⟨_, _, rfl⟩ := mem_map.1 visible
  exact inside

theorem filter_parts {here behind : List ScannedTuple}
    (onBlock : ∀ tuple ∈ here, tuple.tid.block = block)
    (off : ∀ tuple ∈ behind, tuple.tid.block ≠ block) :
    (here ++ behind).filter (fun tuple => tuple.tid.block == block) = here ∧
      (here ++ behind).filter (fun tuple => tuple.tid.block != block) = behind := by
  rw [filter_append, filter_append]
  constructor
  · rw [filter_eq_self.2 (by simpa using onBlock),
      filter_eq_nil_iff.2 (by simpa using off), append_nil]
  · rw [filter_eq_nil_iff.2 (by simpa using onBlock),
      filter_eq_self.2 (by simpa using off), nil_append]

theorem Progress.safe_of_updateBlocks
    (progress : Progress start newVersion (start.visibleBefore block) block session)
    (inside : block + count = start.nblocks)
    (updated : Executor.updateBlocks newVersion (List.range' block count) session = .ok run)
    (same : run.returned.Perm (visibleFrom start block count)) :
    ∀ later, block ≤ later → later < start.nblocks → BlockSafe start newVersion later := by
  induction count generalizing block session run with
  | zero =>
    intro later behind before
    omega
  | succ count ih =>
    obtain ⟨_, rest, noted, others, rfl⟩ := andThen_eq_ok updated
    have blocks := progress.blocks
    have present : block < (session.enterBlock block).2.pages.length := by
      rw [enterBlock_length]
      omega
    have grown := (updateNoted_returned present noted).2
    rw [enterBlock_length] at grown
    have elsewhere {tuple : ScannedTuple}
        (behind : tuple.tid.block ∈ List.range' (block + 1) count) :
        tuple.tid.block ≠ block := by
      have bounds := mem_range'_1.1 behind
      omega
    have returnedBehind : ∀ tuple ∈ rest.returned, tuple.tid.block ≠ block := by
      intro tuple mem
      apply elsewhere
      apply block_mem_of_updateBlocks _ others tuple mem
      intro later behind
      have bounds := mem_range'_1.1 behind
      omega
    have visibleHere : ∀ tuple ∈ (start.visibleOn block).map (start.tupleOn block),
        tuple.tid.block = block := by
      intro tuple mem
      obtain ⟨_, _, rfl⟩ := mem_map.1 mem
      rfl
    rw [UpdateRun.append, visibleFrom_succ] at same
    obtain ⟨isFirst, isRest⟩ := filter_parts (updateNoted_block present noted) returnedBehind
    obtain ⟨isHere, isBehind⟩ := filter_parts visibleHere
      fun tuple mem => elsewhere (block_mem_visibleFrom mem)
    have sameHere := same.filter fun tuple => tuple.tid.block == block
    have sameBehind := same.filter fun tuple => tuple.tid.block != block
    rw [isFirst, isHere] at sameHere
    rw [isRest, isBehind] at sameBehind
    have safeHere := progress.blockSafe (by omega) noted sameHere
    obtain ⟨_, again, _, next, _⟩ := progress.updateBlock (by omega) safeHere
    rw [noted] at again
    cases again
    intro later behind before
    rcases Nat.eq_or_lt_of_le behind with rfl | further
    · exact safeHere
    · exact ih next (by omega) others sameBehind later further before

/-! ## The whole UPDATE -/

theorem UpdateStart.visibleTuples_eq (start : UpdateStart) :
    start.visibleTuples = visibleFrom start 0 start.nblocks := by
  rw [visibleTuples, visibleBefore, visibleFrom, range_eq_range']

theorem UpdateStart.not_isNew (visible : tuple ∈ start.visibleTuples) : ¬start.IsNew tuple.tid := by
  obtain ⟨_, inside, _, seen, rfl⟩ := mem_visibleBefore.1 visible
  have bound := (isNormal_of_visible seen).2.1
  rintro (beyond | ⟨_, behind⟩)
  · exact not_lt.2 beyond inside
  · exact not_lt.2 bound behind

/-- An UPDATE updates each row once under the condition only. -/
theorem UpdateStart.updatesEachRowOnce_iff (start : UpdateStart)
    (newVersion : ScannedTuple → NewVersion) :
    start.UpdatesEachRowOnce newVersion ↔ start.UpdateSafe newVersion := by
  have initially := start.progress newVersion
  rw [updateSafe_iff, UpdatesEachRowOnce, start.run_eq, range_eq_range']
  constructor
  · rintro ⟨run, finished, same, _⟩ block inside
    rw [start.visibleTuples_eq] at same
    exact initially.safe_of_updateBlocks (zero_add _)
      (Option.some.inj finished) same block (Nat.zero_le _) inside
  intro safe
  obtain ⟨run, finished, returned, created⟩ := initially.updateBlocks
    (zero_add _) (fun later _ inside => safe later inside)
  rw [← start.visibleTuples_eq] at returned
  refine ⟨run, congrArg some finished, .of_eq returned, ?_⟩
  intro tuple member again
  rw [returned] at member
  exact not_isNew member (created tuple.tid again)

/-! ## A row that is updated twice -/

def oneRowPage : PageData := (pageInit kBlckSz 0).appended (smallTuple 3 0 0 41)

/-- Two such pages with plenty of room, and a transaction without an XID that
sees both rows. -/
def twoRows : UpdateStart :=
  { backend :=
      { stack := [{ pushedState [] with
          state := .inProgress, blockState := .started }]
        nextSubTransactionId := 2, nextXid := 4
        log := setCommitLog (fun _ => .inProgress) 3 .committed, cache := .empty }
    snapshot := { xmin := 4, xmax := 4, xip := [], snapshotXid := 0, curcid := 0 }
    pages := [oneRowPage, oneRowPage], inTransaction := cons_ne_nil _ _
    coherent := LogCache.coherent_empty, formed := by
      have formed : HeapFormed oneRowPage := (heapFormed_pageInit (by decide)).appended (by decide)
          ⟨by decide, by decide⟩
      simpa [PagesFormed] using formed
    bounded := by decide }

/-- Every new version is a row of the same size. -/
def smallVersion : ScannedTuple → NewVersion := fun _ =>
  { tuple := ⟨smallTuple 0 0 0 42, by decide, false, false, by decide⟩, chunksStored := 0
    chunksDeleted := 0 }

/-- The new version of the first row goes to the second page, where the scan
meets it. -/
theorem twoRows_updated_three_times : (∃ run, twoRows.run smallVersion = some (.ok run) ∧
        run.returned.map (fun tuple => tuple.tid) = [⟨0, 1⟩, ⟨1, 1⟩, ⟨1, 2⟩] ∧
        run.created.head? = some ⟨1, 2⟩) ∧ ¬twoRows.UpdatesEachRowOnce smallVersion := by
  have returned : ((twoRows.run smallVersion).bind Except.toOption).map
      (fun run => (run.returned.map (fun tuple => tuple.tid), run.created.head?)) =
        some ([⟨0, 1⟩, ⟨1, 1⟩, ⟨1, 2⟩], some ⟨1, 2⟩) := by
    decide +kernel
  have visible : twoRows.visibleTuples.length = 2 := by decide +kernel
  constructor
  · cases finished : twoRows.run smallVersion with
    | none => contradiction
    | some result =>
      cases result with
      | error _ =>
        rw [finished] at returned
        contradiction
      | ok run =>
        rw [finished] at returned
        obtain ⟨tids, first⟩ := Prod.mk.inj (Option.some.inj returned)
        exact ⟨run, rfl, tids, first⟩
  · rintro ⟨run, finished, same, _⟩
    rw [finished] at returned
    have three := congrArg (fun tids => tids.1.length) (Option.some.inj returned)
    rw [length_map, same.length_eq] at three
    contradiction

end Pgcpp.Executor
