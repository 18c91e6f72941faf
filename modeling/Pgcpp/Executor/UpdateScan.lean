import Pgcpp.Executor.ModifyTable

/-!
# The scan as a loop over blocks

The calls of `heap_getnext` interleave with the updates.  Together they are two
nested loops: over the blocks the table had when the scan began, and over the
tuples noted on a block.
-/

namespace Pgcpp.Executor

open Storage Transaction Access HeapSession

def UpdateRun.append (first later : UpdateRun) : UpdateRun :=
  { returned := first.returned ++ later.returned, created := first.created ++ later.created
    session := later.session }

/-- A run goes on where an earlier part has stopped. -/
def andThen (first : Except String UpdateRun)
    (next : HeapSession → Except String UpdateRun) : Except String UpdateRun :=
  match first with
  | .error text => .error text
  | .ok run =>
    match next run.session with
    | .error text => .error text
    | .ok later => .ok (run.append later)

def UpdateRun.idle (session : HeapSession) : UpdateRun :=
  { returned := [], created := [], session := session }

section

variable (newVersion : ScannedTuple → NewVersion)

def updateTuple (session : HeapSession) (tuple : ScannedTuple) : Except String UpdateRun :=
  match session.heapUpdate tuple.tid (newVersion tuple) with
  | .error text => .error text
  | .ok (session, newTid) => .ok { returned := [tuple], created := [newTid], session := session }

/-- The updates of the tuples noted on a block. -/
def updateNoted (block : Nat) : List Nat → HeapSession → Except String UpdateRun
  | [], session => .ok (.idle session)
  | offset :: rest, session =>
    match session.tupleAt { block := block, offset := offset } with
    | none => .ok (.idle session)
    | some tuple => andThen (updateTuple newVersion session tuple) (updateNoted block rest)

def updateBlocks : List Nat → HeapSession → Except String UpdateRun
  | [], session => .ok (.idle session)
  | block :: rest, session =>
    andThen
      (updateNoted newVersion block (session.enterBlock block).1 (session.enterBlock block).2)
      (updateBlocks rest)

end

theorem andThen_assoc : andThen (andThen first second) third =
      andThen first fun session => andThen (second session) third := by
  cases first with
  | error text => rfl
  | ok run =>
    simp only [andThen]
    cases second run.session with
    | error text => rfl
    | ok next =>
      simp only [UpdateRun.append]
      cases third next.session with
      | error text => rfl
      | ok _ => simp

theorem andThen_idle : andThen (.ok (.idle session)) next = next session := by
  simp only [andThen, UpdateRun.idle]
  cases next session with
  | error _ => rfl
  | ok _ => rfl

theorem andThen_eq_ok (finished : andThen first next = .ok run) :
    ∃ earlier later, first = .ok earlier ∧ next earlier.session = .ok later ∧
      run = earlier.append later := by
  cases first with
  | error text => contradiction
  | ok earlier =>
    simp only [andThen] at finished
    cases rest : next earlier.session with
    | error text => simp [rest] at finished
    | ok later =>
      simp only [rest, Except.ok.injEq] at finished
      exact ⟨earlier, later, rfl, rest, finished.symm⟩

theorem length_scanItem (backend : XactBackend) (snapshot : SnapshotData) {scan : HeapPageScan}
    (few : scan.vistuples.length ≤ kHeapTuplesPerPage) :
    (scanItem backend snapshot scan offset).vistuples.length ≤ kHeapTuplesPerPage := by
  unfold scanItem
  split
  · exact few
  dsimp only
  split
  · next noted =>
      simp only [Bool.and_eq_true, decide_eq_true_eq] at noted
      rw [List.length_append, List.length_singleton]
      omega
  · exact few

section

variable (session : HeapSession)

include session

theorem length_enterBlock (block : Nat) :
    (session.enterBlock block).1.length ≤ kHeapTuplesPerPage := by
  have loop : ∀ (offsets : List Nat) (scan : HeapPageScan),
      scan.vistuples.length ≤ kHeapTuplesPerPage →
      (offsets.foldl (scanItem session.backend session.snapshot)
        scan).vistuples.length ≤ kHeapTuplesPerPage := by
    intro offsets
    induction offsets with
    | nil => exact fun _ few => few
    | cons offset _ ih =>
      intro scan few
      exact ih _ (length_scanItem _ _ few)
  unfold enterBlock
  split
  · exact Nat.zero_le _
  · exact loop _ _ (Nat.zero_le _)

theorem enterBlock_length (block : Nat) :
    (session.enterBlock block).2.pages.length = session.pages.length := by
  unfold enterBlock
  split
  · rfl
  · exact List.length_set

theorem commandCounterIncrement_pages : session.commandCounterIncrement.pages = session.pages := by
  unfold commandCounterIncrement
  split
  · rfl
  · rfl

theorem iterate_commandCounterIncrement_pages :
    (commandCounterIncrement^[count] session).pages = session.pages := by
  induction count generalizing session with
  | zero => rfl
  | succ count ih => rw [Function.iterate_succ_apply, ih, commandCounterIncrement_pages]

end

theorem insertTarget_length (pages : List PageData) :
    pages.length ≤ (insertTarget pages size).1.length + 1 := by
  unfold insertTarget
  split
  · next empty =>
      rw [List.getLast?_eq_none_iff.1 empty]
      exact Nat.zero_le _
  split
  · exact Nat.le_succ _
  · rw [List.length_dropLast]
    omega

theorem heapInsertInternal_length {session : HeapSession}
    (inserted : session.heapInsertInternal block = .ok (after, newTid)) :
    session.pages.length ≤ after.pages.length := by
  unfold heapInsertInternal at inserted
  split at inserted
  · contradiction
  dsimp only at inserted
  split at inserted
  · contradiction
  obtain ⟨rfl, _⟩ := Prod.mk.inj (Except.ok.inj inserted)
  rw [List.length_append]
  exact insertTarget_length ..

theorem heapUpdate_length {session : HeapSession}
    (updated : session.heapUpdate otid version = .ok (after, newTid)) :
    session.pages.length ≤ after.pages.length := by
  unfold heapUpdate at updated
  dsimp only at updated
  split at updated
  · contradiction
  next inserted tid placed =>
    have grown := heapInsertInternal_length placed
    rw [iterate_commandCounterIncrement_pages] at grown
    split at updated
    · contradiction
    split at updated
    · contradiction
    obtain ⟨rfl, _⟩ := Prod.mk.inj (Except.ok.inj updated)
    rw [commandCounterIncrement_pages, List.length_set, iterate_commandCounterIncrement_pages]
    exact grown

section

variable (newVersion : ScannedTuple → NewVersion)

def remaining (scan : HeapScanDesc) (session : HeapSession) : Except String UpdateRun :=
  andThen
    (updateNoted newVersion scan.cblock (scan.vistuples.drop scan.vistupleIndex) session)
    (updateBlocks newVersion (List.range' scan.nextBlock (scan.nblocks - scan.nextBlock)))

/-- A bound on the tuples that are left. -/
def tuplesLeft (scan : HeapScanDesc) : Nat :=
  (scan.vistuples.length - scan.vistupleIndex) +
    kHeapTuplesPerPage * (scan.nblocks - scan.nextBlock)

structure ScanInside (scan : HeapScanDesc) (session : HeapSession) : Prop where
  blocks : scan.nblocks ≤ session.pages.length
  current : scan.vistupleIndex < scan.vistuples.length → scan.cblock < scan.nblocks

variable {scan : HeapScanDesc}

section

variable (inside : ScanInside scan session)

include inside

theorem advanceScan_spec (left : scan.nblocks - scan.nextBlock = blocks) :
    let after := advanceScan blocks scan session
    remaining newVersion scan session = remaining newVersion after.1 after.2 ∧
      tuplesLeft after.1 ≤ tuplesLeft scan ∧ ScanInside after.1 after.2 ∧
      (after.1.vistupleIndex < after.1.vistuples.length ∨
        after.1.nblocks - after.1.nextBlock = 0) := by
  induction blocks generalizing scan session with
  | zero => exact ⟨rfl, le_rfl, inside, .inr left⟩
  | succ blocks ih =>
    unfold advanceScan
    by_cases noted : scan.vistupleIndex < scan.vistuples.length
    · simp only [noted, if_true]
      exact ⟨trivial, le_rfl, inside, .inl trivial⟩
    simp only [noted, if_false]
    have size := length_enterBlock session scan.nextBlock
    have next : ScanInside (session.heapScanPage scan scan.nextBlock).1
        (session.heapScanPage scan scan.nextBlock).2 := by
      constructor
      · exact (inside.blocks.trans_eq (enterBlock_length session scan.nextBlock).symm)
      intro _
      simp only [heapScanPage]
      omega
    have following : (session.heapScanPage scan scan.nextBlock).1.nextBlock =
          scan.nextBlock + 1 := rfl
    have sameBlocks : (session.heapScanPage scan scan.nextBlock).1.nblocks = scan.nblocks := rfl
    obtain ⟨same, fewer, insideAfter, ends⟩ := ih next (by omega)
    refine ⟨?_, ?_, insideAfter, ends⟩
    · rw [← same]
      have passed : scan.vistuples.drop scan.vistupleIndex = [] :=
        List.drop_of_length_le (not_lt.1 noted)
      rw [remaining, passed, updateNoted, andThen_idle, left, remaining, following, sameBlocks]
      have count : scan.nblocks - (scan.nextBlock + 1) = blocks := by omega
      rw [count]
      rfl
    · apply fewer.trans
      unfold tuplesLeft
      rw [following]
      have count : scan.nblocks - scan.nextBlock = scan.nblocks - (scan.nextBlock + 1) + 1 := by
        omega
      rw [count, Nat.mul_succ]
      simp only [heapScanPage]
      omega

theorem remaining_noted (noted : scan.vistuples[scan.vistupleIndex]? = some offset) :
    ∃ tuple, session.tupleAt { block := scan.cblock, offset := offset } = some tuple ∧
      remaining newVersion scan session =
        andThen (updateTuple newVersion session tuple) (remaining newVersion
          { scan with vistupleIndex := scan.vistupleIndex + 1 }) := by
  obtain ⟨index, rfl⟩ := List.getElem?_eq_some_iff.1 noted
  have page : scan.cblock < session.pages.length := (inside.current index).trans_le inside.blocks
  refine ⟨_, by rw [tupleAt, List.getElem?_eq_getElem page]; rfl, ?_⟩
  rw [remaining, List.drop_eq_getElem_cons index, updateNoted,
    tupleAt, List.getElem?_eq_getElem page]
  exact andThen_assoc

theorem modifyTable_eq (enough : tuplesLeft scan < fuel) :
    modifyTable newVersion fuel scan session = some (remaining newVersion scan session) := by
  induction fuel generalizing scan session with
  | zero => contradiction
  | succ fuel ih =>
    obtain ⟨same, fewer, insideAfter, ends⟩ := advanceScan_spec newVersion inside rfl
    rw [same]
    unfold modifyTable heapGetnext
    generalize advanceScan (scan.nblocks - scan.nextBlock) scan session = after at *
    obtain ⟨later, during⟩ := after
    dsimp only at fewer insideAfter ends ⊢
    cases noted : later.vistuples[later.vistupleIndex]? with
    | none =>
      have short := List.getElem?_eq_none_iff.1 noted
      rw [remaining, List.drop_of_length_le short, ends.resolve_left (not_lt.2 short)]
      rfl
    | some _ =>
      obtain ⟨tuple, found, goesOn⟩ := remaining_noted newVersion insideAfter noted
      have index := (List.getElem?_eq_some_iff.1 noted).1
      simp only [found, goesOn, updateTuple]
      cases updated : during.heapUpdate tuple.tid (newVersion tuple) with
      | error text => rfl
      | ok result =>
        obtain ⟨updatedSession, _⟩ := result
        have insideNext : ScanInside
            { later with vistupleIndex := later.vistupleIndex + 1 }
            updatedSession := by
          refine ⟨insideAfter.blocks.trans (heapUpdate_length updated), ?_⟩
          intro _
          exact insideAfter.current index
        have enoughNext : tuplesLeft
            { later with vistupleIndex := later.vistupleIndex + 1 } < fuel := by
          have oneLess : tuplesLeft { later with
                vistupleIndex := later.vistupleIndex + 1 } + 1 =
              tuplesLeft later := by
            unfold tuplesLeft HeapScanDesc.nextBlock
            dsimp only
            omega
          omega
        simp only [ih insideNext enoughNext, andThen]
        cases remaining newVersion
            { later with vistupleIndex := later.vistupleIndex + 1 }
            updatedSession with
        | error text => rfl
        | ok _ => rfl

end

end

theorem UpdateStart.run_eq (start : UpdateStart) (newVersion : ScannedTuple → NewVersion) :
    start.run newVersion = some (updateBlocks newVersion (List.range start.nblocks)
        start.toHeapSession) := by
  have inside : ScanInside start.heapBeginscan start.toHeapSession :=
    ⟨le_rfl, fun noted => absurd noted (Nat.lt_irrefl 0)⟩
  have enough : tuplesLeft start.heapBeginscan < kHeapTuplesPerPage * start.nblocks + 1 := by
    exact Nat.lt_succ_of_le (Nat.le_of_eq (zero_add _))
  rw [UpdateStart.run, modifyTable_eq newVersion inside enough, List.range_eq_range']
  exact congrArg some andThen_idle

end Pgcpp.Executor
