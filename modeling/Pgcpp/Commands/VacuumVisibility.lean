import Pgcpp.Commands.VacuumIdentity
import Pgcpp.Transaction.VisibilityRule

/-!
# What VACUUM shows and hides

By the commit log, VACUUM removes a tuple whose `t_xmax` has committed before
every running transaction, and freezes one whose `t_xmin` has committed before
the freeze limit.  It does not ask whether `t_xmax` only locks the row, or what
a snapshot says; and the bit it sets for a frozen inserter is read as a
committed deleter.
-/

namespace Pgcpp.Commands

open Lib Storage Transaction Access HeapTupleHeaderData LogCache Verdict Visibility
open List hiding after

/-! ## What VACUUM does by the commit log -/

section

variable (log : CommitLog) (oldestXmin freezeLimit : TransactionId) (header : HeapTupleHeaderData)

/-- `t_xmax` has committed before every running transaction. -/
def isDead : Bool :=
  transactionIdIsValid header.tXmax && logStatus log header.tXmax = .committed &&
    transactionIdPrecedes header.tXmax oldestXmin

/-- `t_xmin` has committed before the freeze limit. -/
def isFreezable : Bool :=
  header.getXminStatus ≠ .frozen && transactionIdIsNormal header.tXmin &&
    transactionIdPrecedes header.tXmin freezeLimit &&
    logStatus log header.tXmin = .committed

def ruling : Verdict :=
  if isDead log oldestXmin header then .reclaim
  else if isFreezable log freezeLimit header then .freeze else .keep

end

section

variable {log : CommitLog} {snap : SnapshotData} {freezeLimit : TransactionId}

theorem judge_coherent (coherent : cache.Coherent log) (header : HeapTupleHeaderData) :
    (judge log snap freezeLimit cache header).1 = ruling log snap.xmin freezeLimit header ∧
      (judge log snap freezeLimit cache header).2.Coherent log := by
  obtain ⟨deleter, asked⟩ := transactionIdDidCommit_coherent coherent header.tXmax
  obtain ⟨inserter, both⟩ := transactionIdDidCommit_coherent coherent header.tXmin
  obtain ⟨inserterAfter, after⟩ := transactionIdDidCommit_coherent asked header.tXmin
  unfold judge heapTupleIsSurelyDead ruling isDead isFreezable
  grind

theorem judgeItems_coherent (coherent : cache.Coherent log) :
    (judgeItems log snap freezeLimit page cache offsets).1 = offsets.map (fun offset =>
        (offset, ruling log snap.xmin freezeLimit (headerOf (page.item offset)))) ∧
      (judgeItems log snap freezeLimit page cache offsets).2.Coherent log := by
  induction offsets generalizing cache with
  | nil => exact ⟨rfl, coherent⟩
  | cons offset _ ih =>
    obtain ⟨first, judged⟩ := judge_coherent coherent (headerOf (page.item offset))
    obtain ⟨rest, later⟩ := ih judged
    refine ⟨?_, later⟩
    rw [judgeItems, map_cons, ← first, ← rest]

theorem judgePages_coherent (coherent : cache.Coherent log) :
    judgePages log snap freezeLimit cache pages = pages.map fun page =>
      (page, page.normalOffsets.map fun offset =>
        (offset, ruling log snap.xmin freezeLimit (headerOf (page.item offset)))) := by
  induction pages generalizing cache with
  | nil => rfl
  | cons page _ ih =>
    obtain ⟨first, judged⟩ := judgeItems_coherent coherent
    rw [judgePages, map_cons, ← first, ← ih judged]

end

theorem execVacuum_contents (log : CommitLog) (pgxact : Nat → TransactionId) (pgprocnos : List Nat)
    (nextXid : TransactionId) (freeze : Bool) (coherent : cache.Coherent log)
    (relation : HeapRelation) (formed : PagesFormed relation.pages) :
    let oldestXmin := getOldestXmin pgxact pgprocnos kInvalidTransactionId
    (execVacuum log pgxact pgprocnos nextXid freeze cache relation).1.pages.flatMap contents =
      (relation.pages.flatMap contents).filterMap fun block =>
        (ruling log oldestXmin (vacuumGetFreezeLimit oldestXmin freeze)
          (headerOf block)).outcome block := by
  intro oldestXmin
  have vacuumed := execVacuum_vacuumed log pgxact pgprocnos nextXid freeze cache relation formed
  rw [execVacuumVerdicts, judgePages_coherent coherent] at vacuumed
  generalize (execVacuum log pgxact pgprocnos nextXid freeze cache relation).1.pages = after
    at vacuumed
  clear formed
  generalize relation.pages = pages at *
  induction pages generalizing after with
  | nil =>
    cases vacuumed
    rfl
  | cons page pages ih =>
    cases vacuumed with
    | cons first rest =>
      rw [flatMap_cons, flatMap_cons, filterMap_append, ih _ rest, first.contents_after, contents,
        filterMap_map, filterMap_map]
      rfl

/-! ## What a snapshot sees -/

def visibleRows (view : BackendView) (snapshot : SnapshotData)
    (relation : HeapRelation) : List UserRow :=
  ((relation.pages.flatMap contents).filter fun block =>
    view.satisfiesMVCC snapshot (headerOf block)).map userRow

/-- `t_xmax` is a deleter that the snapshot counts as finished. -/
def deleterFinished (snapshot : SnapshotData) (header : HeapTupleHeaderData) : Bool :=
  transactionIdIsValid header.tXmax && !hasFlag header.tInfomask kHeapXmaxLocked &&
    inFinishedRegion snapshot header.tXmax

instance : Decidable (DeleterHides view snapshot header) := by
  unfold DeleterHides
  infer_instance

/-- A dead tuple with a visible inserter is not only locked, and the snapshot counts its
deleter as finished.  If a tuple can be frozen, such a deleter has really deleted it or
its inserter is not visible; and without such a deleter the inserter is visible, and the
tuple not deleted by the reader. -/
@[mk_iff]
structure Unharmed (view : BackendView) (log : CommitLog) (oldestXmin freezeLimit : TransactionId)
    (snapshot : SnapshotData) (header : HeapTupleHeaderData) : Prop where
  dead : isDead log oldestXmin header → inserterShown view.log view.stack snapshot header →
    deleterFinished snapshot header
  freezable : isFreezable log freezeLimit header → isDead log oldestXmin header = false →
    if deleterFinished snapshot header then
      inserterShown view.log view.stack snapshot header → DeleterHides view snapshot header
    else inserterShown view.log view.stack snapshot header ∧ ¬DeleterHides view snapshot header

section

variable {view : BackendView} {snapshot : SnapshotData}

theorem sees_frozenBlock (long : kHeapTupleHeaderSize ≤ block.length) :
    view.satisfiesMVCC snapshot (headerOf (frozenBlock block)) =
      !deleterFinished snapshot (headerOf block) := by
  have locked := hasFlag_frozenInfomask (headerOf block).tInfomask
    (show kHeapXminInvalid &&& kHeapXmaxLocked = 0 by decide)
  have committed := hasFlag_frozenInfomask (headerOf block).tInfomask
    (show kHeapXminInvalid &&& kHeapXminCommitted = 0 by decide)
  -- the bit set for a frozen inserter is the hint for a committed deleter
  have shared := hasFlag_frozenInfomask (headerOf block).tInfomask
    (show kHeapXminInvalid &&& kHeapXmaxCommitted = 0 by decide)
  rw [show hasFlag (kHeapXminFrozen ||| kHeapXminCommitted) kHeapXmaxLocked =
    false by decide, Bool.or_false] at locked
  rw [show hasFlag (kHeapXminFrozen ||| kHeapXminCommitted)
    kHeapXminCommitted = true by decide, Bool.or_true] at committed
  rw [show hasFlag (kHeapXminFrozen ||| kHeapXminCommitted)
    kHeapXmaxCommitted = true by decide, Bool.or_true] at shared
  rw [headerOf_frozenBlock long]
  simp [BackendView.satisfiesMVCC_eq_verdict, verdict, inserterShown,
    deleterHides, getXminStatus, getXmaxStatus, committed, shared, locked, deleterFinished]

variable {log : CommitLog}
  (later : ∀ xid, logStatus log xid = .committed → logStatus view.log xid = .committed)

include later

theorem hides_of_isDead (truthful : HintsTruthful view.log header)
    (dead : isDead log oldestXmin header) :
    deleterHides view.log view.stack snapshot header = deleterFinished snapshot header := by
  simp only [isDead, Bool.and_eq_true, decide_eq_true_eq] at dead
  obtain ⟨⟨valid, committed⟩, -⟩ := dead
  have known := later _ committed
  have other : view.isCurrent header.tXmax = false := offStack_of_finished valid (by simp [known])
  rw [Bool.eq_iff_iff, deleterHides_iff truthful]
  simp [DeleterHides, deleterFinished, valid, other, known]

/-- A tuple that VACUUM has passed is seen as before exactly if it is unharmed. -/
theorem sees_outcome_iff (long : kHeapTupleHeaderSize ≤ block.length)
    (truthful : HintsTruthful view.log (headerOf block)) :
    ((ruling log oldestXmin freezeLimit (headerOf block)).outcome block).any
        (view.satisfiesMVCC snapshot <| headerOf ·) = view.satisfiesMVCC snapshot (headerOf block) ↔
      Unharmed view log oldestXmin freezeLimit snapshot (headerOf block) := by
  rw [view.satisfiesMVCC_eq_verdict, verdict, ruling, unharmed_iff]
  cases dead : isDead log oldestXmin (headerOf block) with
  | true =>
    rw [hides_of_isDead later truthful dead]
    cases inserterShown view.log view.stack snapshot (headerOf block) <;> simp [outcome]
  | false =>
    cases freezable : isFreezable log freezeLimit (headerOf block) with
    | true =>
      simp only [Bool.false_eq_true, if_true, if_false, outcome, Option.any_some,
        sees_frozenBlock long, ← deleterHides_iff truthful]
      cases deleterFinished snapshot (headerOf block) <;>
        cases inserterShown view.log view.stack snapshot (headerOf block) <;> simp
    | false => simp [outcome, view.satisfiesMVCC_eq_verdict, verdict]

end

/-! ## What a snapshot sees after VACUUM -/

theorem map_filter_filterMap {items : List α} {f : α → Option α} {p : α → Bool} {key : α → β}
    (kept : ∀ item ∈ items, ∀ rest, f item = some rest → key rest = key item) :
    ((items.filterMap f).filter p).map key =
      (items.filter fun item => (f item).any p).map key := by
  induction items with
  | nil => rfl
  | cons item items ih =>
    obtain ⟨first, others⟩ := forall_mem_cons.1 kept
    cases left : f item with
    | none => simpa [left] using ih others
    | some rest => cases seen : p rest <;> simpa [left, seen, first rest left] using ih others

theorem eq_of_filter_map_perm {items : List α} {p q : α → Bool} {key : α → β}
    (distinct : (items.map key).Nodup)
    (perm : ((items.filter p).map key).Perm ((items.filter q).map key)) (mem : item ∈ items) :
    p item = q item := by
  have picked : ∀ p : α → Bool, key item ∈ (items.filter p).map key ↔ p item := by
    intro p
    constructor
    · intro found
      obtain ⟨other, inItems, same⟩ := mem_map.1 found
      obtain ⟨inItems, holds⟩ := mem_filter.1 inItems
      rwa [inj_on_of_nodup_map distinct inItems mem same] at holds
    · exact fun holds => mem_map_of_mem (mem_filter.2 ⟨mem, holds⟩)
  rw [Bool.eq_iff_iff, ← picked, ← picked, perm.mem_iff]

theorem contents_long {relation : HeapRelation}
    (formed : PagesFormed relation.pages) :
    ∀ block ∈ relation.pages.flatMap contents, kHeapTupleHeaderSize ≤ block.length := by
  intro block mem
  obtain ⟨page, isPage, inPage⟩ := mem_flatMap.1 mem
  obtain ⟨offset, normal, rfl⟩ := mem_map.1 inPage
  have size := (formed page isPage).headers offset (PageData.mem_normalOffsets.1 normal)
  simpa [PageData.item] using size

/-- A row that XID 4 has locked, and a row that XID 5 tried to delete. -/
def lockedAndSpared : PageData :=
  ((pageInit kBlckSz 0).appended (smallTuple 3 4 kHeapXmaxLocked 41)).appended (smallTuple 3 5 0 42)

def twoRowTable : HeapRelation := { pages := [lockedAndSpared], relfrozenxid := 3 }

theorem twoRowTable_formed : PagesFormed twoRowTable.pages := by
  intro page mem
  obtain rfl := mem_singleton.1 mem
  exact ((heapFormed_pageInit (by decide)).appended (by decide) ⟨by decide, by decide⟩).appended
    (by decide) ⟨by decide, by decide⟩

def threeOutcomes : CommitLog :=
  setCommitLog (setCommitLog (setCommitLog (fun _ => .inProgress) 3 .committed)
    4 .committed) 5 .aborted

/-- The backend that runs XID 6, alone in the process array. -/
def runningSix : BackendView :=
  { log := threeOutcomes, cache := empty, stack := [{ transactionId := 6, commandId := 0 }]
    coherent := coherent_empty, running := by decide }

def snapshotOfSix : SnapshotData := finishSnapshot (collectRunningXids (fun _ => 6) [0]) 7 6 0

def twoRowTableVacuumed : HeapRelation :=
  (execVacuum threeOutcomes (fun _ => 6) [0] 7 false empty twoRowTable).1

end Pgcpp.Commands
