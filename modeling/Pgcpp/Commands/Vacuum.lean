import Pgcpp.Access.HeapLayout
import Pgcpp.Storage.PageRuns
import Pgcpp.Transaction.Visibility

/-!
# VACUUM

`ExecVacuum` over the pages of one relation: mark the line pointers of surely
dead tuples, freeze old inserters, and repair the pages that have dead line
pointers.  On a well-formed heap page the pass is a filter followed by a map
on the tuples, and the repair renumbers what is left.
-/

namespace Pgcpp.Commands

open Lib Storage Transaction Access PageData
open List hiding after count

def kVacuumFreezeMinAge : Nat := 50000000

structure VacuumStats where
  pagesScanned : Nat
  tuplesFrozen : Nat
  tuplesDeadReclaimed : Nat
  tuplesLive : Nat
  relfrozenxidAdvanced : Bool
  deriving DecidableEq

def VacuumStats.zero : VacuumStats :=
  { pagesScanned := 0, tuplesFrozen := 0, tuplesDeadReclaimed := 0, tuplesLive := 0
    relfrozenxidAdvanced := false }

def vacuumGetFreezeLimit (oldestXmin : TransactionId) (aggressive : Bool) : TransactionId :=
  if aggressive then oldestXmin
  else if oldestXmin.toNat < kVacuumFreezeMinAge + kFirstNormalTransactionId.toNat then oldestXmin
  else oldestXmin - BitVec.ofNat 32 kVacuumFreezeMinAge

/-- The flags of a frozen tuple; the bit of `kHeapXminFrozen` is also that of
`kHeapXmaxCommitted`. -/
def frozenInfomask (infomask : BitVec 16) : BitVec 16 :=
  (infomask ||| (kHeapXminFrozen ||| kHeapXminCommitted)) &&& ~~~kHeapXminInvalid

/-- `item_id->li_flags = kLPDead`. -/
def markDead (page : PageData) (offset : Nat) : PageData :=
  { page with
    linp := Function.update page.linp offset { page.linp offset with liFlags := .dead } }

/-- The writes of `FreezeTupleIfNeeded` into the tuple at `offset`. -/
def freezeAt (page : PageData) (offset : Nat) : PageData :=
  let header := headerOf (page.item offset)
  let start := (page.linp offset).liOff
  { page with
    bytes := (page.bytes.store start (toBytes 4 kFrozenTransactionId.toNat)).store (start + 20)
        (toBytes 2 (frozenInfomask header.tInfomask).toNat) }

section

variable (log : CommitLog) (snap : SnapshotData) (freezeLimit : TransactionId)

/-- `FreezeTupleIfNeeded` on the tuple at `offset`: whether it was frozen, the
page and the cache. -/
def freezeTupleIfNeeded (cache : LogCache) (page : PageData) (offset : Nat) :
    Bool × PageData × LogCache :=
  let header := headerOf (page.item offset)
  if header.getXminStatus = .frozen then (false, page, cache)
  else if !transactionIdIsNormal header.tXmin then (false, page, cache)
  else if !transactionIdPrecedes header.tXmin freezeLimit then (false, page, cache)
  else
    let (committed, cache) := transactionIdDidCommit log cache header.tXmin
    if !committed then (false, page, cache) else (true, freezeAt page offset, cache)

/-- The state of the loop over the line pointers of a page. -/
structure VacuumPass where
  page : PageData
  cache : LogCache
  hasDead : Bool
  pageModified : Bool
  stats : VacuumStats

/-- One pass of the loop body. -/
def vacuumItem (pass : VacuumPass) (offset : Nat) : VacuumPass :=
  if (pass.page.linp offset).liFlags ≠ .normal then pass
  else
    let (dead, cache) := heapTupleIsSurelyDead log pass.cache snap
      (headerOf (pass.page.item offset))
    if dead then
      { pass with
        page := markDead pass.page offset, cache := cache, hasDead := true
        stats := { pass.stats with
          tuplesDeadReclaimed := pass.stats.tuplesDeadReclaimed + 1 } }
    else
      let stats := { pass.stats with
        tuplesLive := pass.stats.tuplesLive + 1 }
      let (frozen, page, cache) := freezeTupleIfNeeded log freezeLimit cache pass.page offset
      { page := page, cache := cache, hasDead := pass.hasDead
        pageModified := pass.pageModified || frozen, stats := if frozen then
            { stats with tuplesFrozen := stats.tuplesFrozen + 1 }
          else stats }

def vacuumItems (pass : VacuumPass) (offsets : List Nat) : VacuumPass :=
  offsets.foldl (vacuumItem log snap freezeLimit) pass

/-- The body of the loop over the blocks. -/
def vacuumPage (page : PageData) (cache : LogCache) (stats : VacuumStats) :
    PageData × LogCache × VacuumStats :=
  let pass := vacuumItems log snap freezeLimit
    { page := page, cache := cache, hasDead := false, pageModified := false
      stats := { stats with pagesScanned := stats.pagesScanned + 1 } }
    (List.range' 1 page.maxOffsetNumber)
  (if pass.hasDead then pass.page.repairFragmentation insertionOrder else pass.page,
    pass.cache, pass.stats)

def vacuumPages : List PageData → LogCache → VacuumStats → List PageData × LogCache × VacuumStats
  | [], cache, stats => ([], cache, stats)
  | page :: rest, cache, stats =>
    let (page, cache, stats) := vacuumPage log snap freezeLimit page cache stats
    let (rest, cache, stats) := vacuumPages rest cache stats
    (page :: rest, cache, stats)

end

/-- What VACUUM reads and leaves: the pages of the relation and its
`relfrozenxid`. -/
structure HeapRelation where
  pages : List PageData
  relfrozenxid : TransactionId

/-- The snapshot `ExecVacuum` makes, whose `xmin` is OldestXmin. -/
def vacuumSnapshot (pgxact : Nat → TransactionId) (pgprocnos : List Nat)
    (nextXid : TransactionId) : SnapshotData :=
  { xmin := getOldestXmin pgxact pgprocnos kInvalidTransactionId
    xmax := getNextTransactionId nextXid + 1, xip := [], snapshotXid := kInvalidTransactionId
    curcid := 0 }

/-- `ExecVacuum` on an opened relation, run by a backend with the given cache;
`freeze` is the statement's option. -/
def execVacuum (log : CommitLog) (pgxact : Nat → TransactionId) (pgprocnos : List Nat)
    (nextXid : TransactionId) (freeze : Bool) (cache : LogCache) (relation : HeapRelation) :
    HeapRelation × LogCache × VacuumStats :=
  let snap := vacuumSnapshot pgxact pgprocnos nextXid
  let freezeLimit := vacuumGetFreezeLimit snap.xmin freeze
  let (pages, cache, stats) := vacuumPages log snap freezeLimit relation.pages cache .zero
  if transactionIdPrecedes relation.relfrozenxid freezeLimit ||
      !transactionIdIsNormal relation.relfrozenxid then
    ({ pages := pages, relfrozenxid := freezeLimit }, cache,
      { stats with relfrozenxidAdvanced := true })
  else ({ pages := pages, relfrozenxid := relation.relfrozenxid }, cache, stats)

/-! ## The tests on one tuple -/

/-- What VACUUM decides about a tuple. -/
inductive Verdict where
  | reclaim
  | freeze
  | keep
  deriving DecidableEq

/-- The tests on one tuple, in the order of the source: dead first, then old
enough to freeze. -/
def judge (log : CommitLog) (snap : SnapshotData) (freezeLimit : TransactionId)
    (cache : LogCache) (header : HeapTupleHeaderData) : Verdict × LogCache :=
  let (dead, cache) := heapTupleIsSurelyDead log cache snap header
  if dead then (.reclaim, cache)
  else if header.getXminStatus = .frozen ∨ transactionIdIsNormal header.tXmin = false ∨
      transactionIdPrecedes header.tXmin freezeLimit = false then
    (.keep, cache)
  else
    let (committed, cache) := transactionIdDidCommit log cache header.tXmin
    (if committed then .freeze else .keep, cache)

def frozenBlock (block : List UInt8) : List UInt8 :=
  withInfomask (withXmin block kFrozenTransactionId) (frozenInfomask (headerOf block).tInfomask)

def Verdict.outcome (block : List UInt8) : Verdict → Option (List UInt8)
  | .reclaim => none
  | .freeze => some (frozenBlock block)
  | .keep => some block

/-- The write that carries out a verdict. -/
def Verdict.execute (page : PageData) (offset : Nat) : Verdict → PageData
  | .reclaim => markDead page offset
  | .freeze => freezeAt page offset
  | .keep => page

/-- The verdicts on the tuples at `offsets`, each under the cache the earlier
tests have left. -/
def judgeItems (log : CommitLog) (snap : SnapshotData)
    (freezeLimit : TransactionId) (page : PageData) :
    LogCache → List Nat → List (Nat × Verdict) × LogCache
  | cache, [] => ([], cache)
  | cache, offset :: rest =>
    let (verdict, cache) := judge log snap freezeLimit cache (headerOf (page.item offset))
    let (marks, cache) := judgeItems log snap freezeLimit page cache rest
    ((offset, verdict) :: marks, cache)

theorem headerOf_frozenBlock (long : kHeapTupleHeaderSize ≤ block.length) :
    headerOf (frozenBlock block) = { headerOf block with
        tXmin := kFrozenTransactionId
        tInfomask := frozenInfomask (headerOf block).tInfomask } := by
  unfold frozenBlock
  rw [headerOf_withInfomask (by rw [length_withXmin long]; exact long), headerOf_withXmin long]

theorem hasFlag_frozenInfomask (infomask : BitVec 16) (notCleared : kHeapXminInvalid &&& flag = 0) :
    hasFlag (frozenInfomask infomask) flag = (hasFlag infomask flag ||
        hasFlag (kHeapXminFrozen ||| kHeapXminCommitted) flag) := by
  rw [frozenInfomask, BitFlags.hasFlag_clear_of_disjoint notCleared, BitFlags.hasFlag_or]

theorem userRow_frozenBlock (long : kHeapTupleHeaderSize ≤ block.length) :
    userRow (frozenBlock block) = userRow block := by
  have longStill : kHeapTupleHeaderSize ≤ (withXmin block kFrozenTransactionId).length := by
    rw [length_withXmin long]
    exact long
  unfold frozenBlock
  rw [userRow_withInfomask longStill, userRow_withXmin long]
  rw [headerOf_withXmin long, hasFlag_frozenInfomask _ (by decide)]
  exact Bool.or_false _

/-- A well-formed page of tuples that have a header. -/
structure HeapFormed (page : PageData) : Prop where
  formed : page.WellFormed
  headers : ∀ offset, page.IsNormal offset → kHeapTupleHeaderSize ≤ (page.linp offset).liLen

abbrev PagesFormed (pages : List PageData) : Prop := ∀ page ∈ pages, HeapFormed page

theorem heapFormed_pageInit (room : kPageHeaderSize + specialSize ≤ pageSize) :
    HeapFormed (pageInit pageSize specialSize) := by
  refine ⟨pageInit_wellFormed room, ?_⟩
  intro _ normal
  have flag : ItemFlags.unused = .normal := normal.2.2
  contradiction

theorem HeapFormed.appended (formed : HeapFormed page) (long : kHeapTupleHeaderSize ≤ block.length)
    (fits : page.Fits block) : HeapFormed (page.appended block) := by
  have nonempty : block ≠ [] := by
    rintro rfl
    simp [kHeapTupleHeaderSize] at long
  refine ⟨formed.formed.appended nonempty fits, ?_⟩
  intro offset normal
  rcases normal.of_appended with ⟨old, other⟩ | rfl
  · rw [appended_linp_other page block other]
    exact formed.headers offset old
  · rw [appended_linp_last]
    exact long

theorem freezeTupleIfNeeded_eq : freezeTupleIfNeeded log freezeLimit cache page offset =
      let header := headerOf (page.item offset)
      if header.getXminStatus = .frozen ∨ transactionIdIsNormal header.tXmin = false ∨
          transactionIdPrecedes header.tXmin freezeLimit = false then (false, page, cache) else
        let fetched := transactionIdDidCommit log cache header.tXmin
        (fetched.1, if fetched.1 then freezeAt page offset else page, fetched.2) := by
  unfold freezeTupleIfNeeded
  dsimp only
  by_cases frozen : (headerOf (page.item offset)).getXminStatus = .frozen
  · simp [frozen]
  cases transactionIdIsNormal (headerOf (page.item offset)).tXmin with
  | false => simp
  | true =>
    cases transactionIdPrecedes (headerOf (page.item offset)).tXmin freezeLimit with
    | false => simp
    | true =>
      cases fetched : transactionIdDidCommit log cache (headerOf (page.item offset)).tXmin with
      | mk committed cache' => cases committed <;> simp

theorem vacuumItem_of_normal {pass : VacuumPass}
    (normal : (pass.page.linp offset).liFlags = .normal)
    (judged : judge log snap freezeLimit pass.cache
      (headerOf (pass.page.item offset)) = (verdict, cache)) :
    (vacuumItem log snap freezeLimit pass offset).page = verdict.execute pass.page offset ∧
      (vacuumItem log snap freezeLimit pass offset).cache = cache ∧
      (vacuumItem log snap freezeLimit pass offset).hasDead =
        (pass.hasDead || verdict = .reclaim) := by
  unfold judge at judged
  unfold vacuumItem
  cases dead : heapTupleIsSurelyDead log pass.cache snap (headerOf (pass.page.item offset)) with
  | mk isDead cacheDead =>
    cases isDead with
    | true =>
      simp only [dead, if_true] at judged
      cases judged
      simp [normal, Verdict.execute]
    | false =>
      simp only [dead, Bool.false_eq_true, if_false] at judged
      simp only [normal, freezeTupleIfNeeded_eq]
      split at judged
      · next young =>
          cases judged
          simp [young, Verdict.execute]
      next old =>
        cases judged
        simp only [old]
        cases (transactionIdDidCommit log cacheDead (headerOf (pass.page.item offset)).tXmin).1 with
        | false => simp [Verdict.execute]
        | true => simp [Verdict.execute]

section

variable (formed : HeapFormed page)

include formed

theorem freezeAt_item_self (normal : page.IsNormal offset) :
    (freezeAt page offset).item offset = frozenBlock (page.item offset) := by
  have long := formed.headers offset normal
  unfold kHeapTupleHeaderSize at long
  unfold item freezeAt frozenBlock
  dsimp only
  rw [slice_store_inside (by rw [toBytes_length]; omega),
    slice_store_front (by rw [toBytes_length]; omega)]
  rfl

theorem freezeAt_item_other (normal : page.IsNormal offset) (otherNormal : page.IsNormal other)
    (ne : other ≠ offset) : (freezeAt page offset).item other = page.item other := by
  have long := formed.headers offset normal
  unfold kHeapTupleHeaderSize at long
  have separate := formed.formed.apart other offset otherNormal normal ne
  have alignedOther := le_maxAlignUp (page.linp other).liLen
  have alignedHere := le_maxAlignUp (page.linp offset).liLen
  unfold item freezeAt
  dsimp only
  rw [ByteMem.slice_store_of_disjoint, ByteMem.slice_store_of_disjoint]
  all_goals
    rw [toBytes_length]
    omega

theorem HeapFormed.freezeAt (offset : Nat) : HeapFormed (freezeAt page offset) := by
  exact ⟨{ formed.formed with }, formed.headers⟩

end

theorem markDead_isNormal :
    (markDead page offset).IsNormal other ↔ other ≠ offset ∧ page.IsNormal other := by
  unfold PageData.IsNormal markDead
  by_cases same : other = offset
  · simp [same]
  · simp [same, maxOffsetNumber]

theorem markDead_linp (ne : other ≠ offset) :
    (markDead page offset).linp other = page.linp other := by
  simp [markDead, ne]

theorem HeapFormed.markDead (formed : HeapFormed page) (offset : Nat) :
    HeapFormed (markDead page offset) := by
  have kept : ∀ other, (Commands.markDead page offset).IsNormal other → page.IsNormal other ∧
        (Commands.markDead page offset).linp other = page.linp other := by
    intro other normal
    obtain ⟨ne, old⟩ := markDead_isNormal.1 normal
    exact ⟨old, markDead_linp ne⟩
  constructor
  · refine { formed.formed with above := ?_, below := ?_, nonempty := ?_, apart := ?_ }
    · intro other normal
      rw [(kept other normal).2]
      exact formed.formed.above other (kept other normal).1
    · intro other normal
      rw [(kept other normal).2]
      exact formed.formed.below other (kept other normal).1
    · intro other normal
      rw [(kept other normal).2]
      exact formed.formed.nonempty other (kept other normal).1
    · intro left right leftNormal rightNormal ne
      rw [(kept left leftNormal).2, (kept right rightNormal).2]
      exact formed.formed.apart left right (kept left leftNormal).1 (kept right rightNormal).1 ne
  · intro other normal
    rw [(kept other normal).2]
    exact formed.headers other (kept other normal).1

/-- What the writes for some verdicts do to a page. -/
structure Vacuumed (page : PageData) (marks : List (Nat × Verdict)) (after : PageData) : Prop where
  formed : HeapFormed after
  lines : after.maxOffsetNumber = page.maxOffsetNumber
  normal : ∀ other, after.IsNormal other ↔ page.IsNormal other ∧ (other, .reclaim) ∉ marks
  frozen : ∀ other, after.IsNormal other → (other, .freeze) ∈ marks →
    after.item other = frozenBlock (page.item other)
  items : ∀ other, after.IsNormal other → (other, .freeze) ∉ marks →
    after.item other = page.item other

section

variable (formed : HeapFormed page)

include formed

theorem vacuumed_nil : Vacuumed page [] page := by
  exact ⟨formed, rfl, by simp, by simp, by simp⟩

theorem vacuumed_markDead : Vacuumed page [(offset, .reclaim)] (markDead page offset) := by
  refine ⟨formed.markDead offset, rfl, ?_, ?_, ?_⟩
  · intro other
    simp [markDead_isNormal, and_comm]
  · simp
  intro other remains _
  have ne := (markDead_isNormal.1 remains).1
  rw [item, markDead_linp ne]
  rfl

theorem vacuumed_freezeAt (normal : page.IsNormal offset) :
    Vacuumed page [(offset, .freeze)] (freezeAt page offset) := by
  refine ⟨formed.freezeAt offset, rfl, ?_, ?_, ?_⟩
  · intro other
    simp only [mem_singleton, Prod.mk.injEq, reduceCtorEq, and_false, not_false_eq_true, and_true]
    exact Iff.rfl
  · intro other _ marked
    obtain rfl : other = offset := by simpa using marked
    exact freezeAt_item_self formed normal
  · intro other remains unmarked
    have ne : other ≠ offset := by simpa using unmarked
    exact freezeAt_item_other formed normal remains ne

theorem vacuumed_keep : Vacuumed page [(offset, .keep)] page := by
  exact ⟨formed, rfl, by simp, by simp, by simp⟩

end

theorem Verdict.execute_vacuumed (verdict : Verdict)
    (formed : HeapFormed page) (normal : page.IsNormal offset) :
    Vacuumed page [(offset, verdict)] (verdict.execute page offset) := by
  cases verdict with
  | reclaim => exact vacuumed_markDead formed
  | freeze => exact vacuumed_freezeAt formed normal
  | keep => exact vacuumed_keep formed

theorem Vacuumed.other
    (first : Vacuumed page [(offset, verdict)] middle) {other : Nat} (ne : other ≠ offset) :
    (middle.IsNormal other ↔ page.IsNormal other) ∧
      (page.IsNormal other → middle.item other = page.item other) := by
  have sameNormal : middle.IsNormal other ↔ page.IsNormal other := by
    simpa [ne] using first.normal other
  refine ⟨sameNormal, ?_⟩
  intro normal
  exact first.items other (sameNormal.2 normal) (by simp [ne])

theorem Vacuumed.normalFilter (first : Vacuumed page [(offset, verdict)] middle) {rest : List Nat}
    (untouched : ∀ other ∈ rest, other ≠ offset)
    (present : ∀ other ∈ rest, 1 ≤ other ∧ other ≤ page.maxOffsetNumber) :
    (rest.filter fun other => (middle.linp other).liFlags = .normal) =
      rest.filter fun other => (page.linp other).liFlags = .normal := by
  apply filter_congr
  intro other mem
  have same := (first.other (untouched other mem)).1
  unfold PageData.IsNormal at same
  rw [first.lines] at same
  simpa [present other mem] using same

theorem Vacuumed.cons {verdict : Verdict} {middle after : PageData} {marks : List (Nat × Verdict)}
    (first : Vacuumed page [(offset, verdict)] middle) (rest : Vacuumed middle marks after)
    (fresh : ∀ mark ∈ marks, mark.1 ≠ offset) :
    Vacuumed page ((offset, verdict) :: marks) after := by
  have unmarked : ∀ other, (offset, other) ∉ marks := fun other mem => fresh _ mem rfl
  refine ⟨rest.formed, rest.lines.trans first.lines, ?_, ?_, ?_⟩
  · intro other
    rw [rest.normal other, first.normal other]
    simp [and_assoc]
  · intro other remains marked
    have normal := ((rest.normal other).1 remains).1
    by_cases same : other = offset
    · subst same
      rw [rest.items other remains (unmarked _),
        first.frozen other normal (by simpa [unmarked] using marked)]
    · have old := (first.other same).1.1 normal
      rw [rest.frozen other remains (by simpa [same] using marked), (first.other same).2 old]
  intro other remains notMarked
  have normal := ((rest.normal other).1 remains).1
  by_cases same : other = offset
  · subst same
    rw [rest.items other remains (unmarked _), first.items other normal (by
        intro mem
        exact notMarked (by simp [mem_singleton.1 mem]))]
  have old := (first.other same).1.1 normal
  rw [rest.items other remains (by
      intro mem
      exact notMarked (by simp [mem])), (first.other same).2 old]

theorem judgeItems_congr (same : ∀ offset ∈ offsets, left.item offset = right.item offset) :
    judgeItems log snap freezeLimit left cache offsets =
      judgeItems log snap freezeLimit right cache offsets := by
  induction offsets generalizing cache with
  | nil => rfl
  | cons offset _ ih =>
    simp only [judgeItems, same offset (by simp)]
    rw [ih fun other mem => same other (by simp [mem])]

theorem judgeItems_map_fst (cache : LogCache) (offsets : List Nat) :
    (judgeItems log snap freezeLimit page cache offsets).1.map Prod.fst = offsets := by
  induction offsets generalizing cache with
  | nil => rfl
  | cons _ _ ih => simp [judgeItems, ih]

theorem vacuumItems_vacuumed (snap : SnapshotData) (freezeLimit : TransactionId) (pass : VacuumPass)
    (formed : HeapFormed pass.page)
    (present : ∀ offset ∈ offsets, 1 ≤ offset ∧ offset ≤ pass.page.maxOffsetNumber)
    (distinct : offsets.Nodup)
    (judged : judgeItems log snap freezeLimit pass.page pass.cache (offsets.filter fun offset =>
    (pass.page.linp offset).liFlags = .normal) = (marks, cache)) :
    Vacuumed pass.page marks (vacuumItems log snap freezeLimit pass offsets).page ∧
      (vacuumItems log snap freezeLimit pass offsets).cache = cache ∧
      (vacuumItems log snap freezeLimit pass offsets).hasDead =
        (pass.hasDead || marks.any fun mark => mark.2 = .reclaim) := by
  induction offsets generalizing pass marks with
  | nil =>
    cases judged
    exact ⟨vacuumed_nil formed, rfl, by simp [vacuumItems]⟩
  | cons offset rest ih =>
    obtain ⟨fresh, distinctRest⟩ := nodup_cons.1 distinct
    have presentRest : ∀ other ∈ rest, 1 ≤ other ∧ other ≤ pass.page.maxOffsetNumber :=
      fun other mem => present other (by simp [mem])
    by_cases normal : (pass.page.linp offset).liFlags = .normal
    · have inUse : pass.page.IsNormal offset :=
        ⟨(present offset (by simp)).1, (present offset (by simp)).2, normal⟩
      rw [filter_cons_of_pos (by simpa using normal)] at judged
      simp only [judgeItems] at judged
      cases first : judge log snap freezeLimit pass.cache (headerOf (pass.page.item offset)) with
      | mk verdict cacheFirst =>
        rw [first] at judged
        cases judged
        obtain ⟨pageNext, cacheNext, deadNext⟩ := vacuumItem_of_normal normal first
        have executed := verdict.execute_vacuumed formed inUse
        rw [← pageNext] at executed
        have untouched : ∀ other ∈ rest, other ≠ offset := by
          rintro other mem rfl
          exact fresh mem
        have sameNormal := executed.normalFilter untouched presentRest
        rw [vacuumItems, foldl_cons, ← vacuumItems]
        generalize vacuumItem log snap freezeLimit pass offset = next at *
        have presentNext : ∀ other ∈ rest, 1 ≤ other ∧ other ≤ next.page.maxOffsetNumber := by
          rw [executed.lines]
          exact presentRest
        have judgedNext : judgeItems log snap freezeLimit next.page next.cache
            (rest.filter fun other => (next.page.linp other).liFlags = .normal) =
            judgeItems log snap freezeLimit pass.page cacheFirst
              (rest.filter fun other => (pass.page.linp other).liFlags = .normal) := by
          rw [sameNormal, cacheNext]
          apply judgeItems_congr
          intro other mem
          obtain ⟨listed, flag⟩ := mem_filter.1 mem
          exact (executed.other (untouched other listed)).2
            ⟨(presentRest other listed).1, (presentRest other listed).2, by simpa using flag⟩
        obtain ⟨later, cacheLater, deadLater⟩ := ih _
          executed.formed presentNext distinctRest judgedNext
        refine ⟨executed.cons later ?_, cacheLater, ?_⟩
        · intro mark mem
          apply untouched
          have listed := mem_map_of_mem (f := Prod.fst) mem
          rw [judgeItems_map_fst] at listed
          exact mem_of_mem_filter listed
        · rw [deadLater, deadNext, any_cons, Bool.or_assoc]
    · rw [filter_cons_of_neg (by simpa using normal)] at judged
      rw [vacuumItems, foldl_cons, ← vacuumItems, vacuumItem, if_pos normal]
      exact ih pass formed presentRest distinctRest judged

/-! ## One page -/

/-- The tuples of a page in line-pointer order. -/
def contents (page : PageData) : List (List UInt8) := page.normalOffsets.map page.item

/-- The tuples VACUUM leaves in use. -/
def survivors (marks : List (Nat × Verdict)) : List (Nat × Verdict) :=
  marks.filter fun mark => mark.2 ≠ .reclaim

/-- Where VACUUM leaves the survivors: packed from offset 1 on as soon as one
tuple of the page is reclaimed. -/
def places (marks : List (Nat × Verdict)) : List Nat :=
  if marks.any fun mark => mark.2 = .reclaim then List.range' 1 (survivors marks).length
  else marks.map Prod.fst

/-- The effect of VACUUM on a page whose tuples got the verdicts `marks`. -/
structure PageVacuumed (page : PageData) (marks : List (Nat × Verdict))
    (after : PageData) : Prop where
  judged : marks.map Prod.fst = page.normalOffsets
  offsets : after.normalOffsets = places marks
  items : (places marks).map (fun place => some (after.item place)) =
    (survivors marks).map fun mark => mark.2.outcome (page.item mark.1)

section

variable {page : PageData} {marks : List (Nat × Verdict)}

theorem survivors_of_none (none : (marks.any fun mark => mark.2 = .reclaim) = false) :
    survivors marks = marks := by
  apply filter_eq_self.2
  intro mark mem
  simpa using any_eq_false.1 none mark mem

theorem verdict_unique (judged : marks.map Prod.fst = page.normalOffsets)
    (leftMark : (offset, left) ∈ marks) (rightMark : (offset, right) ∈ marks) : left = right := by
  have distinct : (marks.map Prod.fst).Nodup := by
    rw [judged]
    exact page.normalOffsets_nodup
  have same := inj_on_of_nodup_map distinct leftMark rightMark rfl
  exact congrArg Prod.snd same

section

variable (vacuumed : Vacuumed page marks after)

include vacuumed

section

variable (judged : marks.map Prod.fst = page.normalOffsets)

include judged

theorem Vacuumed.normalOffsets_eq : after.normalOffsets = (survivors marks).map Prod.fst := by
  have filtered : after.normalOffsets = page.normalOffsets.filter
      fun offset => decide ((offset, Verdict.reclaim) ∉ marks) := by
    unfold normalOffsets
    rw [filter_filter, vacuumed.lines]
    apply filter_congr
    intro offset listed
    have bounds := mem_range'_1.1 listed
    have present : 1 ≤ offset ∧ offset ≤ page.maxOffsetNumber := by omega
    have same := vacuumed.normal offset
    unfold PageData.IsNormal at same
    rw [vacuumed.lines] at same
    simp only [present, true_and] at same
    simp [same, and_comm]
  rw [filtered, ← judged, filter_map]
  congr 1
  apply filter_congr
  intro _ mem
  simp only [Function.comp_apply, decide_eq_decide]
  constructor
  · intro unmarked isReclaim
    exact unmarked (by rw [← isReclaim]; exact mem)
  · intro alive marked
    exact alive (verdict_unique judged mem marked)

theorem Vacuumed.outcome (survives : mark ∈ survivors marks) :
    mark.2.outcome (page.item mark.1) = some (after.item mark.1) := by
  obtain ⟨mem, alive⟩ := mem_filter.1 survives
  have remains : after.IsNormal mark.1 := by
    rw [← mem_normalOffsets, vacuumed.normalOffsets_eq judged]
    exact mem_map_of_mem survives
  obtain ⟨offset, verdict⟩ := mark
  cases verdict with
  | reclaim => simp at alive
  | freeze => rw [Verdict.outcome, vacuumed.frozen offset remains mem]
  | keep =>
    rw [Verdict.outcome, vacuumed.items offset remains]
    intro marked
    exact absurd (verdict_unique judged mem marked) (by simp)

/-- Without a dead tuple the page is not repaired; with one the survivors are
renumbered. -/
theorem Vacuumed.pageVacuumed :
    PageVacuumed page marks (if marks.any fun mark => mark.2 = .reclaim then
        after.repairFragmentation insertionOrder else after) := by
  have offsets := vacuumed.normalOffsets_eq judged
  have inPlace : after.normalOffsets.map (fun place => some (after.item place))
      = (survivors marks).map fun mark => mark.2.outcome (page.item mark.1) := by
    rw [offsets, map_map]
    apply map_congr_left
    intro mark survives
    exact (vacuumed.outcome judged survives).symm
  cases reclaim : marks.any fun mark => mark.2 = .reclaim with
  | false =>
    have same : survivors marks = marks := survivors_of_none reclaim
    rw [same] at offsets
    refine ⟨judged, ?_, ?_⟩
    · simpa [places, reclaim] using offsets
    · rw [places, reclaim, ← inPlace, offsets]
      rfl
  | true =>
    have repaired := repairFragmentation_repaired vacuumed.formed.formed
    have count : after.normalOffsets.length = (survivors marks).length := by
      rw [offsets, length_map]
    refine ⟨judged, ?_, ?_⟩
    · rw [places, reclaim, ← count]
      exact repaired.normalOffsets_eq
    have moved := congrArg (List.map some) repaired.map_item
    rw [map_map, map_map, count] at moved
    rw [places, reclaim, ← inPlace]
    exact moved

end

end

theorem vacuumPage_vacuumed (snap : SnapshotData) (freezeLimit : TransactionId)
    (formed : HeapFormed page) (cache : LogCache) (stats : VacuumStats) :
    let judged := judgeItems log snap freezeLimit page cache page.normalOffsets
    PageVacuumed page judged.1 (vacuumPage log snap freezeLimit page cache stats).1 ∧
      (vacuumPage log snap freezeLimit page cache stats).2.1 = judged.2 := by
  intro judged
  have present : ∀ offset ∈ List.range' 1 page.maxOffsetNumber,
      1 ≤ offset ∧ offset ≤ page.maxOffsetNumber := by
    intro offset listed
    have := mem_range'_1.1 listed
    omega
  obtain ⟨vacuumed, cacheLater, hasDead⟩ := vacuumItems_vacuumed snap freezeLimit
    { page := page, cache := cache, hasDead := false, pageModified := false
      stats := { stats with pagesScanned := stats.pagesScanned + 1 } }
    formed present nodup_range' rfl
  refine ⟨?_, cacheLater⟩
  have whole := vacuumed.pageVacuumed (judgeItems_map_fst ..)
  rw [Bool.false_or] at hasDead
  rw [← hasDead] at whole
  exact whole

theorem PageVacuumed.contents_after (vacuumed : PageVacuumed page marks after) :
    contents after = marks.filterMap fun mark => mark.2.outcome (page.item mark.1) := by
  have alive : ∀ marks : List (Nat × Verdict),
      (marks.filterMap fun mark => mark.2.outcome (page.item mark.1)).map some
        = (survivors marks).map fun mark => mark.2.outcome (page.item mark.1) := by
    intro marks
    induction marks with
    | nil => rfl
    | cons mark _ ih =>
      obtain ⟨_, verdict⟩ := mark
      unfold survivors at ih ⊢
      cases verdict with
      | reclaim => simpa [Verdict.outcome] using ih
      | freeze => simpa [Verdict.outcome] using ih
      | keep => simpa [Verdict.outcome] using ih
  apply map_injective_iff.2 (Option.some_injective _)
  rw [alive, ← vacuumed.items, contents, vacuumed.offsets, map_map]
  rfl

end

/-! ## One relation -/

/-- The pages of a relation with the verdicts on their tuples, each page under
the cache the pages before it have left. -/
def judgePages (log : CommitLog) (snap : SnapshotData) (freezeLimit : TransactionId) :
    LogCache → List PageData → List (PageData × List (Nat × Verdict))
  | _, [] => []
  | cache, page :: rest =>
    let (marks, cache) := judgeItems log snap freezeLimit page cache page.normalOffsets
    (page, marks) :: judgePages log snap freezeLimit cache rest

theorem judgePages_map_fst :
    (judgePages log snap freezeLimit cache pages).map Prod.fst = pages := by
  induction pages generalizing cache with
  | nil => rfl
  | cons _ _ ih => simp [judgePages, ih]

section

variable (log : CommitLog) (snap : SnapshotData) (freezeLimit : TransactionId)

theorem vacuumPages_vacuumed (formed : PagesFormed pages)
    (cache : LogCache) (stats : VacuumStats) :
    List.Forall₂ (fun judged after => PageVacuumed judged.1 judged.2 after)
      (judgePages log snap freezeLimit cache pages)
      (vacuumPages log snap freezeLimit pages cache stats).1 := by
  induction pages generalizing cache stats with
  | nil => exact .nil
  | cons page _ ih =>
    obtain ⟨vacuumed, cacheNext⟩ := vacuumPage_vacuumed snap freezeLimit
      (formed page (by simp)) cache stats
    constructor
    · exact vacuumed
    rw [← cacheNext]
    apply ih
    intro other mem
    exact formed other (by simp [mem])

end

section

variable (log : CommitLog) (pgxact : Nat → TransactionId) (pgprocnos : List Nat)
  (nextXid : TransactionId) (freeze : Bool) (cache : LogCache) (relation : HeapRelation)

/-- The verdicts of `ExecVacuum` on the tuples of a relation. -/
def execVacuumVerdicts : List (PageData × List (Nat × Verdict)) :=
  let snap := vacuumSnapshot pgxact pgprocnos nextXid
  judgePages log snap (vacuumGetFreezeLimit snap.xmin freeze) cache relation.pages

theorem execVacuumVerdicts_pages :
    (execVacuumVerdicts log pgxact pgprocnos nextXid freeze cache relation).map Prod.fst =
      relation.pages :=
  judgePages_map_fst

theorem execVacuum_vacuumed (formed : PagesFormed relation.pages) :
    List.Forall₂ (fun judged after => PageVacuumed judged.1 judged.2 after)
      (execVacuumVerdicts log pgxact pgprocnos nextXid freeze cache relation)
      (execVacuum log pgxact pgprocnos nextXid freeze cache relation).1.pages := by
  have vacuumed := vacuumPages_vacuumed log (vacuumSnapshot pgxact pgprocnos nextXid)
    (vacuumGetFreezeLimit (vacuumSnapshot pgxact pgprocnos nextXid).xmin freeze)
    formed cache .zero
  unfold execVacuum
  dsimp only
  split
  · exact vacuumed
  · exact vacuumed

end

end Pgcpp.Commands
