import Pgcpp.Lib.Transition
import Pgcpp.Transaction.Ssi

/-!
# Dangerous structures among committed transactions

A history records the order of the commits beside the state.  Two rw-conflict
edges `T1 → T2 → T3` are dangerous if `T3` is the first of the three to
commit.  The check at the commit of `T2` finds them if `T1` has finished.  If
`T1` commits last, nothing finds them: case C is skipped while the committing
transaction is unfinished.
-/

namespace Pgcpp.Transaction

open Lib List Reaches
open Storage (RelFileNode)

/-- The edges and the outcome of a transaction. -/
structure Standing where
  outWriters : List TransactionId
  inReaders : List TransactionId
  finished : Bool
  committed : Bool

def Standing.unregistered : Standing :=
  { outWriters := [], inReaders := [], finished := false, committed := false }

def SerializableXact.standing (sx : SerializableXact) : Standing :=
  { outWriters := sx.outConflicts.map RWConflict.writer
    inReaders := sx.inConflicts.map RWConflict.reader, finished := sx.finished
    committed := sx.finished && sx.committed }

def standing (xacts : List SerializableXact) (xid : TransactionId) : Standing :=
  match findXact xacts xid with
  | none => .unregistered
  | some sx => sx.standing

/-- An edge shows at both ends. -/
def recordEdge (state : TransactionId → Standing)
    (reader writer : TransactionId) : TransactionId → Standing := fun xid =>
  { state xid with
    outWriters :=
      if xid = reader then (state xid).outWriters ++ [writer] else (state xid).outWriters
    inReaders :=
      if xid = writer then (state xid).inReaders ++ [reader] else (state xid).inReaders }

def recordOutcome (state : TransactionId → Standing) (xid : TransactionId)
    (committed : Bool) : TransactionId → Standing := fun other =>
  { state other with
    finished := if other = xid then true else (state other).finished
    committed := if other = xid then committed else (state other).committed }

section

variable (xacts : List SerializableXact) (xid : TransactionId)

def outWriters : List TransactionId :=
  (standing xacts xid).outWriters

def inReaders : List TransactionId :=
  (standing xacts xid).inReaders

def isFinished : Bool :=
  (standing xacts xid).finished

def isCommitted : Bool :=
  (standing xacts xid).committed

end

def CommitsBefore (order : List TransactionId) (first second : TransactionId) : Prop :=
  [first, second].Sublist order

/-- Edges `t1 → t2 → t3` between committed transactions of which `t3` was the
first to commit; `t1` and `t3` may be the same. -/
structure DangerousCommits (xacts : List SerializableXact)
    (order : List TransactionId) (t1 t2 t3 : TransactionId) : Prop where
  left : t2 ∈ outWriters xacts t1
  right : t3 ∈ outWriters xacts t2
  beforeMiddle : CommitsBefore order t3 t2
  beforeLeft : t3 = t1 ∨ CommitsBefore order t3 t1

/-- The state and the transactions that committed, in the order of their
commits. -/
structure SsiHistory where
  ssi : SsiState
  commitOrder : List TransactionId

def SsiHistory.fresh : SsiHistory := { ssi := { xacts := [], locks := [] }, commitOrder := [] }

inductive SsiOp where
  | register (xid : TransactionId) (readOnly : Bool)
  | lockTuple (rnode : RelFileNode) (blockNum offsetNum : Nat) (xid : TransactionId)
  | lockPage (rnode : RelFileNode) (blockNum : Nat) (xid : TransactionId)
  | lockRelation (rnode : RelFileNode) (xid : TransactionId)
  | checkConflict (writer : TransactionId) (rnode : RelFileNode) (blockNum offsetNum : Nat)
  | release (xid : TransactionId) (committed : Bool)

/-- The order after a call to release a transaction: a registered transaction
commits when it is released as committed without an error. -/
def commitOrderAfter (history : SsiHistory) (xid : TransactionId)
    (committed succeeded : Bool) : List TransactionId :=
  if committed && succeeded && (findXact history.ssi.xacts xid).isSome &&
      !history.commitOrder.contains xid then
    history.commitOrder ++ [xid]
  else history.commitOrder

/-- The history after a call, also if the call raises an error. -/
def ssiStep (history : SsiHistory) : SsiOp → SsiHistory
  | .register xid readOnly =>
    { history with ssi := { history.ssi with
        xacts := registerSerializableTransaction history.ssi.xacts xid readOnly } }
  | .lockTuple rnode blockNum offsetNum xid =>
    { history with ssi := { history.ssi with
        locks := predicateLockTuple history.ssi.locks rnode blockNum offsetNum xid } }
  | .lockPage rnode blockNum xid =>
    { history with ssi := { history.ssi with
        locks := predicateLockPage history.ssi.locks rnode blockNum xid } }
  | .lockRelation rnode xid =>
    { history with ssi := { history.ssi with
        locks := predicateLockRelation history.ssi.locks rnode xid } }
  | .checkConflict writer rnode blockNum offsetNum =>
    { history with
      ssi := (checkForSerializableConflict history.ssi writer rnode blockNum offsetNum).1 }
  | .release xid committed =>
    let (ssi, succeeded) := releaseSerializableTransaction history.ssi xid committed
    { ssi := ssi, commitOrder := commitOrderAfter history xid committed succeeded }

/-- The condition on releases: a transaction that has finished is not released
with the other outcome, and one that commits has no edge to a committed
transaction with an edge to a committed one. -/
def ReleaseSafe (xacts : List SerializableXact) (xid : TransactionId) (committed : Bool) : Prop :=
  (isFinished xacts xid → isCommitted xacts xid = committed) ∧
  (isFinished xacts xid = false → committed →
    ∀ t2 ∈ outWriters xacts xid, isCommitted xacts t2 →
      ∀ t3 ∈ outWriters xacts t2, isCommitted xacts t3 = false)

instance (xacts : List SerializableXact) (xid : TransactionId)
    (committed : Bool) : Decidable (ReleaseSafe xacts xid committed) :=
  -- over the edges, not over all transaction ids
  haveI _right (t2 : TransactionId) : Decidable
      (∀ t3 ∈ outWriters xacts t2, isCommitted xacts t3 = false) :=
    List.decidableBAll ..
  haveI _left : Decidable
      (∀ t2 ∈ outWriters xacts xid, isCommitted xacts t2 →
        ∀ t3 ∈ outWriters xacts t2, isCommitted xacts t3 = false) :=
    List.decidableBAll ..
  inferInstanceAs (Decidable (_ ∧ _))

def SsiSafe (history : SsiHistory) : SsiOp → Prop
  | .release xid committed => ReleaseSafe history.ssi.xacts xid committed
  | _ => True

instance (history : SsiHistory) (op : SsiOp) : Decidable (SsiSafe history op) := by
  cases op <;> dsimp only [SsiSafe] <;> infer_instance

/-! ## What the calls do to the edges -/

theorem standing_of_findXact (found : findXact xacts xid = some sx) :
    standing xacts xid = sx.standing := by
  simp [standing, found]

section

variable (change : SerializableXact → SerializableXact) (sameXid : ∀ sx, (change sx).xid = sx.xid)

include sameXid

theorem standing_updateXact (found : findXact xacts xid = some sx) :
    standing (updateXact xid change xacts) =
      Function.update (standing xacts) xid (change sx).standing := by
  funext other
  unfold standing
  rw [findXact_updateXact change sameXid]
  by_cases same : other = xid
  · subst same
    simp [found]
  · simp [same]

theorem standing_updateXact_same (same : ∀ sx, (change sx).standing = sx.standing)
    (xacts : List SerializableXact) (xid : TransactionId) :
    standing (updateXact xid change xacts) = standing xacts := by
  funext other
  unfold standing
  rw [findXact_updateXact change sameXid]
  by_cases isXid : other = xid
  · subst isXid
    cases findXact xacts other with
    | none => simp
    | some sx => simp [same]
  · simp [isXid]

end

section

variable (xacts : List SerializableXact)

include xacts

theorem standing_register :
    standing (registerSerializableTransaction xacts xid readOnly) = standing xacts := by
  unfold registerSerializableTransaction
  cases found : findXact xacts xid with
  | some sx => rfl
  | none =>
    funext other
    simp only [standing, findXact_append]
    cases existing : findXact xacts other with
    | some sx => rfl
    | none =>
      by_cases same : xid = other
      · simp [same, SerializableXact.registered]
        rfl
      · simp [same, SerializableXact.registered]

theorem standing_markDangerous (t1 t2 t3 : TransactionId) :
    standing (markDangerous xacts t1 t2 t3) = standing xacts := by
  have flag := standing_updateXact_same SerializableXact.flagged (fun _ => rfl) (fun _ => rfl)
  unfold markDangerous
  rw [flag, flag, flag]

theorem standing_checkForDangerousStructure :
    standing (checkForDangerousStructure xacts xid) = standing xacts := by
  unfold checkForDangerousStructure
  split
  · rfl
  split
  · rfl
  · apply standing_markDangerous

theorem standing_addRWConflict : standing (addRWConflict xacts reader writer) = standing xacts ∨
    reader ≠ writer ∧ standing (addRWConflict xacts reader writer) =
        recordEdge (standing xacts) reader writer := by
  unfold addRWConflict
  split
  · exact .inl rfl
  next apart =>
    split
    next r w foundReader foundWriter =>
      split
      · exact .inl rfl
      right
      refine ⟨apart, ?_⟩
      have foundStill : findXact (updateXact reader
          (.addOut { reader := reader, writer := writer }) xacts) writer = some w := by
        rw [findXact_updateXact (.addOut _) (fun _ => rfl),
          if_neg (fun same => apart same.symm), foundWriter]
      rw [standing_updateXact (.addIn _) (fun _ => rfl) foundStill,
        standing_updateXact (.addOut _) (fun _ => rfl) foundReader]
      funext other
      by_cases isWriter : other = writer
      · subst isWriter
        simp [recordEdge, SerializableXact.standing, SerializableXact.addIn,
          standing_of_findXact foundWriter, Ne.symm apart]
      by_cases isReader : other = reader
      · subst isReader
        simp [recordEdge, SerializableXact.standing, isWriter,
          SerializableXact.addOut, standing_of_findXact foundReader]
      · simp [recordEdge, isWriter, isReader]
    · exact .inl rfl

end

theorem standing_finish (found : findXact xacts xid = some sx) :
    standing (updateXact xid (.finish committed) xacts) =
      recordOutcome (standing xacts) xid committed := by
  rw [standing_updateXact (.finish committed) (fun _ => rfl) found]
  funext other
  by_cases same : other = xid
  · subst same
    simp [recordOutcome, SerializableXact.standing, SerializableXact.finish,
      standing_of_findXact found]
  · simp [recordOutcome, same]

theorem isSome_updateXact (change : SerializableXact → SerializableXact)
    (sameXid : ∀ sx, (change sx).xid = sx.xid)
    (xacts : List SerializableXact) (xid other : TransactionId) :
    (findXact (updateXact xid change xacts) other).isSome = (findXact xacts other).isSome := by
  rw [findXact_updateXact change sameXid]
  split
  next same =>
    subst same
    exact Option.isSome_map
  · rfl

theorem isSome_checkForDangerousStructure (xacts : List SerializableXact)
    (xid other : TransactionId) : (findXact (checkForDangerousStructure xacts xid) other).isSome =
      (findXact xacts other).isSome := by
  have flag := isSome_updateXact SerializableXact.flagged (fun _ => rfl)
  unfold checkForDangerousStructure
  split
  · rfl
  split
  · rfl
  · unfold markDangerous
    rw [flag, flag, flag]

/-! ## The check at a commit -/

theorem serializationFailure_markDangerous (registered : findXact xacts xid = some sx) :
    serializationFailure (markDangerous xacts t1 xid t3) xid := by
  have look := findXact_updateXact SerializableXact.flagged (fun _ => rfl)
  -- the flag is set for the middle, and no later update takes it away
  obtain ⟨first, foundFirst⟩ :
      ∃ first, findXact (updateXact t1 .flagged xacts) xid = some first := by
    rw [look]
    split
    next same => exact ⟨sx.flagged, by rw [← same, registered]; rfl⟩
    · exact ⟨sx, registered⟩
  have foundMiddle : findXact (updateXact xid .flagged
      (updateXact t1 .flagged xacts)) xid = some first.flagged := by
    rw [look, if_pos rfl, foundFirst]
    rfl
  unfold serializationFailure markDangerous
  rw [look]
  by_cases same : xid = t3
  · rw [if_pos same, ← same, foundMiddle]
    rfl
  · rw [if_neg same, foundMiddle]
    rfl

/-- Case A finds every transaction in the middle whose left neighbour has
finished. -/
theorem findMiddle_isSome (inEdge : t1 ∈ sx.standing.inReaders)
    (outEdge : t3 ∈ sx.standing.outWriters) (foundLeft : findXact xacts t1 = some left)
    (foundRight : findXact xacts t3 = some right) (finished : left.finished) :
    ∃ found, findMiddle xacts sx = some found := by
  obtain ⟨inConflict, inMember, rfl⟩ := mem_map.1 inEdge
  obtain ⟨outConflict, outMember, rfl⟩ := mem_map.1 outEdge
  apply Option.isSome_iff_exists.1
  unfold findMiddle
  rw [findSome?_isSome_iff]
  refine ⟨inConflict, inMember, ?_⟩
  simp only [foundLeft]
  rw [findSome?_isSome_iff]
  refine ⟨outConflict, outMember, ?_⟩
  simp [foundRight, finished]

theorem findMiddle_t2 (search : findMiddle xacts sx = some found) : found.t2 = sx.xid := by
  obtain ⟨_, _, inner⟩ := exists_of_findSome?_eq_some search
  split at inner
  · simp at inner
  obtain ⟨_, _, result⟩ := exists_of_findSome?_eq_some inner
  split at result
  · simp at result
  split at result
  · cases result
    rfl
  · simp at result

/-- A transaction in the middle cannot commit once its left neighbour has
finished. -/
theorem serializationFailure_of_middle (inEdge : t1 ∈ inReaders xacts xid)
    (outEdge : t3 ∈ outWriters xacts xid) (finished : isFinished xacts t1)
    (registered : ∃ right, findXact xacts t3 = some right) :
    serializationFailure (checkForDangerousStructure xacts xid) xid := by
  cases foundMiddle : findXact xacts xid with
  | none => simp [inReaders, standing, foundMiddle, Standing.unregistered] at inEdge
  | some _ =>
    cases foundLeft : findXact xacts t1 with
    | none => simp [isFinished, standing, foundLeft, Standing.unregistered] at finished
    | some _ =>
      obtain ⟨right, foundRight⟩ := registered
      rw [inReaders, standing_of_findXact foundMiddle] at inEdge
      rw [outWriters, standing_of_findXact foundMiddle] at outEdge
      rw [isFinished, standing_of_findXact foundLeft] at finished
      obtain ⟨found, search⟩ := findMiddle_isSome inEdge outEdge foundLeft foundRight finished
      have middle : found.t2 = xid := (findMiddle_t2 search).trans (xid_of_findXact foundMiddle)
      simp only [checkForDangerousStructure, foundMiddle, findDangerousStructure, search, middle]
      exact serializationFailure_markDangerous foundMiddle

/-! ## The invariant -/

theorem commitsBefore_append_iff : CommitsBefore (order ++ [last]) first second ↔
      CommitsBefore order first second ∨ first ∈ order ∧ second = last := by
  unfold CommitsBefore
  rw [sublist_append_iff]
  constructor
  · rintro ⟨left, right, parts, leftSub, rightSub⟩
    rcases sublist_singleton.1 rightSub with rfl | rfl
    · left
      rw [parts, append_nil]
      exact leftSub
    right
    have halves : [first] ++ [second] = left ++ [last] := parts
    obtain ⟨rfl, same⟩ := append_inj' halves rfl
    exact ⟨singleton_sublist.1 leftSub, singleton_inj.1 same⟩
  · rintro (earlier | ⟨mem, rfl⟩)
    · exact ⟨[first, second], [], by simp, earlier, nil_sublist _⟩
    · exact ⟨[first], [second], rfl, singleton_sublist.2 mem, List.Sublist.refl _⟩

theorem CommitsBefore.mem (before : CommitsBefore order first second) :
    first ∈ order ∧ second ∈ order :=
  ⟨before.subset (by simp), before.subset (by simp)⟩

/-- What holds in every state: edges show at both ends, the order lists the
committed transactions, and none of them form a dangerous structure. -/
structure SsiInvariant (state : TransactionId → Standing) (order : List TransactionId) : Prop where
  mirrored : ∀ reader, ∀ writer ∈ (state reader).outWriters, reader ∈ (state writer).inReaders
  irreflexive : ∀ xid, xid ∉ (state xid).outWriters
  committed : ∀ xid, xid ∈ order ↔ (state xid).committed
  finished : ∀ xid, (state xid).committed → (state xid).finished
  safe : ∀ t1 t2 t3, t2 ∈ (state t1).outWriters →
    t3 ∈ (state t2).outWriters → CommitsBefore order t3 t2 →
    ¬(t3 = t1 ∨ CommitsBefore order t3 t1)

namespace SsiInvariant

variable {state : TransactionId → Standing}

section

variable (invariant : SsiInvariant state order)

include invariant

theorem recordEdge (apart : reader ≠ writer) (unfinished : (state writer).finished = false) :
    SsiInvariant (Transaction.recordEdge state reader writer) order := by
  have outEdges : ∀ xid other, other ∈ (Transaction.recordEdge state reader writer xid).outWriters →
      other ∈ (state xid).outWriters ∨ xid = reader ∧ other = writer := by
    intro xid other edge
    simp only [Transaction.recordEdge] at edge
    split at edge
    next same => simpa [same] using edge
    next => exact .inl edge
  have absent : writer ∉ order := by
    intro mem
    have := invariant.finished writer ((invariant.committed writer).1 mem)
    rw [unfinished] at this
    exact nomatch this
  refine ⟨?_, ?_, invariant.committed, invariant.finished, ?_⟩
  · intro left right edge
    simp only [Transaction.recordEdge]
    rcases outEdges _ _ edge with old | ⟨rfl, rfl⟩
    · have mirrored := invariant.mirrored left right old
      split
      · exact mem_append_left _ mirrored
      · exact mirrored
    · simp
  · intro xid edge
    rcases outEdges _ _ edge with old | ⟨rfl, same⟩
    · exact invariant.irreflexive xid old
    · exact apart same
  intro t1 t2 t3 left right beforeMiddle beforeLeft
  -- both ends of a dangerous path have committed, the writer has not
  rcases outEdges _ _ left with oldLeft | ⟨_, rfl⟩
  · rcases outEdges _ _ right with oldRight | ⟨_, rfl⟩
    · exact invariant.safe t1 t2 t3 oldLeft oldRight beforeMiddle beforeLeft
    · exact absent beforeMiddle.mem.1
  · exact absent beforeMiddle.mem.2

theorem abort (notCommitted : (state xid).committed = false) :
    SsiInvariant (recordOutcome state xid false) order := by
  refine ⟨invariant.mirrored, invariant.irreflexive, ?_, ?_, invariant.safe⟩
  · intro other
    rw [invariant.committed]
    by_cases same : other = xid
    · simp [recordOutcome, same, notCommitted]
    · simp [recordOutcome, same]
  · intro other
    by_cases same : other = xid
    · simp [recordOutcome, same]
    · simpa [recordOutcome, same] using invariant.finished other

/-- A transaction commits.  As `T2` it has no left neighbour that has
finished, and as `T1` it completes no structure. -/
theorem commit (middle : ∀ t1 ∈ (state xid).inReaders, ∀ t3 ∈ (state xid).outWriters,
      (state t1).finished → (state t3).committed = false)
    (left : ∀ t2 ∈ (state xid).outWriters, (state t2).committed →
      ∀ t3 ∈ (state t2).outWriters, (state t3).committed = false) :
    SsiInvariant (recordOutcome state xid true) (order ++ [xid]) := by
  have done : ∀ other ∈ order, (state other).committed := by
    intro other mem
    exact (invariant.committed other).1 mem
  refine ⟨invariant.mirrored, invariant.irreflexive, ?_, ?_, ?_⟩
  · intro other
    rw [mem_append, invariant.committed]
    by_cases same : other = xid <;> simp [recordOutcome, same]
  · intro other
    by_cases same : other = xid
    · simp [recordOutcome, same]
    · simpa [recordOutcome, same] using invariant.finished other
  intro t1 t2 t3 inEdge outEdge beforeMiddle beforeLeft
  rcases commitsBefore_append_iff.1 beforeMiddle with
    earlier | ⟨rightDone, rfl⟩
  · rcases beforeLeft with same | beforeLeft
    · exact invariant.safe t1 t2 t3 inEdge outEdge earlier (.inl same)
    rcases commitsBefore_append_iff.1 beforeLeft with
      earlierLeft | ⟨_, rfl⟩
    · exact invariant.safe t1 t2 t3 inEdge outEdge earlier (.inr earlierLeft)
    have := left t2 inEdge (done t2 earlier.mem.2) t3 outEdge
    rw [done t3 earlier.mem.1] at this
    exact nomatch this
  -- the last commit is the one in the middle, so the left one came first
  have leftDone : t1 ∈ order := by
    rcases beforeLeft with rfl | beforeLeft
    · exact rightDone
    rcases commitsBefore_append_iff.1 beforeLeft with
      earlierLeft | ⟨_, rfl⟩
    · exact earlierLeft.mem.2
    · exact absurd inEdge (invariant.irreflexive t1)
  have := middle t1 (invariant.mirrored t1 t2 inEdge) t3 outEdge
    (invariant.finished t1 (done t1 leftDone))
  rw [done t3 rightDone] at this
  exact nomatch this

end

end SsiInvariant

section

theorem conflictLoop_invariant (invariant : SsiInvariant (standing xacts) order)
    (unfinished : isFinished xacts writer = false) :
    SsiInvariant (standing (conflictLoop writer rnode blockNum offsetNum locks xacts).1) order := by
  induction locks generalizing xacts with
  | nil => exact invariant
  | cons lock _ ih =>
    have skip := ih invariant unfinished
    have recorded : ∃ after, standing (checkForDangerousStructure
          (addRWConflict xacts lock.xid writer) writer) = after ∧
        SsiInvariant after order ∧ (after writer).finished = false := by
      refine ⟨_, rfl, ?_⟩
      rw [standing_checkForDangerousStructure]
      rcases standing_addRWConflict xacts with
        same | ⟨apart, edge⟩
      · rw [same]
        exact ⟨invariant, unfinished⟩
      · rw [edge]
        exact ⟨invariant.recordEdge apart unfinished, unfinished⟩
    obtain ⟨_, rfl, kept, still⟩ := recorded
    simp only [conflictLoop]
    split
    · exact skip
    split
    · exact skip
    split
    · exact skip
    split
    · split
      · exact kept
      · exact ih kept still
    · exact skip

theorem checkForSerializableConflict_invariant
    (invariant : SsiInvariant (standing state.xacts) order) :
    SsiInvariant (standing (checkForSerializableConflict state writer rnode
      blockNum offsetNum).1.xacts) order := by
  unfold checkForSerializableConflict
  cases found : findXact state.xacts writer with
  | none => exact invariant
  | some _ =>
    simp only
    split
    · exact invariant
    next active =>
      apply conflictLoop_invariant invariant
      rw [isFinished, standing_of_findXact found]
      simp only [Bool.or_eq_true, not_or, Bool.not_eq_true] at active
      exact active.1

variable {history : SsiHistory}

section

variable (invariant : SsiInvariant (standing history.ssi.xacts) history.commitOrder)

include invariant

section

variable (found : findXact history.ssi.xacts xid = some sx)

include found

theorem release_again_invariant (finished : sx.finished)
    (same : isCommitted history.ssi.xacts xid = committed) :
    SsiInvariant (standing (ssiStep history (.release xid committed)).ssi.xacts)
      (ssiStep history (.release xid committed)).commitOrder := by
  have unchanged : recordOutcome (standing history.ssi.xacts) xid committed =
      standing history.ssi.xacts := by
    funext other
    by_cases isXid : other = xid
    · subst isXid
      rw [isCommitted] at same
      have done : (standing history.ssi.xacts other).finished := by
        rw [standing_of_findXact found]
        exact finished
      simp only [recordOutcome, if_true, ← same, ← done]
    · simp [recordOutcome, isXid]
  have sameOrder : commitOrderAfter history xid committed true = history.commitOrder := by
    unfold commitOrderAfter
    cases committed with
    | false => simp
    | true =>
      have mem := (invariant.committed xid).2 same
      simp [mem]
  simp only [ssiStep, releaseSerializableTransaction, found, finished, Bool.not_true,
    Bool.and_false, Bool.false_and, Bool.false_eq_true, if_false]
  rw [standing_finish found, unchanged, sameOrder]
  exact invariant

theorem release_abort_invariant (unfinished : sx.finished = false) :
    SsiInvariant (standing (ssiStep history (.release xid false)).ssi.xacts)
      (ssiStep history (.release xid false)).commitOrder := by
  simp only [ssiStep, releaseSerializableTransaction, found, Bool.false_and, Bool.false_eq_true,
    if_false]
  rw [standing_finish found]
  apply invariant.abort
  rw [standing_of_findXact found]
  simp [SerializableXact.standing, unfinished]

theorem release_commit_invariant (unfinished : sx.finished = false)
    (left : ∀ t2 ∈ outWriters history.ssi.xacts xid, isCommitted history.ssi.xacts t2 →
      ∀ t3 ∈ outWriters history.ssi.xacts t2, isCommitted history.ssi.xacts t3 = false) :
    SsiInvariant (standing (ssiStep history (.release xid true)).ssi.xacts)
      (ssiStep history (.release xid true)).commitOrder := by
  simp only [ssiStep, releaseSerializableTransaction, found, unfinished, Bool.not_false,
    Bool.true_and, if_true]
  cases failure : serializationFailure (checkForDangerousStructure history.ssi.xacts xid) xid with
  | true =>
    simp only [if_true]
    rw [standing_checkForDangerousStructure]
    exact invariant
  | false =>
    have absent : xid ∉ history.commitOrder := by
      intro mem
      have := invariant.finished xid ((invariant.committed xid).1 mem)
      rw [standing_of_findXact found, SerializableXact.standing, unfinished] at this
      exact nomatch this
    have registered := isSome_checkForDangerousStructure history.ssi.xacts xid xid
    rw [found] at registered
    obtain ⟨_, foundChecked⟩ := Option.isSome_iff_exists.1 registered
    have extended : commitOrderAfter history xid true true = history.commitOrder ++ [xid] := by
      simp [commitOrderAfter, found, absent]
    simp only [Bool.false_eq_true, if_false]
    rw [standing_finish foundChecked, standing_checkForDangerousStructure, extended]
    apply invariant.commit
    · intro _ inEdge t3 outEdge leftDone
      by_contra rightDone
      have known : ∃ right, findXact history.ssi.xacts t3 = some right := by
        cases foundRight : findXact history.ssi.xacts t3 with
        | none => simp [standing, foundRight, Standing.unregistered] at rightDone
        | some right => exact ⟨right, rfl⟩
      have caught := serializationFailure_of_middle inEdge outEdge leftDone known
      rw [failure] at caught
      exact nomatch caught
    · exact left

end

theorem release_invariant (safe : ReleaseSafe history.ssi.xacts xid committed) :
    SsiInvariant (standing (ssiStep history (.release xid committed)).ssi.xacts)
      (ssiStep history (.release xid committed)).commitOrder := by
  cases found : findXact history.ssi.xacts xid with
  | none =>
    simp only [ssiStep, releaseSerializableTransaction, found, commitOrderAfter, Option.isSome_none,
      Bool.and_false]
    exact invariant
  | some sx =>
    have sameFinished : isFinished history.ssi.xacts xid = sx.finished := by
      rw [isFinished, standing_of_findXact found]
      rfl
    unfold ReleaseSafe at safe
    rw [sameFinished] at safe
    cases finished : sx.finished with
    | true => exact release_again_invariant invariant found finished (safe.1 finished)
    | false =>
      cases committed with
      | false => exact release_abort_invariant invariant found finished
      | true => exact release_commit_invariant invariant found finished (safe.2 finished rfl)

theorem ssiStep_invariant (safe : SsiSafe history op) :
    SsiInvariant (standing (ssiStep history op).ssi.xacts) (ssiStep history op).commitOrder := by
  cases op with
  | register xid _ =>
    simp only [ssiStep, standing_register]
    exact invariant
  | checkConflict writer rnode blockNum offsetNum =>
    exact checkForSerializableConflict_invariant invariant
  | release xid _ => exact release_invariant invariant safe
  | _ => exact invariant

end

def SsiRun (history : SsiHistory) : Prop :=
  Reaches (fun history op => some (ssiStep history op)) SsiSafe SsiHistory.fresh history

theorem ssiRun_invariant (run : SsiRun history) :
    SsiInvariant (standing history.ssi.xacts) history.commitOrder := by
  apply invariant run fun history => SsiInvariant (standing history.ssi.xacts) history.commitOrder
  · intro _ _ _ invariant safe taken
    cases taken
    exact ssiStep_invariant invariant safe
  · refine ⟨?_, ?_, ?_, ?_, ?_⟩ <;>
      simp [standing, findXact, SsiHistory.fresh, Standing.unregistered]

/-- No three transactions that committed form a dangerous structure of which
the last committed first. -/
theorem ssiRun_no_dangerousCommits {history : SsiHistory}
    (run : SsiRun history) (t1 t2 t3 : TransactionId) :
    ¬ DangerousCommits history.ssi.xacts history.commitOrder t1 t2 t3 := by
  intro dangerous
  exact (ssiRun_invariant run).safe t1 t2 t3 dangerous.left dangerous.right
    dangerous.beforeMiddle dangerous.beforeLeft

end

/-- Transaction 3 reads tuple 1 and transaction 4 reads tuple 2; transaction 4
writes tuple 1 and transaction 5 writes tuple 2. -/
def pathOfThree : List SsiOp :=
  let rnode := { spcNode := 1663, dbNode := 1, relNode := 2 }
  [.register 3 false, .register 4 false, .register 5 false,
    .lockTuple rnode 0 1 3, .lockTuple rnode 0 2 4,
    .checkConflict 4 rnode 0 1, .checkConflict 5 rnode 0 2]

/-- If transaction 3 is the last to commit, no error is raised. -/
theorem leftCommitsLast_dangerous : ∃ history,
      runActions (fun history op => some (ssiStep history op)) SsiHistory.fresh
        (pathOfThree ++ [.release 5 true, .release 4 true, .release 3 true]) = some history ∧
      DangerousCommits history.ssi.xacts history.commitOrder 3 4 5 := by
  refine ⟨_, rfl, ?_⟩
  constructor
  · decide +kernel
  · decide +kernel
  · unfold CommitsBefore
    decide +kernel
  · unfold CommitsBefore
    decide +kernel

theorem ssiRun_no_dangerousCommits_middleLast :
    ∃ history, SsiRun history ∧ history.commitOrder = [5, 3] ∧ 4 ∈ outWriters history.ssi.xacts 3 ∧
      5 ∈ outWriters history.ssi.xacts 4 ∧
      ¬ DangerousCommits history.ssi.xacts history.commitOrder 3 4 5 := by
  have allowed : AllAllowed (fun history op => some (ssiStep history op)) SsiSafe SsiHistory.fresh
      (pathOfThree ++ [.release 5 true, .release 3 true, .release 4 true]) := by
    decide +kernel
  have run := of_runActions allowed rfl
  exact ⟨_, run, by decide +kernel, by decide +kernel, by decide +kernel,
    ssiRun_no_dangerousCommits run 3 4 5⟩

end Pgcpp.Transaction
