import Pgcpp.Lib.Transition
import Pgcpp.Storage.BufPoolInvariant

/-!
# Pinned buffers

Over all runs of the buffer manager, the free list ends and holds free buffers
only, and no pinned buffer is a victim, as long as no pinned buffer is dropped,
no free buffer is pinned and no deletion from the hash table cuts the path to
another entry.  `DropRelationBuffers` does not look at pins, so that runs
without this condition put pinned buffers on the free list.
-/

namespace Pgcpp.Storage

open Lib

variable {P : Type} {hash : BufferTag → Nat} {state : BufferState P}

/-- A buffer was removed from the hash table, or nothing happened. -/
structure Dropped (hash : BufferTag → Nat) (before after : BufferPool P) (bufId : Nat) : Prop where
  coherent : Coherent hash after
  nBuffers : after.nBuffers = before.nBuffers
  kept : ∀ slot, (after.hashTable slot).isEmpty = false →
    after.hashTable slot = before.hashTable slot
  others : ∀ other, other ≠ bufId → after.descriptors other = before.descriptors other

theorem discardBuffer_dropped (coherent : Coherent hash state.pool)
    (bound : bufId < state.pool.nBuffers) (tagged : (state.pool.descriptors bufId).tagged)
    (unpinned : (state.pool.descriptors bufId).refcount = 0)
    (safe : DeletionSafe hash state.pool (· = bufId)) :
    Dropped hash state.pool (state.discardBuffer hash bufId).pool bufId := by
  obtain ⟨nodes, list⟩ := coherent.freeList
  have apart : bufId ∉ nodes := by
    intro member
    have untagged := (list.unused bufId member).2.1
    rw [tagged] at untagged
    exact nomatch untagged
  obtain ⟨fewer, removed, kept, without⟩ := coherent.table.remove bound trivial (fun _ => safe)
  unfold BufferState.discardBuffer
  simp only [removed]
  have others : ∀ desc other, other ≠ bufId → ({ state.pool with hashTable := fewer }.setDesc bufId
        desc).descriptors other = state.pool.descriptors other :=
    fun desc other ne => BufferPool.setDesc_of_ne _ ne desc
  have member_ne : ∀ node ∈ nodes, node ≠ bufId := by
    rintro node member rfl
    exact apart member
  refine ⟨⟨?_, bufId :: nodes, ?_, ?_⟩, rfl, kept, others _⟩
  · apply TableCoherent.with_untagged
    · refine without.congr rfl rfl ?_
      intro other ne
      simp only [others _ other ne.2]
      exact ⟨trivial, trivial⟩
    · simp
  · refine list.chain.push ?_ ?_
    · simp
    · intro node member
      simp [others _ node (member_ne node member)]
  intro node member
  obtain rfl | member := List.mem_cons.1 member
  · simp only [BufferPool.setDesc_self]
    exact ⟨bound, trivial, unpinned⟩
  · simp only [others _ node (member_ne node member)]
    exact list.unused node member

/-- What a loop that drops the selected buffers needs. -/
structure Droppable (hash : BufferTag → Nat) (select : BufferDesc → Bool)
    (bufIds : List Nat) (pool : BufferPool P) : Prop where
  unpinned : ∀ bufId ∈ bufIds, select (pool.descriptors bufId) →
    bufId < pool.nBuffers ∧ (pool.descriptors bufId).tagged ∧
      (pool.descriptors bufId).refcount = 0
  safe : DeletionSafe hash pool fun bufId => bufId ∈ bufIds ∧ select (pool.descriptors bufId)

variable {select : BufferDesc → Bool}

theorem Droppable.tail (droppable : Droppable hash select (bufId :: rest) before)
    (apart : bufId ∉ rest) (dropped : Dropped hash before after bufId) :
    Droppable hash select rest after := by
  have same : ∀ other ∈ rest, after.descriptors other = before.descriptors other := by
    intro other mem
    apply dropped.others
    rintro rfl
    exact apart mem
  constructor
  case unpinned =>
    intro other mem
    rw [same other mem, dropped.nBuffers]
    exact droppable.unpinned other (List.mem_cons_of_mem _ mem)
  case safe =>
    apply droppable.safe.of_fewer dropped.nBuffers dropped.kept
    rintro _ _ _ ⟨mem, selected⟩
    rw [same _ mem] at selected
    exact ⟨List.mem_cons_of_mem _ mem, selected⟩

variable [Zero P]

theorem flushBuffer_descriptors : (∃ dirty, (state.flushBuffer bufId).1.pool.descriptors bufId =
      { state.pool.descriptors bufId with dirty := dirty }) ∧
    ∀ other, other ≠ bufId → (state.flushBuffer bufId).1.pool.descriptors other =
        state.pool.descriptors other := by
  obtain ⟨unchanged, _⟩ | failed | ⟨_, _, _, written⟩ := state.flushBuffer_cases bufId
  · rw [unchanged]
    exact ⟨⟨_, rfl⟩, fun _ _ => rfl⟩
  · rw [failed]
    exact ⟨⟨_, rfl⟩, fun _ _ => rfl⟩
  rw [written]
  exact ⟨⟨false, BufferPool.setDesc_self ..⟩, fun other ne => BufferPool.setDesc_of_ne _ ne _⟩

theorem invalidateBuffer_dropped (coherent : Coherent hash state.pool)
    (bound : bufId < state.pool.nBuffers) (tagged : (state.pool.descriptors bufId).tagged)
    (unpinned : (state.pool.descriptors bufId).refcount = 0)
    (safe : DeletionSafe hash state.pool (· = bufId)) :
    Dropped hash state.pool (state.invalidateBuffer hash bufId).1.pool bufId := by
  -- the flush before the buffer is discarded
  obtain ⟨flushed, outcome, quiet, ⟨dirty, own⟩, others⟩ : ∃ flushed,
      (if (state.pool.descriptors bufId).dirty &&
          (state.pool.descriptors bufId).valid then state.flushBuffer bufId
        else (state, true)) = flushed ∧
      Quiet state.pool flushed.1.pool ∧
      (∃ dirty, flushed.1.pool.descriptors bufId =
        { state.pool.descriptors bufId with dirty := dirty }) ∧
      ∀ other, other ≠ bufId → flushed.1.pool.descriptors other = state.pool.descriptors other := by
    refine ⟨_, rfl, ?_⟩
    split
    · exact ⟨state.flushBuffer_quiet bufId, flushBuffer_descriptors⟩
    · exact ⟨Quiet.refl _, ⟨_, rfl⟩, fun _ _ => rfl⟩
  obtain ⟨ready, ok⟩ := flushed
  unfold BufferState.invalidateBuffer
  simp only [if_pos bound, outcome]
  cases ok with
  | false =>
    exact ⟨quiet.coherent coherent, quiet.nBuffers, fun slot _ => by rw [quiet.hashTable], others⟩
  | true =>
    have stillSafe : DeletionSafe hash ready.pool (· = bufId) := safe.of_fewer quiet.nBuffers
        (fun slot _ => by rw [quiet.hashTable]) (fun _ _ _ same => same)
    have dropped := discardBuffer_dropped (quiet.coherent coherent)
      (by rw [quiet.nBuffers]; exact bound) (by rw [own]; exact tagged)
      (by rw [own]; exact unpinned) stillSafe
    refine ⟨dropped.coherent, dropped.nBuffers.trans quiet.nBuffers, ?_, ?_⟩
    · intro slot occupied
      rw [dropped.kept slot occupied, quiet.hashTable]
    · intro other ne
      exact (dropped.others other ne).trans (others other ne)

theorem dropLoop_coherent (distinct : bufIds.Nodup)
    (coherent : Coherent hash state.pool) (droppable : Droppable hash select bufIds state.pool) :
    Coherent hash (BufferState.forBuffers (fun state bufId =>
        if select (state.pool.descriptors bufId) then state.invalidateBuffer hash bufId
        else (state, true)) bufIds state).1.pool := by
  induction bufIds generalizing state with
  | nil => exact coherent
  | cons bufId _ ih =>
    obtain ⟨apart, distinctRest⟩ := List.nodup_cons.1 distinct
    -- one round
    have dropped : Dropped hash state.pool (if select (state.pool.descriptors bufId) then
          state.invalidateBuffer hash bufId else (state, true)).1.pool bufId := by
      split
      next selected =>
        obtain ⟨bound, tagged, unpinned⟩ := droppable.unpinned bufId (by simp) selected
        apply invalidateBuffer_dropped coherent bound tagged unpinned
        apply droppable.safe.of_fewer rfl (fun _ _ => rfl)
        intro _ _ _ here
        rw [here]
        exact ⟨by simp, selected⟩
      next => exact ⟨coherent, rfl, fun _ _ => rfl, fun _ _ => rfl⟩
    have later := droppable.tail apart dropped
    unfold BufferState.forBuffers
    split
    next after outcome =>
      rw [outcome] at dropped
      exact dropped.coherent
    next after outcome =>
      rw [outcome] at dropped later
      exact ih distinctRest dropped.coherent later

theorem dropSelected_coherent (coherent : Coherent hash state.pool)
    (unpinned : ∀ bufId < state.pool.nBuffers, select (state.pool.descriptors bufId) →
      (state.pool.descriptors bufId).tagged ∧ (state.pool.descriptors bufId).refcount = 0)
    (safe : DeletionSafe hash state.pool fun bufId => select (state.pool.descriptors bufId)) :
    Coherent hash (state.dropSelected hash select).1.pool := by
  apply dropLoop_coherent List.nodup_range coherent
  constructor
  case unpinned =>
    intro bufId mem selected
    have bound := List.mem_range.1 mem
    exact ⟨bound, unpinned bufId bound selected⟩
  case safe => exact safe.of_fewer rfl (fun _ _ => rfl) (fun _ _ _ chosen => chosen.2)

/-- No step of a run drops a pinned buffer, pins a free one, or removes an
entry from the hash table that is on the path to another entry. -/
def PinSafe (hash : BufferTag → Nat) (state : BufferState P) : BufferOp P → Prop
  | .read _ tag =>
    state.pool.lookupBuffer hash tag = none →
    state.pool.firstFree = none →
    DeletionSafe hash state.pool fun bufId => (state.pool.descriptors bufId).refcount = 0
  | .incrRefCount bufId =>
    bufId < state.pool.nBuffers →
    (state.pool.descriptors bufId).tagged
  | .dropRelation rnode =>
    (∀ bufId < state.pool.nBuffers, (state.pool.descriptors bufId).tagged →
      (state.pool.descriptors bufId).tag.rnode = rnode →
      (state.pool.descriptors bufId).refcount = 0) ∧
    DeletionSafe hash state.pool fun bufId => (state.pool.descriptors bufId).tag.rnode = rnode
  | .dropRelFileNode rnode forkNum =>
    DeletionSafe hash state.pool fun bufId =>
      (state.pool.descriptors bufId).tag.rnode = rnode ∧
      (state.pool.descriptors bufId).tag.forkNum = forkNum ∧
      (state.pool.descriptors bufId).refcount = 0
  | .dropDatabase dbNode =>
    DeletionSafe hash state.pool fun bufId =>
      (state.pool.descriptors bufId).tag.rnode.dbNode = dbNode ∧
      (state.pool.descriptors bufId).refcount = 0
  | _ => True

instance (hash : BufferTag → Nat) (state : BufferState P) (op : BufferOp P) :
    Decidable (PinSafe hash state op) := by
  cases op <;> dsimp only [PinSafe] <;> infer_instance

theorem bufferStep_coherent (coherent : Coherent hash state.pool) (safe : PinSafe hash state op) :
    Coherent hash (bufferStep hash state op).pool := by
  -- flushes of one buffer, alone or in a loop
  have flush : ∀ (before : BufferState P) bufId, Coherent hash before.pool →
      Coherent hash (before.flushBuffer bufId).1.pool :=
    fun before bufId => (before.flushBuffer_quiet bufId).coherent
  cases op with
  | read mode _ => exact readBuffer_coherent coherent safe
  | incrRefCount bufId => exact (pinBuffer_quiet safe).coherent coherent
  | release bufId => exact (unpinBuffer_quiet _ bufId).coherent coherent
  | write bufId page => exact (state.writePage_quiet bufId page).coherent coherent
  | flush bufId => exact flush state bufId coherent
  | flushDirty _ =>
    exact BufferState.flushDirtyLoop_keeps (fun after => Coherent hash after.pool)
      flush _ _ coherent
  | dropRelation rnode =>
    obtain ⟨unpinned, detached⟩ := safe
    apply dropSelected_coherent coherent
    · intro bufId bound selected
      obtain ⟨tagged, same⟩ : _ ∧ _ := by simpa using selected
      exact ⟨tagged, unpinned bufId bound tagged same⟩
    apply detached.of_fewer rfl (fun _ _ => rfl)
    intro slot _ _ selected
    obtain ⟨_, same⟩ : _ ∧ _ := by simpa using selected
    exact same
  | dropRelFileNode rnode _ =>
    unfold PinSafe at safe
    apply dropSelected_coherent coherent
    · intro bufId _ selected
      obtain ⟨⟨⟨tagged, _⟩, _⟩, unpinned⟩ : ((_ ∧ _) ∧ _) ∧ _ := by
        simpa using selected
      exact ⟨tagged, unpinned⟩
    apply safe.of_fewer rfl (fun _ _ => rfl)
    intro slot _ _ selected
    obtain ⟨⟨⟨_, same⟩, fork⟩, unpinned⟩ : ((_ ∧ _) ∧ _) ∧ _ := by
      simpa using selected
    exact ⟨same, fork, unpinned⟩
  | dropDatabase dbNode =>
    unfold PinSafe at safe
    apply dropSelected_coherent coherent
    · intro bufId _ selected
      obtain ⟨⟨tagged, _⟩, unpinned⟩ : (_ ∧ _) ∧ _ := by
        simpa using selected
      exact ⟨tagged, unpinned⟩
    apply safe.of_fewer rfl (fun _ _ => rfl)
    intro slot _ _ selected
    obtain ⟨⟨_, same⟩, unpinned⟩ : (_ ∧ _) ∧ _ := by
      simpa using selected
    exact ⟨same, unpinned⟩
  | storage _ => exact coherent
  | _ =>
    exact BufferState.flushSelected_keeps (fun after => Coherent hash after.pool) flush _ coherent

def BufferRun (hash : BufferTag → Nat) (guard : BufferState P → BufferOp P → Prop) :
    BufferState P → BufferState P → Prop :=
  Reaches (fun state op => some (bufferStep hash state op)) guard

theorem BufferRun.coherent
    (run : BufferRun hash (PinSafe hash) (freshBuffers nBuffers disk) state) :
    Coherent hash state.pool := by
  apply run.invariant (fun reached => Coherent hash reached.pool)
  · intro _ _ _ coherent safe taken
    cases taken
    exact bufferStep_coherent coherent safe
  · exact initBufferPool_coherent nBuffers

/-- In every state of a run, the free list ends and holds untagged buffers
without pins, and no victim is pinned. -/
theorem bufferRun_victims_unpinned {nBuffers : Nat} {disk : MdStorage P}
    (run : BufferRun hash (PinSafe hash) (freshBuffers nBuffers disk) state) :
    (∃ nodes, FreeList state.pool nodes ∧ nodes.Nodup) ∧
    ∀ victim, state.pool.findVictimBuffer.2 = some victim →
      (state.pool.descriptors victim).refcount = 0 := by
  obtain ⟨nodes, list⟩ := run.coherent.freeList
  refine ⟨⟨nodes, list, list.chain.nodup⟩, ?_⟩
  intro victim found
  have outcome : state.pool.findVictimBuffer = (state.pool.findVictimBuffer.1, some victim) := by
    rw [← found]
  exact (victimOf_findVictimBuffer ⟨nodes, list⟩ outcome).unpinned

/-! ## Runs on two blocks of every relation -/

def twoBlockDisk : MdStorage Nat :=
  { segments := fun _ segment => segment == 0
    blocks := fun _ blockNum => if blockNum < 2 then some 0 else none }

def mainBlock (dbNode relNode blockNum : Nat) : BufferTag :=
  { rnode := { spcNode := 0, dbNode := dbNode, relNode := relNode }, forkNum := .main
    blockNum := blockNum }

/-- A reader keeps its pin while the relation is dropped. -/
def dropWhilePinned : List (BufferOp Nat) :=
  [.read .normal (mainBlock 0 1 0), .dropRelation (mainBlock 0 1 0).rnode]

/-- The pinned buffer is on the free list, and it is the next victim. -/
theorem dropRelation_frees_pinned : ∃ state, BufferRun bufferTagHash (fun _ _ => True)
        (freshBuffers 1 twoBlockDisk) state ∧ state.pool.firstFree = some 0 ∧
      (state.pool.descriptors 0).refcount = 1 ∧ state.pool.findVictimBuffer.2 = some 0 :=
  ⟨_, .of_unguarded dropWhilePinned rfl, by decide, by decide, by decide⟩

/-- An eviction, and a drop of the buffer when it is not pinned. -/
def evictThenDrop : List (BufferOp Nat) :=
  [.read .normal (mainBlock 0 1 0), .release 0, .read .normal (mainBlock 0 1 1), .release 0,
    .dropRelation (mainBlock 0 1 0).rnode]

theorem bufferRun_victims_unpinned_evictThenDrop :
    ∃ state, BufferRun bufferTagHash (PinSafe bufferTagHash) (freshBuffers 1 twoBlockDisk) state ∧
      (∃ nodes, FreeList state.pool nodes ∧ nodes.Nodup) ∧
      ∀ victim, state.pool.findVictimBuffer.2 = some victim →
        (state.pool.descriptors victim).refcount = 0 := by
  have allowed : AllAllowed (fun state op => some (bufferStep bufferTagHash state op))
      (PinSafe bufferTagHash) (freshBuffers 1 twoBlockDisk)
      evictThenDrop := by
    decide
  have run := Reaches.of_runActions allowed rfl
  exact ⟨_, run, bufferRun_victims_unpinned run⟩

end Pgcpp.Storage
