import Pgcpp.Storage.BufPins
import Pgcpp.Storage.BufRefinement

/-!
# Reads and writes through the buffer pool

Runs that read, modify, release and flush pages, next to the flat store of the
pages last written.  Without evictions that cut a path in the hash table, a
read finds the page of the store.  Otherwise a page that is still in the pool
can be missed, and an old version of it is read into a second buffer.
-/

namespace Pgcpp.Storage

open Lib

/-- The buffers and the disk, and the page last written to each block. -/
structure PagedState (P : Type) where
  buffers : BufferState P
  store : BufferTag → P

inductive PagedOp (P : Type) where
  | read (tag : BufferTag)
  | write (bufId : Nat) (page : P)
  | release (bufId : Nat)
  | flush (bufId : Nat)
  | flushRelation (rnode : RelFileNode)
  | flushDirty (maxBuffers : Nat)

variable {P : Type} [Zero P]

/-- Reads succeed, and only pinned buffers are modified. -/
def pagedStep (hash : BufferTag → Nat) (state : PagedState P) : PagedOp P → Option (PagedState P)
  | .read tag =>
    match state.buffers.readBuffer hash .normal tag with
    | (_, none) => none
    | (buffers, some _) => some { state with buffers := buffers }
  | .write bufId page =>
    let desc := state.buffers.pool.descriptors bufId
    if bufId < state.buffers.pool.nBuffers ∧ 0 < desc.refcount then
      some
        { buffers := state.buffers.writePage bufId page
          store := Function.update state.store desc.tag page }
    else none
  | .release bufId => some { state with buffers := state.buffers.releaseBuffer bufId }
  | .flush bufId => some { state with buffers := (state.buffers.flushBuffer bufId).1 }
  | .flushRelation rnode =>
    some { state with
      buffers := (state.buffers.flushRelationBuffers rnode).1 }
  | .flushDirty maxBuffers =>
    some { state with
      buffers := (state.buffers.flushDirtyBuffers maxBuffers).1 }

/-- Before anything was written, the store has the pages on disk. -/
def freshPages (nBuffers : Nat) (disk : MdStorage P) : PagedState P :=
  { buffers := freshBuffers nBuffers disk, store := diskPage disk }

/-- The tags that are read are in scope, and an eviction does not cut the path
to another entry of the hash table. -/
def PageSafe (hash : BufferTag → Nat) (tablespaceOf : Nat → Nat → Nat)
    (state : PagedState P) : PagedOp P → Prop
  | .read tag =>
    InScope tablespaceOf tag ∧
    (state.buffers.pool.lookupBuffer hash tag = none → state.buffers.pool.firstFree = none →
      DeletionSafe hash state.buffers.pool fun bufId =>
        (state.buffers.pool.descriptors bufId).refcount = 0)
  | _ => True

instance (hash : BufferTag → Nat) (tablespaceOf : Nat → Nat → Nat) (state : PagedState P)
    (op : PagedOp P) : Decidable (PageSafe hash tablespaceOf state op) := by
  cases op <;> dsimp only [PageSafe] <;> infer_instance

variable {hash : BufferTag → Nat} {tablespaceOf : Nat → Nat → Nat} {state : PagedState P}

theorem pagedStep_refines (refines : Refines hash tablespaceOf state.store state.buffers)
    (safe : PageSafe hash tablespaceOf state op) (taken : pagedStep hash state op = some after) :
    Refines hash tablespaceOf after.store after.buffers := by
  -- flushes of one buffer, alone or in a loop
  have flush : ∀ (buffers : BufferState P) bufId, Refines hash tablespaceOf state.store buffers →
      Refines hash tablespaceOf state.store (buffers.flushBuffer bufId).1 :=
    fun _ bufId kept => kept.flushBuffer bufId
  cases op with
  | read _ =>
    simp only [pagedStep] at taken
    split at taken
    next => simp at taken
    next buffers bufId read =>
      cases taken
      exact (refines.readBuffer safe.1 safe.2 read).1
  | write bufId page =>
    simp only [pagedStep] at taken
    split at taken
    next pinned =>
      cases taken
      exact refines.writePage pinned.1 pinned.2 page
    next => simp at taken
  | release bufId =>
    cases taken
    exact refines.releaseBuffer bufId
  | flush bufId =>
    cases taken
    exact refines.flushBuffer bufId
  | flushRelation _ =>
    cases taken
    exact BufferState.flushSelected_keeps _ flush _ refines
  | flushDirty _ =>
    cases taken
    exact BufferState.flushDirtyLoop_keeps _ flush _ _ refines

theorem refines_of_run (run : Reaches (pagedStep hash) (PageSafe hash tablespaceOf)
      (freshPages nBuffers disk) state) : Refines hash tablespaceOf state.store state.buffers := by
  apply run.invariant (fun reached => Refines hash tablespaceOf reached.store reached.buffers)
  · intro _ _ _ refines safe taken
    exact pagedStep_refines refines safe taken
  · exact freshBuffers_refines nBuffers disk

/-- In every state of a run, a read finds the page of the store, and no two
buffers have the same tag. -/
theorem reads_agree_with_store {nBuffers : Nat} {disk : MdStorage P}
    (run : Reaches (pagedStep hash) (PageSafe hash tablespaceOf) (freshPages nBuffers disk) state) :
    (∀ tag buffers bufId, PageSafe hash tablespaceOf state (.read tag) →
      state.buffers.readBuffer hash .normal tag = (buffers, some bufId) →
      (buffers.pool.descriptors bufId).tag = tag ∧ buffers.pool.blocks bufId = state.store tag) ∧
    ∀ left < state.buffers.pool.nBuffers, ∀ right < state.buffers.pool.nBuffers,
        (state.buffers.pool.descriptors left).tagged →
        (state.buffers.pool.descriptors right).tagged → (state.buffers.pool.descriptors left).tag =
          (state.buffers.pool.descriptors right).tag → left = right := by
  have refines := refines_of_run run
  constructor
  · intro tag buffers bufId safe read
    obtain ⟨kept, bound, tagged, isTag⟩ := refines.readBuffer safe.1 safe.2 read
    obtain ⟨_, _, content⟩ := kept.buffers.resident bufId bound tagged
    exact ⟨isTag, by rw [content, isTag]⟩
  · intro left leftBound right rightBound leftTagged rightTagged same
    exact refines.buffers.tag_unique leftBound rightBound leftTagged rightTagged same

/-- Block 1 is modified in its buffer.  The block read before it, whose entry
is on its path in the hash table, is evicted for a page of another database. -/
def evictOnPath : List (PagedOp Nat) :=
  [.read (mainBlock 0 1 0), .release 0, .read (mainBlock 0 1 1), .write 1 7,
    .read (mainBlock 1 1 0), .release 0]

/-- The modified page is missed and read again from disk, into a second
buffer. -/
theorem read_misses_modified_page :
    ∃ state buffers, Reaches (pagedStep bufferTagHash) (fun _ _ => True)
        (freshPages 2 twoBlockDisk) state ∧ state.store (mainBlock 0 1 1) = 7 ∧
      state.buffers.readBuffer bufferTagHash .normal (mainBlock 0 1 1) = (buffers, some 0) ∧
      buffers.pool.blocks 0 = 0 ∧ (buffers.pool.descriptors 0).tagged ∧
      (buffers.pool.descriptors 0).tag = mainBlock 0 1 1 ∧ (buffers.pool.descriptors 1).tagged ∧
      (buffers.pool.descriptors 1).tag = mainBlock 0 1 1 :=
  ⟨_, _, .of_unguarded evictOnPath rfl, rfl, rfl, rfl, rfl, rfl, rfl, rfl⟩

/-- A modified page is evicted and flushed. -/
def modifyThenEvict : List (PagedOp Nat) :=
  [.read (mainBlock 0 1 0), .write 0 7, .release 0, .read (mainBlock 0 1 1), .release 0]

theorem reads_agree_with_store_modifyThenEvict : ∃ state buffers, Reaches (pagedStep bufferTagHash)
        (PageSafe bufferTagHash fun _ _ => 0) (freshPages 1 twoBlockDisk) state ∧
      state.buffers.readBuffer bufferTagHash .normal (mainBlock 0 1 0) = (buffers, some 0) ∧
      buffers.pool.blocks 0 = 7 := by
  have allowed : AllAllowed (pagedStep bufferTagHash)
      (PageSafe bufferTagHash fun _ _ => 0) (freshPages 1 twoBlockDisk)
      modifyThenEvict := by
    decide +kernel
  obtain ⟨state, executed, safe, found, stored⟩ : ∃ state,
      runActions (pagedStep bufferTagHash) (freshPages 1 twoBlockDisk) modifyThenEvict =
        some state ∧
      PageSafe bufferTagHash (fun _ _ => 0) state (.read (mainBlock 0 1 0)) ∧
      (state.buffers.readBuffer bufferTagHash .normal (mainBlock 0 1 0)).2 = some 0 ∧
      state.store (mainBlock 0 1 0) = 7 := by
    refine ⟨_, rfl, ?_, ?_, ?_⟩ <;> decide +kernel
  have run := Reaches.of_runActions allowed executed
  have read := (reads_agree_with_store run).1 _ _ 0 safe (Prod.ext rfl found)
  exact ⟨state, _, run, Prod.ext rfl found, read.2.trans stored⟩

end Pgcpp.Storage
