import Pgcpp.Storage.BufPoolInvariant
import Pgcpp.Storage.Lwlock

/-!
# Errors in `ReadBuffer`

`ReadBuffer` with the lightweight locks it takes and the errors it raises.  An
error of the storage manager leaves the function between the acquisition of
the partition lock and its release.  If the read of the new page fails, the
buffer already has the tag and a pin, and the next `ReadBuffer` returns it
although nothing was read into it.
-/

namespace Pgcpp.Storage

open BufferState BufferPool

variable {P : Type}

def kNumBufferPartitions : Nat := 16

def bufMappingPartition (hash : BufferTag → Nat) (tag : BufferTag) : Nat :=
  hash tag % kNumBufferPartitions

def mappingLockForTag (hash : BufferTag → Nat) (tag : BufferTag) : LWLock :=
  .bufMapping (bufMappingPartition hash tag)

inductive ReadError where
  | noBufferAvailable
  | flushFailed
  | hashTableFull
  | readFailed
  deriving DecidableEq

/-- Errors raised by the storage manager. -/
def ReadError.fromStorage : ReadError → Bool
  | .flushFailed => true
  | .readFailed => true
  | .noBufferAvailable => false
  | .hashTableFull => false

/-- The buffers and the locks the backend holds. -/
structure LockedBuffers (P : Type) where
  held : List (HeldCount LWLock)
  buffers : BufferState P

namespace LockedBuffers

section

variable (state : LockedBuffers P)

/-- `LWLockAcquire` in exclusive mode; no caller looks at its result. -/
def acquire (lock : LWLock) : LockedBuffers P :=
  { state with held := lwLockAcquire state.held lock .exclusive }

def release (lock : LWLock) : LockedBuffers P :=
  { state with held := lwLockRelease state.held lock }

def setPool (pool : BufferPool P) : LockedBuffers P :=
  { state with buffers := { state.buffers with pool := pool } }

/-- Files change behind the buffer manager. -/
def setDisk (disk : MdStorage P) : LockedBuffers P :=
  { state with buffers := { state.buffers with disk := disk } }

/-- `FindVictimBuffer`, which holds the freelist lock. -/
def findVictimBuffer : LockedBuffers P × Option Nat :=
  let state := state.acquire .bufFreelist
  let (pool, victim) := state.buffers.pool.findVictimBuffer
  ((state.setPool pool).release .bufFreelist, victim)

end

variable [Zero P]

section

variable (hash : BufferTag → Nat)

def readInto (state : LockedBuffers P) (mode : ReadBufferMode)
    (tag : BufferTag) (victim : Nat) : LockedBuffers P × Except ReadError Nat :=
  match state.buffers.pool.insertBuffer hash tag victim with
  | (pool, false) => (state.setPool pool, .error .hashTableFull)
  | (pool, true) =>
    let content :=
      if mode = .zero then some 0 else mdread state.buffers.disk tag.rnode tag.forkNum tag.blockNum
    match content with
    | none => (state.setPool pool, .error .readFailed)
    | some page =>
      let desc := pool.descriptors victim
      let pool := pool.setDesc victim { desc with valid := true }
      ((state.setPool { pool with
          blocks := Function.update pool.blocks victim page }).release (mappingLockForTag hash tag),
        .ok victim)

def readBuffer (state : LockedBuffers P) (mode : ReadBufferMode)
    (tag : BufferTag) : LockedBuffers P × Except ReadError Nat :=
  let partLock := mappingLockForTag hash tag
  let state := state.acquire partLock
  match state.buffers.pool.lookupBuffer hash tag with
  | some bufId => ((state.setPool (state.buffers.pool.pinBuffer bufId)).release partLock, .ok bufId)
  | none =>
    match state.findVictimBuffer with
    | (state, none) => (state.release partLock, .error .noBufferAvailable)
    | (state, some victim) =>
      match state.buffers.writeBack victim with
      | (buffers, false) => ({ state with buffers := buffers }, .error .flushFailed)
      | (buffers, true) => { state with buffers := buffers }.readInto hash mode tag victim

end

section

variable (hash : BufferTag → Nat)

/-- What an error should leave: no lock, the pins and the tags as before,
except that an unpinned clean page may have left the pool, and a page that a
later `ReadBuffer` reads from its file. -/
structure LeftIntact (before after : LockedBuffers P) (tag : BufferTag) : Prop where
  locks : after.held = []
  refcounts : ∀ bufId < before.buffers.pool.nBuffers,
    (after.buffers.pool.descriptors bufId).refcount =
      (before.buffers.pool.descriptors bufId).refcount
  mappings : ∀ other, after.buffers.pool.lookupBuffer hash other =
        before.buffers.pool.lookupBuffer hash other ∨
      ∃ bufId, before.buffers.pool.lookupBuffer hash other = some bufId ∧
        (before.buffers.pool.descriptors bufId).refcount = 0 ∧
        (before.buffers.pool.descriptors bufId).dirty = false ∧
        after.buffers.pool.lookupBuffer hash other = none
  rereads : ∀ disk page, mdread disk tag.rnode tag.forkNum tag.blockNum = some page → ∀ later bufId,
      (after.setDisk disk).readBuffer hash .normal tag = (later, .ok bufId) →
      later.buffers.pool.blocks bufId = page

/-- `ReadBuffer` is atomic when the storage manager raises an error. -/
def AtomicOnFailure (state : LockedBuffers P) (mode : ReadBufferMode) (tag : BufferTag) : Prop :=
  ∀ after error, state.readBuffer hash mode tag = (after, .error error) →
    error.fromStorage → LeftIntact hash state after tag

end

/-- The files after the page of the victim was written back, `none` if there
is no file for it. -/
def diskAfterEviction (pool : BufferPool P) (disk : MdStorage P)
    (victim : Nat) : Option (MdStorage P) :=
  let desc := pool.descriptors victim
  if victim < pool.nBuffers ∧ desc.tagged ∧ desc.dirty ∧ desc.valid = true then
    mdwrite disk desc.tag.rnode desc.tag.forkNum desc.tag.blockNum (pool.blocks victim)
  else some disk

/-- `ReadBuffer` needs no file that does not exist and no block beyond the end
of one. -/
def StorageReady (hash : BufferTag → Nat) (state : BufferState P)
    (mode : ReadBufferMode) (tag : BufferTag) : Prop :=
  match state.pool.lookupBuffer hash tag with
  | some _ => True
  | none =>
    match state.pool.findVictimBuffer with
    | (_, none) => True
    | (pool, some victim) =>
      match diskAfterEviction pool state.disk victim with
      | none => False
      | some disk =>
        mode = .zero ∨
        (mdread disk tag.rnode tag.forkNum tag.blockNum).isSome ∨
        -- the hash table has no slot for the tag
        (pool.insertBuffer hash tag victim).2 = false

section

variable (hash : BufferTag → Nat) (pool : BufferPool P)

omit [Zero P] in
theorem insertBuffer_room :
    (pool.insertBuffer hash tag victim).2 = ((if (pool.descriptors victim).tagged then
          pool.hashTableDelete hash (pool.descriptors victim).tag
        else pool).probe hash tag).isSome := by
  unfold insertBuffer hashTableInsert
  simp only
  cases search : probe hash
      (if (pool.descriptors victim).tagged then
        pool.hashTableDelete hash (pool.descriptors victim).tag else pool) tag with
  | none =>
    split
    · rfl
    next stored =>
      split at stored
      · simp at stored
      next found => exact absurd (search.symm.trans found) (by simp)
  | some _ =>
    split
    next full =>
      split at full
      next found => exact absurd (search.symm.trans found) (by simp)
      · simp at full
    · rfl

omit [Zero P] in
theorem hashTableDelete_setDesc : (pool.setDesc bufId desc).hashTableDelete hash tag =
      (pool.hashTableDelete hash tag).setDesc bufId desc := by
  have same : (pool.setDesc bufId desc).probe hash tag = pool.probe hash tag := rfl
  unfold hashTableDelete
  rw [same]
  cases pool.probe hash tag with
  | none => rfl
  | some slot =>
    by_cases empty : (pool.hashTable slot).isEmpty
    · refine (if_pos empty).trans ?_
      simp only [if_pos empty]
    refine (if_neg empty).trans ?_
    simp only [if_neg empty]
    rfl

omit [Zero P] in
theorem insertBuffer_dirty :
    (pool.insertBuffer hash tag victim).2 = ((pool.setDesc victim { pool.descriptors victim with
        dirty := dirty }).insertBuffer hash tag victim).2 := by
  rw [insertBuffer_room, insertBuffer_room, setDesc_self, hashTableDelete_setDesc]
  cases (pool.descriptors victim).tagged <;> rfl

end

theorem writeBack_cases (state : BufferState P) (victim : Nat) :
    (state.writeBack victim = (state, false) ∧
      diskAfterEviction state.pool state.disk victim = none) ∨
    (state.writeBack victim = (state, true) ∧
      diskAfterEviction state.pool state.disk victim = some state.disk) ∨
    ∃ disk, state.writeBack victim = ({ state with disk := disk }.setDesc victim
          { state.pool.descriptors victim with dirty := false }, true) ∧
      diskAfterEviction state.pool state.disk victim = some disk := by
  unfold writeBack diskAfterEviction
  cases tagged : (state.pool.descriptors victim).tagged with
  | false => simp [tagged]
  | true =>
    cases dirty : (state.pool.descriptors victim).dirty with
    | false => simp [dirty]
    | true =>
      cases valid : (state.pool.descriptors victim).valid with
      | false => simp [valid]
      | true =>
        by_cases bound : victim < state.pool.nBuffers
        · cases written : mdwrite state.disk
              (state.pool.descriptors victim).tag.rnode
              (state.pool.descriptors victim).tag.forkNum
              (state.pool.descriptors victim).tag.blockNum
              (state.pool.blocks victim) with
          | none | some disk => simp [flushBuffer, tagged, dirty, valid, bound, written]
        · simp [flushBuffer, bound]

theorem diskAfterEviction_of_failed {state buffers : BufferState P}
    (flush : state.writeBack victim = (buffers, false)) :
    diskAfterEviction state.pool state.disk victim = none := by
  rcases writeBack_cases state victim with
    ⟨_, gone⟩ | ⟨clean, _⟩ | ⟨_, written, _⟩
  · exact gone
  · simp [clean] at flush
  · simp [written] at flush

theorem diskAfterEviction_of_flushed {state buffers : BufferState P}
    (flush : state.writeBack victim = (buffers, true)) :
    diskAfterEviction state.pool state.disk victim = some buffers.disk ∧
      ∀ hash tag, (state.pool.insertBuffer hash tag victim).2 =
        (buffers.pool.insertBuffer hash tag victim).2 := by
  rcases writeBack_cases state victim with
    ⟨failed, _⟩ | ⟨clean, disk⟩ | ⟨disk, written, stored⟩
  · simp [failed] at flush
  · rw [flush] at clean
    cases clean
    exact ⟨disk, fun _ _ => rfl⟩
  · rw [flush] at written
    cases written
    exact ⟨stored, fun hash tag => insertBuffer_dirty hash state.pool⟩

omit [Zero P] in
theorem isSome_partitionLock (hash : BufferTag → Nat) (state : LockedBuffers P) (tag : BufferTag) :
    (findHeldCount (((state.acquire (mappingLockForTag hash tag)).acquire .bufFreelist).release
      .bufFreelist).held (mappingLockForTag hash tag)).isSome := by
  unfold acquire release mappingLockForTag
  rw [findHeldCount_lwLockRelease_of_ne (by simp), findHeldCount_lwLockAcquire_of_ne (by simp)]
  apply isSome_lwLockAcquire

/-- An error of the storage manager leaves the partition locked. -/
theorem storage_error_iff (hash : BufferTag → Nat) (state : LockedBuffers P)
    (mode : ReadBufferMode) (tag : BufferTag) : (StorageReady hash state.buffers mode tag → ∀ error,
      (state.readBuffer hash mode tag).2 = .error error → error.fromStorage = false) ∧
    (¬StorageReady hash state.buffers mode tag → ∃ error,
      (state.readBuffer hash mode tag).2 = .error error ∧ error.fromStorage ∧
        (findHeldCount (state.readBuffer hash mode tag).1.held
          (mappingLockForTag hash tag)).isSome) := by
  have locked := isSome_partitionLock hash state tag
  unfold StorageReady readBuffer
  simp only [acquire, release, findVictimBuffer, setPool] at locked ⊢
  cases missing : state.buffers.pool.lookupBuffer hash tag with
  | some _ => simp
  | none =>
    rcases search : state.buffers.pool.findVictimBuffer with ⟨picked, _ | victim⟩
    · simp [ReadError.fromStorage]
    dsimp only
    rcases flush : BufferState.writeBack ⟨picked, state.buffers.disk⟩ victim with ⟨flushed, _ | _⟩
    · have gone := diskAfterEviction_of_failed flush
      simp [gone, ReadError.fromStorage, locked]
    obtain ⟨disk, room⟩ := diskAfterEviction_of_flushed flush
    rcases insert : flushed.pool.insertBuffer hash tag victim with ⟨tagged, _ | _⟩
    · simp [disk, room, readInto, insert, ReadError.fromStorage]
    by_cases zero : mode = .zero
    · simp [disk, readInto, insert, zero]
    cases content : mdread flushed.disk tag.rnode tag.forkNum tag.blockNum with
    | some _ => simp [disk, readInto, insert, content, zero]
    | none =>
      simp [disk, room, readInto, insert, content, zero, setPool, ReadError.fromStorage, locked]

/-- `ReadBuffer` is atomic on failure exactly when it does not fail: every
error of the storage manager leaves the partition locked. -/
theorem atomicOnFailure_iff (hash : BufferTag → Nat) (state : LockedBuffers P)
    (mode : ReadBufferMode) (tag : BufferTag) :
    AtomicOnFailure hash state mode tag ↔ StorageReady hash state.buffers mode tag := by
  obtain ⟨settled, fails⟩ := state.storage_error_iff hash mode tag
  constructor
  · intro atomic
    by_contra notReady
    obtain ⟨error, failed, storage, locked⟩ := fails notReady
    have intact := atomic (state.readBuffer hash mode tag).1 error (Prod.ext rfl failed) storage
    rw [intact.locks] at locked
    simp [findHeldCount] at locked
  · intro ready _ error failed storage
    have other := settled ready error (by rw [failed])
    rw [storage] at other
    contradiction

def absentBlock : BufferTag :=
  { rnode := { spcNode := 1663, dbNode := 1, relNode := 2 }, forkNum := .main, blockNum := 0 }

/-- The file exists and has the given blocks. -/
def fileWith (blocks : Nat → Option Nat) : MdStorage Nat :=
  { segments := fun _ _ => true, blocks := fun _ => blocks }

/-- A fresh pool of one buffer; the backend holds no lock. -/
def emptyFileBuffers : LockedBuffers Nat :=
  { held := [], buffers := freshBuffers 1 (fileWith fun _ => none) }

/-- A read beyond the end of a file leaves the partition locked, the buffer
pinned and the tag mapped to it; once the block exists, the next read returns
the buffer with the page that was never read. -/
theorem readBuffer_not_atomic :
    ¬ AtomicOnFailure bufferTagHash emptyFileBuffers .normal absentBlock ∧
    ∃ after, emptyFileBuffers.readBuffer bufferTagHash .normal absentBlock =
        (after, .error .readFailed) ∧ after.held ≠ [] ∧
      (after.buffers.pool.descriptors 0).refcount = 1 ∧
      after.buffers.pool.lookupBuffer bufferTagHash absentBlock = some 0 ∧
      ((after.setDisk (fileWith fun _ => some 7)).readBuffer bufferTagHash
        .normal absentBlock).2 = .ok 0 ∧
      ((after.setDisk (fileWith fun _ => some 7)).readBuffer bufferTagHash
        .normal absentBlock).1.buffers.pool.blocks 0 = 0 := by
  have failed : (emptyFileBuffers.readBuffer bufferTagHash .normal
      absentBlock).2 = .error .readFailed := by
    decide
  have locked : (emptyFileBuffers.readBuffer bufferTagHash .normal absentBlock).1.held ≠ [] := by
    decide
  refine ⟨?_, _, Prod.ext rfl failed, locked, by decide, by decide, by decide, by decide⟩
  intro atomic
  exact locked (atomic _ _ (Prod.ext rfl failed) rfl).locks

end LockedBuffers

end Pgcpp.Storage
