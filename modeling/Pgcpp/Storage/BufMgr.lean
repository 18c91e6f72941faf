import Pgcpp.Storage.BufInternals

/-!
# The buffer manager

`ReadBuffer`, the flushes and the drops over a buffer pool and the disk.  A
function that may raise an error returns the state it leaves behind together
with its result.  Buffers are named by their index in the pool.
-/

namespace Pgcpp.Storage

structure BufferState (P : Type) where
  pool : BufferPool P
  disk : MdStorage P

inductive ReadBufferMode where
  | normal
  | zero
  | noLock
  deriving DecidableEq

variable {P : Type}

namespace BufferState

def setDesc (state : BufferState P) (bufId : Nat) (desc : BufferDesc) : BufferState P :=
  { state with pool := state.pool.setDesc bufId desc }

/-- The loops over buffers; an error in the body ends the loop. -/
def forBuffers (body : BufferState P → Nat → BufferState P × Bool) :
    List Nat → BufferState P → BufferState P × Bool
  | [], state => (state, true)
  | bufId :: rest, state =>
    match body state bufId with
    | (state, false) => (state, false)
    | (state, true) => forBuffers body rest state

variable [Zero P]

/-- `FlushBuffer`, whose argument `release` is false in every call.  `false`
is an error of the storage manager. -/
def flushBuffer (state : BufferState P) (bufId : Nat) : BufferState P × Bool :=
  let desc := state.pool.descriptors bufId
  if bufId < state.pool.nBuffers then
    if desc.valid && desc.dirty then
      match mdwrite state.disk desc.tag.rnode desc.tag.forkNum
          desc.tag.blockNum (state.pool.blocks bufId) with
      | none => (state, false)
      | some disk => ({ state with disk := disk }.setDesc bufId { desc with dirty := false }, true)
    else (state, true)
  else (state, true)

/-- The flushes of all buffers whose descriptor is selected. -/
def flushSelected (select : BufferDesc → Bool) (state : BufferState P) : BufferState P × Bool :=
  forBuffers
    (fun state bufId =>
      let desc := state.pool.descriptors bufId
      if select desc && desc.dirty && desc.valid then state.flushBuffer bufId else (state, true))
    (List.range state.pool.nBuffers) state

def flushRelationBuffers (rnode : RelFileNode) (state : BufferState P) : BufferState P × Bool :=
  state.flushSelected fun desc => desc.tagged && desc.tag.rnode = rnode

def flushDatabaseBuffers (dbNode : Nat) (state : BufferState P) : BufferState P × Bool :=
  state.flushSelected fun desc => desc.tagged && desc.tag.rnode.dbNode = dbNode

def flushAllDirtyBuffers (state : BufferState P) : BufferState P × Bool :=
  state.flushSelected fun _ => true

/-- The loop of `FlushDirtyBuffers`, with the number of flushes left. -/
def flushDirtyLoop : Nat → List Nat → BufferState P → BufferState P × Bool
  | _, [], state => (state, true)
  | 0, _, state => (state, true)
  | left + 1, bufId :: rest, state =>
    let desc := state.pool.descriptors bufId
    if 0 < desc.refcount then flushDirtyLoop (left + 1) rest state
    else if !desc.dirty || !desc.valid then flushDirtyLoop (left + 1) rest state
    else
      match state.flushBuffer bufId with
      | (state, false) => (state, false)
      | (state, true) => flushDirtyLoop left rest state

def flushDirtyBuffers (maxBuffers : Nat) (state : BufferState P) : BufferState P × Bool :=
  flushDirtyLoop maxBuffers (List.range state.pool.nBuffers) state

/-- The flush of a dirty victim in `ReadBuffer`. -/
def writeBack (state : BufferState P) (victim : Nat) : BufferState P × Bool :=
  let desc := state.pool.descriptors victim
  if desc.tagged && desc.dirty && desc.valid then state.flushBuffer victim else (state, true)

section

variable (hash : BufferTag → Nat)

/-- The steps of `ReadBuffer` behind the flush of the victim. -/
def readInto (state : BufferState P) (mode : ReadBufferMode)
    (tag : BufferTag) (victim : Nat) : BufferState P × Option Nat :=
  match state.pool.insertBuffer hash tag victim with
  | (pool, false) => ({ state with pool := pool }, none)
  | (pool, true) =>
    let content :=
      if mode = .zero then some 0 else mdread state.disk tag.rnode tag.forkNum tag.blockNum
    match content with
    | none => ({ state with pool := pool }, none)
    | some page =>
      let desc := pool.descriptors victim
      let pool := pool.setDesc victim { desc with valid := true }
      ({ state with
          pool := { pool with
            blocks := Function.update pool.blocks victim page } }, some victim)

/-- `ReadBuffer`; `none` is an error: no victim, or one of the storage
manager. -/
def readBuffer (state : BufferState P) (mode : ReadBufferMode)
    (tag : BufferTag) : BufferState P × Option Nat :=
  match state.pool.lookupBuffer hash tag with
  | some bufId => ({ state with pool := state.pool.pinBuffer bufId }, some bufId)
  | none =>
    match state.pool.findVictimBuffer with
    | (pool, none) => ({ state with pool := pool }, none)
    | (pool, some victim) =>
      match { state with pool := pool }.writeBack victim with
      | (state, false) => (state, none)
      | (state, true) => state.readInto hash mode tag victim

end

section

variable (state : BufferState P) (bufId : Nat)

def releaseBuffer : BufferState P :=
  { state with pool := state.pool.unpinBuffer bufId }

def incrBufferRefCount : BufferState P :=
  { state with pool := state.pool.pinBuffer bufId }

def markBufferDirty : BufferState P :=
  if bufId < state.pool.nBuffers then
    state.setDesc bufId { state.pool.descriptors bufId with dirty := true }
  else state

/-- A caller modifies the page of a buffer and marks it dirty. -/
def writePage (page : P) : BufferState P :=
  { state with pool := { state.pool with
      blocks := Function.update state.pool.blocks bufId page } }.markBufferDirty
    bufId

end

section

variable (hash : BufferTag → Nat)

/-- The part of `InvalidateBuffer` behind the flush. -/
def discardBuffer (state : BufferState P) (bufId : Nat) : BufferState P :=
  let desc := state.pool.descriptors bufId
  let pool :=
    if desc.tagged then state.pool.hashTableDelete hash desc.tag else state.pool
  { state with pool := { pool.setDesc bufId
      { tag := .empty, dirty := false, valid := false, tagged := false
        refcount := desc.refcount, usageCount := 0, freeNext := pool.firstFree } with
      firstFree := some bufId } }

def invalidateBuffer (state : BufferState P) (bufId : Nat) : BufferState P × Bool :=
  if bufId < state.pool.nBuffers then
    let desc := state.pool.descriptors bufId
    match
      if desc.dirty && desc.valid then state.flushBuffer bufId else (state, true) with
    | (state, false) => (state, false)
    | (state, true) => (state.discardBuffer hash bufId, true)
  else (state, true)

/-- The drops of all buffers whose descriptor is selected. -/
def dropSelected (select : BufferDesc → Bool) (state : BufferState P) : BufferState P × Bool :=
  forBuffers
    (fun state bufId =>
      if select (state.pool.descriptors bufId) then state.invalidateBuffer hash bufId
      else (state, true))
    (List.range state.pool.nBuffers) state

/-- `DropRelationBuffers`, which does not look at the pin count. -/
def dropRelationBuffers (rnode : RelFileNode) (state : BufferState P) : BufferState P × Bool :=
  state.dropSelected hash fun desc => desc.tagged && desc.tag.rnode = rnode

def dropRelFileNodeBuffers (rnode : RelFileNode) (forkNum : ForkNumber)
    (state : BufferState P) : BufferState P × Bool :=
  state.dropSelected hash fun desc =>
    desc.tagged && desc.tag.rnode = rnode &&
      desc.tag.forkNum = forkNum && desc.refcount = 0

def dropDatabaseBuffers (dbNode : Nat) (state : BufferState P) : BufferState P × Bool :=
  state.dropSelected hash fun desc =>
    desc.tagged && desc.tag.rnode.dbNode = dbNode && desc.refcount = 0

end

end BufferState

/-- The state after `InitBufferPool`. -/
def freshBuffers [Zero P] (nBuffers : Nat) (disk : MdStorage P) : BufferState P :=
  { pool := initBufferPool nBuffers, disk := disk }

inductive BufferOp (P : Type) where
  | read (mode : ReadBufferMode) (tag : BufferTag)
  | incrRefCount (bufId : Nat)
  | release (bufId : Nat)
  | write (bufId : Nat) (page : P)
  | flush (bufId : Nat)
  | flushRelation (rnode : RelFileNode)
  | flushDatabase (dbNode : Nat)
  | flushDirty (maxBuffers : Nat)
  | flushAll
  | dropRelation (rnode : RelFileNode)
  | dropRelFileNode (rnode : RelFileNode) (forkNum : ForkNumber)
  | dropDatabase (dbNode : Nat)
  -- files created, extended, truncated or removed behind the buffer manager
  | storage (disk : MdStorage P)

/-- The state after a call, also if the call raises an error. -/
def bufferStep [Zero P] (hash : BufferTag → Nat) (state : BufferState P) :
    BufferOp P → BufferState P
  | .read mode tag => (state.readBuffer hash mode tag).1
  | .incrRefCount bufId => state.incrBufferRefCount bufId
  | .release bufId => state.releaseBuffer bufId
  | .write bufId page => state.writePage bufId page
  | .flush bufId => (state.flushBuffer bufId).1
  | .flushRelation rnode => (state.flushRelationBuffers rnode).1
  | .flushDatabase dbNode => (state.flushDatabaseBuffers dbNode).1
  | .flushDirty maxBuffers => (state.flushDirtyBuffers maxBuffers).1
  | .flushAll => state.flushAllDirtyBuffers.1
  | .dropRelation rnode => (state.dropRelationBuffers hash rnode).1
  | .dropRelFileNode rnode forkNum => (state.dropRelFileNodeBuffers hash rnode forkNum).1
  | .dropDatabase dbNode => (state.dropDatabaseBuffers hash dbNode).1
  | .storage disk => { state with disk := disk }

end Pgcpp.Storage
