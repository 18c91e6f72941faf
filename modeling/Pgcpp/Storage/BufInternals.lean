import Mathlib.Data.Nat.Bitwise
import Pgcpp.Lib.ProbeTable
import Pgcpp.Storage.Md

/-!
# Buffer pool internals

The descriptors of a buffer pool, its hash table, its free list and the clock
sweep.  The hash table uses open addressing; a deleted entry leaves an empty
slot behind.  The hash function of tags is a parameter, since `std::hash` is
left to the implementation.
-/

namespace Pgcpp.Storage

open Lib Function

def kInvalidBlockNumber : Nat := 0xFFFFFFFF

def kMaxUsageCount : Nat := 5

structure BufferTag where
  rnode : RelFileNode
  forkNum : ForkNumber
  blockNum : Nat
  deriving DecidableEq

def BufferTag.empty : BufferTag :=
  { rnode := { spcNode := 0, dbNode := 0, relNode := 0 }, forkNum := .invalid
    blockNum := kInvalidBlockNumber }

/-- The fork number as the hash function sees it, a `size_t`. -/
def ForkNumber.toHash : ForkNumber → Nat
  | .invalid => 2 ^ 64 - 1
  | .main => 0
  | .fsm => 1
  | .visibilityMap => 2
  | .init => 3

/-- `BufferTagHash`, where `std::hash` of an integer is the integer. -/
def bufferTagHash (tag : BufferTag) : Nat :=
  (tag.rnode.spcNode ^^^ (tag.rnode.dbNode <<< 1) ^^^
    (tag.rnode.relNode <<< 2) ^^^ (tag.forkNum.toHash <<< 3) ^^^ (tag.blockNum <<< 4)) % 2 ^ 64

/-- An entry of the hash table; the buffer of an empty one is never read. -/
structure BufferHashEntry where
  tag : BufferTag
  bufId : Nat
  deriving DecidableEq

def BufferHashEntry.isEmpty (entry : BufferHashEntry) : Bool :=
  entry.tag.blockNum = kInvalidBlockNumber

def BufferHashEntry.empty : BufferHashEntry := { tag := .empty, bufId := 0 }

/-- A buffer descriptor, with one field for each state flag.  `freeNext` is
`none` for -1.  The counts are `int`s in the source and have no bound here. -/
structure BufferDesc where
  tag : BufferTag
  dirty : Bool
  valid : Bool
  tagged : Bool
  refcount : Nat
  usageCount : Nat
  freeNext : Option Nat
  deriving DecidableEq

structure BufferPool (P : Type) where
  nBuffers : Nat
  descriptors : Nat → BufferDesc
  blocks : Nat → P
  hashTable : Nat → BufferHashEntry
  clockHand : Nat
  firstFree : Option Nat

/-- The loop of `BufferHashTableSize`, which takes at most `target` rounds. -/
def doubleUntil (target : Nat) : Nat → Nat → Nat
  | 0, size => size
  | rounds + 1, size => if size < target then doubleUntil target rounds (2 * size) else size

def bufferHashTableSize (nBuffers : Nat) : Nat :=
  doubleUntil (nBuffers * 2) (nBuffers * 2) 1

variable {P : Type}

def BufferDesc.initial (freeNext : Option Nat) : BufferDesc :=
  { tag := .empty, dirty := false, valid := false, tagged := false
    refcount := 0, usageCount := 0, freeNext := freeNext }

/-- The constructor of `BufferPool` with `InitFreeList`. -/
def initBufferPool [Zero P] (nBuffers : Nat) : BufferPool P :=
  { nBuffers := nBuffers, descriptors := fun bufId => .initial
      (if bufId + 1 < nBuffers then some (bufId + 1) else none)
    blocks := fun _ => 0, hashTable := fun _ => .empty, clockHand := 0
    firstFree := if 0 < nBuffers then some 0 else none }

namespace BufferPool

variable (pool : BufferPool P)

def hashTableSize : Nat := bufferHashTableSize pool.nBuffers

def setDesc (bufId : Nat) (desc : BufferDesc) : BufferPool P :=
  { pool with descriptors := update pool.descriptors bufId desc }

@[simp] theorem setDesc_self (bufId : Nat) (desc : BufferDesc) :
    (pool.setDesc bufId desc).descriptors bufId = desc :=
  update_self ..

theorem setDesc_of_ne (pool : BufferPool P) (ne : other ≠ bufId) (desc : BufferDesc) :
    (pool.setDesc bufId desc).descriptors other = pool.descriptors other :=
  update_of_ne ne ..

section

variable (hash : BufferTag → Nat)

section

variable (pool : BufferPool P) (tag : BufferTag)

def hashTableSlot : Nat := hash tag % pool.hashTableSize

/-- The loop that `HashTableInsert`, `HashTableDelete` and `LookupBuffer`
share: the first slot that is empty or holds the tag. -/
def probe : Option Nat :=
  findSlot pool.hashTableSize (pool.hashTableSlot hash)
    BufferHashEntry.isEmpty BufferHashEntry.tag pool.hashTable tag

/-- `HashTableInsert`; `none` is the error about a full table. -/
def hashTableInsert (bufId : Nat) : Option (BufferPool P) :=
  match pool.probe hash tag with
  | none => none
  | some slot => some { pool with
      hashTable := update pool.hashTable slot { tag := tag, bufId := bufId } }

def hashTableDelete : BufferPool P :=
  match pool.probe hash tag with
  | none => pool
  | some slot =>
    if (pool.hashTable slot).isEmpty then pool
    else { pool with
      hashTable := update pool.hashTable slot .empty }

/-- `LookupBuffer`, as a buffer id. -/
def lookupBuffer : Option Nat :=
  match pool.probe hash tag with
  | none => none
  | some slot => if (pool.hashTable slot).isEmpty then none else some (pool.hashTable slot).bufId

end

end

def pinBuffer (bufId : Nat) : BufferPool P :=
  if bufId < pool.nBuffers then
    let desc := pool.descriptors bufId
    pool.setDesc bufId { desc with
      refcount := desc.refcount + 1
      usageCount :=
        if desc.usageCount < kMaxUsageCount then desc.usageCount + 1 else desc.usageCount }
  else pool

def unpinBuffer (bufId : Nat) : BufferPool P :=
  if bufId < pool.nBuffers then
    let desc := pool.descriptors bufId
    pool.setDesc bufId { desc with refcount := desc.refcount - 1 }
  else pool

/-- The loop of the clock sweep over the given steps. -/
def clockSweep (nBuffers start : Nat) :
    List Nat → (Nat → BufferDesc) → (Nat → BufferDesc) × Option Nat
  | [], descriptors => (descriptors, none)
  | step :: rest, descriptors =>
    let bufId := (start + step) % nBuffers
    let desc := descriptors bufId
    if desc.refcount = 0 then
      if 0 < desc.usageCount then
        clockSweep nBuffers start rest (update descriptors bufId
          { desc with usageCount := desc.usageCount - 1 })
      else (descriptors, some bufId)
    else clockSweep nBuffers start rest descriptors

/-- `FindVictimBuffer`: the pool afterwards and the victim, `none` for -1. -/
def findVictimBuffer : BufferPool P × Option Nat :=
  match pool.firstFree with
  | some victim =>
    let desc := pool.descriptors victim
    ({ pool.setDesc victim { desc with freeNext := none } with
        firstFree := desc.freeNext }, some victim)
  | none =>
    match clockSweep pool.nBuffers pool.clockHand
        (List.range (pool.nBuffers * 2)) pool.descriptors with
    | (descriptors, none) => ({ pool with descriptors := descriptors }, none)
    | (descriptors, some victim) =>
      ({ pool with
          descriptors := descriptors, clockHand := (victim + 1) % pool.nBuffers }, some victim)

/-- `InsertBuffer`: the pool afterwards, and whether the hash table had a slot
for the tag. -/
def insertBuffer (hash : BufferTag → Nat) (pool : BufferPool P)
    (tag : BufferTag) (victim : Nat) : BufferPool P × Bool :=
  let desc := pool.descriptors victim
  let pool :=
    if desc.tagged then pool.hashTableDelete hash desc.tag else pool
  let pool := pool.setDesc victim
    { tag := tag, dirty := desc.dirty, valid := false, tagged := true
      refcount := 1, usageCount := 1, freeNext := none }
  match pool.hashTableInsert hash tag victim with
  | none => (pool, false)
  | some pool => (pool, true)

end BufferPool

end Pgcpp.Storage
