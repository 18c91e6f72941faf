import Pgcpp.Lib.ByteMem

/-!
# The shared-memory queue

A queue is a ring buffer with a position to read and one to write.  Each moves
around the ring on its own, and a transfer that goes past the end of the buffer
is made in two parts.
-/

namespace Pgcpp.Storage

open Lib ByteMem List

inductive ShmMqResult where
  | success
  | wouldBlock
  | detached
  deriving DecidableEq

structure ShmMq where
  buffer : ByteMem
  size : Nat
  readPos : Nat
  writePos : Nat
  bytesQueued : Nat

namespace ShmMq

def create (size : Nat) : ShmMq :=
  { buffer := fun _ => 0, size := size, readPos := 0, writePos := 0, bytesQueued := 0 }

/-- How `Send` and `Receive` move their positions. -/
def advance (size pos nbytes : Nat) : Nat :=
  let firstChunk := min nbytes (size - pos)
  if firstChunk < nbytes then nbytes - firstChunk
  else if pos + firstChunk = size then 0 else pos + firstChunk

def send (mq : ShmMq) (data : List UInt8) (nonBlocking : Bool) : ShmMqResult × ShmMq :=
  if mq.size = 0 then (.detached, mq)
  else if mq.size < mq.bytesQueued + data.length ∧ nonBlocking then (.wouldBlock, mq)
  else
    let nbytes := min data.length (mq.size - mq.bytesQueued)
    let firstChunk := min nbytes (mq.size - mq.writePos)
    let first := mq.buffer.store mq.writePos (data.take firstChunk)
    (.success, { mq with
      buffer := if firstChunk < nbytes then first.store 0 ((data.take nbytes).drop firstChunk)
        else first
      writePos := advance mq.size mq.writePos nbytes
      bytesQueued := mq.bytesQueued + nbytes })

/-- The received bytes are given back, and their number is `*received`. -/
def receive (mq : ShmMq) (nbytes : Nat) (nonBlocking : Bool) : (ShmMqResult × List UInt8) × ShmMq :=
  if mq.bytesQueued = 0 then ((if nonBlocking then .wouldBlock else .success, []), mq)
  else
    let toRead := min nbytes mq.bytesQueued
    let firstChunk := min toRead (mq.size - mq.readPos)
    let first := mq.buffer.slice mq.readPos firstChunk
    ((.success, if firstChunk < toRead then first ++ mq.buffer.slice 0 (toRead - firstChunk)
        else first), { mq with
        readPos := advance mq.size mq.readPos toRead
        bytesQueued := mq.bytesQueued - toRead })

theorem advance_eq {size : Nat} (inside : pos < size) (fits : nbytes ≤ size) :
    advance size pos nbytes = (pos + nbytes) % size := by
  have place := mod_cases (show pos + nbytes < 2 * size by omega)
  simp only [advance]
  split_ifs <;> omega

def contents (mq : ShmMq) : List UInt8 := ring mq.buffer mq.size mq.readPos mq.bytesQueued

structure Valid (mq : ShmMq) : Prop where
  fits : mq.bytesQueued ≤ mq.size
  inside : 0 < mq.size → mq.readPos < mq.size
  written : 0 < mq.size → mq.writePos = (mq.readPos + mq.bytesQueued) % mq.size

theorem Valid.send {mq : ShmMq} (valid : mq.Valid) (data : List UInt8) :
    (mq.send data true).2.Valid ∧ (mq.send data true).2.size = mq.size ∧
      (mq.send data true).2.contents =
        mq.contents ++ if (mq.send data true).1 = .success then data else [] := by
  rw [ShmMq.send]
  by_cases empty : mq.size = 0
  · rw [if_pos empty]
    exact ⟨valid, rfl, (append_nil _).symm⟩
  rw [if_neg empty]
  by_cases full : mq.size < mq.bytesQueued + data.length ∧ true
  · rw [if_pos full]
    exact ⟨valid, rfl, (append_nil _).symm⟩
  have inside := valid.inside (by omega)
  have written := valid.written (by omega)
  have room : mq.bytesQueued + data.length ≤ mq.size := by simpa using full
  have queued := mod_cases (show mq.readPos + mq.bytesQueued < 2 * mq.size by omega)
  rw [if_neg full, min_eq_left (show data.length ≤ mq.size - mq.bytesQueued by omega)]
  dsimp only
  rw [advance_eq (by omega) (by omega), take_length, if_pos rfl]
  refine ⟨⟨room, fun _ => inside, fun _ => ?_⟩, rfl, ?_⟩
  · rw [written, Nat.mod_add_mod, Nat.add_assoc]
  rw [contents, ring_add, ← written]
  dsimp only
  -- The bytes of the queue are outside of the parts that are written.
  have outside : ∀ index < mq.bytesQueued, (mq.readPos + index) % mq.size < mq.writePos ∧
      mq.writePos + data.length - mq.size ≤ (mq.readPos + index) % mq.size ∨
      mq.writePos + data.length ≤ (mq.readPos + index) % mq.size := by
    intro index low
    have place := mod_cases (show mq.readPos + index < 2 * mq.size by omega)
    omega
  split_ifs with wraps
  · rw [min_eq_right (by omega)]
    have second : (data.drop (mq.size - mq.writePos)).length =
        data.length - (mq.size - mq.writePos) := length_drop
    have first : (data.take (mq.size - mq.writePos)).length = mq.size - mq.writePos :=
      length_take_of_le (by omega)
    congr 1
    · rw [ring_store_of_disjoint, ring_store_of_disjoint]
      · rfl
      all_goals
        intro index low
        have := outside index low
        omega
    · rw [ring_wrap (by omega) (by omega) (by omega), slice_store_of_disjoint, ← second,
        slice_store_self]
      · nth_rewrite 2 [← first]
        rw [slice_store_self, take_append_drop]
      · omega
  · rw [min_eq_left (by omega), take_length]
    congr 1
    · apply ring_store_of_disjoint
      intro index low
      have := outside index low
      omega
    · rw [ring_eq_slice _ (by omega), slice_store_self]

theorem Valid.receive {mq : ShmMq} (valid : mq.Valid) (nbytes : Nat) :
    (mq.receive nbytes true).2.Valid ∧ (mq.receive nbytes true).2.size = mq.size ∧
      (mq.receive nbytes true).1.2 ++ (mq.receive nbytes true).2.contents = mq.contents := by
  rw [ShmMq.receive]
  by_cases empty : mq.bytesQueued = 0
  · rw [if_pos empty]
    exact ⟨valid, rfl, rfl⟩
  have fits := valid.fits
  have inside := valid.inside (by omega)
  obtain ⟨rest, split⟩ := Nat.exists_eq_add_of_le (min_le_right nbytes mq.bytesQueued)
  generalize min nbytes mq.bytesQueued = toRead at split ⊢
  rw [if_neg empty]
  dsimp only
  rw [advance_eq inside (by omega), split, Nat.add_sub_cancel_left]
  refine ⟨⟨show rest ≤ mq.size by omega, fun pos => Nat.mod_lt _ pos, fun pos => ?_⟩, rfl, ?_⟩
  · rw [valid.written pos, split, Nat.mod_add_mod, Nat.add_assoc]
  rw [contents, contents, split, ring_add]
  congr 1
  split_ifs with wraps
  · rw [ring_wrap inside (by omega) (by omega), min_eq_right (by omega)]
  · rw [ring_eq_slice _ (by omega), min_eq_left (by omega)]

inductive Call where
  | send (data : List UInt8)
  | receive (nbytes : Nat)

/-- A queue with the bytes of the successful calls. -/
structure Stream where
  mq : ShmMq
  accepted : List UInt8
  received : List UInt8

def Stream.step (stream : Stream) : Call → Stream
  | .send data =>
    { stream with
      mq := (stream.mq.send data true).2
      accepted := stream.accepted ++
        if (stream.mq.send data true).1 = .success then data else [] }
  | .receive nbytes =>
    { stream with
      mq := (stream.mq.receive nbytes true).2
      received := stream.received ++ (stream.mq.receive nbytes true).1.2 }

def Stream.run (size : Nat) (calls : List Call) : Stream :=
  calls.foldl Stream.step { mq := create size, accepted := [], received := [] }

def Stream.Fifo (size : Nat) (stream : Stream) : Prop :=
  stream.received ++ stream.mq.contents = stream.accepted ∧ stream.mq.Valid ∧ stream.mq.size = size

theorem Stream.Fifo.step {size : Nat} {stream : Stream} (fifo : stream.Fifo size) (call : Call) :
    (stream.step call).Fifo size := by
  obtain ⟨same, valid, sized⟩ := fifo
  cases call with
  | send data =>
    obtain ⟨validAfter, sizeAfter, appended⟩ := valid.send data
    refine ⟨?_, validAfter, sizeAfter.trans sized⟩
    rw [Stream.step, appended, ← append_assoc, same]
  | receive nbytes =>
    obtain ⟨validAfter, sizeAfter, split⟩ := valid.receive nbytes
    refine ⟨?_, validAfter, sizeAfter.trans sized⟩
    rw [Stream.step, append_assoc, split, same]

theorem shmMq_fifo (size : Nat) (calls : List Call) : let stream := Stream.run size calls
    stream.received ++ stream.mq.contents = stream.accepted ∧
      stream.mq.contents.length = stream.mq.bytesQueued ∧ stream.mq.bytesQueued ≤ size := by
  have fifo : (Stream.run size calls).Fifo size := by
    apply foldlRecOn (motive := Stream.Fifo size) calls
    · exact ⟨rfl, ⟨Nat.zero_le _, fun pos => pos, fun _ => (Nat.zero_mod _).symm⟩, rfl⟩
    · intro stream fifo call _
      exact fifo.step call
  obtain ⟨same, valid, sized⟩ := fifo
  exact ⟨same, by simp [contents, ring], valid.fits.trans_eq sized⟩

end ShmMq

end Pgcpp.Storage
