import Pgcpp.Lib.LinkedChain
import Pgcpp.Storage.BufMgr
import Pgcpp.Storage.BufTable

/-!
# The invariant of the buffer pool

The hash table maps the tags of the tagged buffers to their buffers, and the
free list holds untagged buffers without pins.  Pins, flushes and the clock
sweep keep tags and links as they are; victims leave the free list, and
dropped buffers return to it.
-/

namespace Pgcpp.Storage

open Lib Function
open BufferPool hiding descriptors blocks hashTable clockHand firstFree

variable {P : Type}

/-- The free list visits `nodes` and ends, and they are free. -/
structure FreeList (pool : BufferPool P) (nodes : List Nat) : Prop where
  chain : ChainFrom (fun bufId => (pool.descriptors bufId).freeNext) pool.firstFree nodes
  unused : ∀ bufId ∈ nodes, bufId < pool.nBuffers ∧ (pool.descriptors bufId).tagged = false ∧
    (pool.descriptors bufId).refcount = 0

theorem FreeList.congr {after : BufferPool P} (list : FreeList pool nodes)
    (sameSize : after.nBuffers = pool.nBuffers) (sameHead : after.firstFree = pool.firstFree)
    (same : ∀ bufId ∈ nodes, after.descriptors bufId = pool.descriptors bufId) :
    FreeList after nodes := by
  constructor
  case chain =>
    rw [sameHead]
    apply list.chain.congr
    intro bufId mem
    rw [same bufId mem]
  case unused =>
    intro bufId mem
    rw [same bufId mem, sameSize]
    exact list.unused bufId mem

structure Coherent (hash : BufferTag → Nat) (pool : BufferPool P) : Prop where
  table : TableCoherent hash pool (fun _ => True)
  freeList : ∃ nodes, FreeList pool nodes

theorem initFreeList_chain (nBuffers count start : Nat) (ends : start + count = nBuffers) :
    ChainFrom (fun bufId => if bufId + 1 < nBuffers then some (bufId + 1) else none)
      (if start < nBuffers then some start else none) (List.range' start count) := by
  induction count generalizing start with
  | zero =>
    rw [if_neg (by omega)]
    exact .nil
  | succ count ih =>
    rw [if_pos (by omega)]
    exact .cons (ih (start + 1) (by omega))

theorem initBufferPool_coherent [Zero P] {hash : BufferTag → Nat} (nBuffers : Nat) :
    Coherent hash (initBufferPool nBuffers : BufferPool P) := by
  refine ⟨⟨?_, ?_, ?_⟩, List.range' 0 nBuffers, ?_, ?_⟩
  · intro slot _ occupied
    exact nomatch occupied
  · intro slot _ occupied
    exact nomatch occupied
  · intro bufId _ _ tagged
    exact nomatch tagged
  · exact initFreeList_chain nBuffers nBuffers 0 (zero_add _)
  intro bufId mem
  obtain ⟨_, bound⟩ := List.mem_range'_1.1 mem
  exact ⟨by simpa [initBufferPool] using bound, rfl, rfl⟩

/-! ## Changes of pins, usage counts and flags -/

/-- A descriptor with the same tag and link; if it has no tag, it got no
pins. -/
structure SameTag (before after : BufferDesc) : Prop where
  tag : after.tag = before.tag
  tagged : after.tagged = before.tagged
  freeNext : after.freeNext = before.freeNext
  refcount : before.tagged = false → after.refcount ≤ before.refcount

/-- Changes that concern neither the hash table nor the free list. -/
structure Quiet (before after : BufferPool P) : Prop where
  nBuffers : after.nBuffers = before.nBuffers
  hashTable : after.hashTable = before.hashTable
  firstFree : after.firstFree = before.firstFree
  descriptors : ∀ bufId, SameTag (before.descriptors bufId) (after.descriptors bufId)

theorem SameTag.refl (desc : BufferDesc) : SameTag desc desc := ⟨rfl, rfl, rfl, fun _ => le_rfl⟩

theorem SameTag.trans (left : SameTag first second) (right : SameTag second third) :
    SameTag first third := by
  refine ⟨right.tag.trans left.tag, right.tagged.trans left.tagged,
    right.freeNext.trans left.freeNext, ?_⟩
  intro untagged
  have later := right.refcount (left.tagged.trans untagged)
  exact later.trans (left.refcount untagged)

namespace Quiet

theorem refl (pool : BufferPool P) : Quiet pool pool := ⟨rfl, rfl, rfl, fun _ => SameTag.refl _⟩

theorem trans (left : Quiet first second) (right : Quiet second third) : Quiet first third := by
  refine ⟨right.nBuffers.trans left.nBuffers, right.hashTable.trans left.hashTable,
    right.firstFree.trans left.firstFree, ?_⟩
  intro bufId
  exact (left.descriptors bufId).trans (right.descriptors bufId)

theorem setDesc (same : SameTag (pool.descriptors bufId) desc) :
    Quiet pool (pool.setDesc bufId desc) := by
  refine ⟨rfl, rfl, rfl, ?_⟩
  intro other
  by_cases here : other = bufId
  · subst here
    rw [setDesc_self]
    exact same
  · rw [setDesc_of_ne pool here]
    exact SameTag.refl _

theorem table {hash : BufferTag → Nat} {domain : Nat → Prop}
    (quiet : Quiet before after) (table : TableCoherent hash before domain) :
    TableCoherent hash after domain := by
  apply table.congr quiet.nBuffers quiet.hashTable
  intro bufId _
  exact ⟨(quiet.descriptors bufId).tagged, (quiet.descriptors bufId).tag⟩

theorem freeList (quiet : Quiet before after)
    (list : FreeList before nodes) : FreeList after nodes := by
  constructor
  case chain =>
    rw [quiet.firstFree]
    apply list.chain.congr
    intro bufId _
    exact (quiet.descriptors bufId).freeNext
  case unused =>
    intro bufId mem
    obtain ⟨_, untagged, _⟩ := list.unused bufId mem
    have same := quiet.descriptors bufId
    refine ⟨?_, same.tagged.trans untagged, ?_⟩
    · rwa [quiet.nBuffers]
    · have fewer := same.refcount untagged
      omega

theorem coherent {hash : BufferTag → Nat} (quiet : Quiet before after)
    (coherent : Coherent hash before) : Coherent hash after := by
  obtain ⟨nodes, list⟩ := coherent.freeList
  exact ⟨quiet.table coherent.table, nodes, quiet.freeList list⟩

end Quiet

theorem unpinBuffer_quiet (pool : BufferPool P) (bufId : Nat) :
    Quiet pool (pool.unpinBuffer bufId) := by
  unfold unpinBuffer
  split
  · exact Quiet.setDesc ⟨rfl, rfl, rfl, fun _ => Nat.sub_le ..⟩
  · exact Quiet.refl pool

theorem pinBuffer_quiet (tagged : bufId < pool.nBuffers →
      (pool.descriptors bufId).tagged) : Quiet pool (pool.pinBuffer bufId) := by
  unfold pinBuffer
  split
  next bound =>
    refine Quiet.setDesc ⟨rfl, rfl, rfl, ?_⟩
    intro untagged
    rw [tagged bound] at untagged
    exact nomatch untagged
  next => exact Quiet.refl pool

namespace BufferState

theorem writePage_quiet (state : BufferState P) (bufId : Nat) (page : P) :
    Quiet state.pool (state.writePage bufId page).pool := by
  unfold writePage markBufferDirty
  have written : Quiet state.pool { state.pool with
      blocks := update state.pool.blocks bufId page } :=
    ⟨rfl, rfl, rfl, fun _ => SameTag.refl _⟩
  split
  · exact written.trans (Quiet.setDesc ⟨rfl, rfl, rfl, fun _ => le_rfl⟩)
  · exact written

theorem writePage_eq {state : BufferState P} (bound : bufId < state.pool.nBuffers) :
    state.writePage bufId page = { state with
      pool := { state.pool with
        blocks := update state.pool.blocks bufId page }.setDesc
          bufId { state.pool.descriptors bufId with dirty := true } } := by
  unfold writePage markBufferDirty
  rw [if_pos bound]
  rfl

theorem forBuffers_keeps (Keeps : BufferState P → Prop)
    (round : ∀ state bufId, Keeps state → Keeps (body state bufId).1) (initially : Keeps state) :
    Keeps (forBuffers body bufIds state).1 := by
  induction bufIds generalizing state with
  | nil => exact initially
  | cons bufId _ ih =>
    have once := round state bufId initially
    unfold forBuffers
    split
    next after outcome =>
      rw [outcome] at once
      exact once
    next after outcome =>
      rw [outcome] at once
      exact ih once

variable [Zero P]

theorem flushBuffer_cases (state : BufferState P) (bufId : Nat) :
    (state.flushBuffer bufId = (state, true) ∧ ¬(bufId < state.pool.nBuffers ∧
        (state.pool.descriptors bufId).valid ∧
        (state.pool.descriptors bufId).dirty)) ∨
    state.flushBuffer bufId = (state, false) ∨
    ∃ disk, (bufId < state.pool.nBuffers ∧ (state.pool.descriptors bufId).valid ∧
        (state.pool.descriptors bufId).dirty) ∧
      mdwrite state.disk (state.pool.descriptors bufId).tag.rnode
        (state.pool.descriptors bufId).tag.forkNum (state.pool.descriptors bufId).tag.blockNum
        (state.pool.blocks bufId) = some disk ∧
      state.flushBuffer bufId = ({ state with disk := disk }.setDesc bufId
          { state.pool.descriptors bufId with dirty := false }, true) := by
  unfold flushBuffer
  by_cases bound : bufId < state.pool.nBuffers
  · cases valid : (state.pool.descriptors bufId).valid with
    | false => simp [valid]
    | true =>
      cases dirty : (state.pool.descriptors bufId).dirty with
      | false => simp [dirty]
      | true =>
        cases written : mdwrite state.disk
            (state.pool.descriptors bufId).tag.rnode
            (state.pool.descriptors bufId).tag.forkNum
            (state.pool.descriptors bufId).tag.blockNum
            (state.pool.blocks bufId) with
        | none => simp [bound, valid, dirty, written]
        | some disk => simp [bound, valid, dirty, written]
  · simp [bound]

theorem flushBuffer_quiet (state : BufferState P) (bufId : Nat) :
    Quiet state.pool (state.flushBuffer bufId).1.pool := by
  obtain ⟨unchanged, _⟩ | failed | ⟨_, _, _, written⟩ := flushBuffer_cases state bufId
  · rw [unchanged]
    exact Quiet.refl _
  · rw [failed]
    exact Quiet.refl _
  · rw [written]
    exact Quiet.setDesc ⟨rfl, rfl, rfl, fun _ => le_rfl⟩

section

variable (Keeps : BufferState P → Prop)
  (flush : ∀ state bufId, Keeps state → Keeps (state.flushBuffer bufId).1)

include flush

theorem flushSelected_keeps (select : BufferDesc → Bool) (initially : Keeps state) :
    Keeps (state.flushSelected select).1 := by
  apply forBuffers_keeps Keeps _ initially
  intro state bufId kept
  simp only
  split
  · exact flush state bufId kept
  · exact kept

theorem flushDirtyLoop_keeps (left : Nat) (bufIds : List Nat) (initially : Keeps state) :
    Keeps (flushDirtyLoop left bufIds state).1 := by
  induction bufIds generalizing left state with
  | nil => exact initially
  | cons bufId _ ih =>
    cases left with
    | zero => exact initially
    | succ left =>
      have once := flush state bufId initially
      unfold flushDirtyLoop
      simp only
      split
      · exact ih _ initially
      split
      · exact ih _ initially
      split
      next after outcome =>
        rw [outcome] at once
        exact once
      next after outcome =>
        rw [outcome] at once
        exact ih _ once

end

end BufferState

theorem clockSweep_spec (nBuffers start : Nat) (steps : List Nat) (descriptors : Nat → BufferDesc) :
    (∀ bufId, ∃ usageCount, (clockSweep nBuffers start steps descriptors).1 bufId =
        { descriptors bufId with usageCount := usageCount }) ∧
    ∀ victim, (clockSweep nBuffers start steps descriptors).2 = some victim →
      (0 < nBuffers → victim < nBuffers) ∧ (descriptors victim).refcount = 0 := by
  induction steps generalizing descriptors with
  | nil => exact ⟨fun _ => ⟨_, rfl⟩, by simp [clockSweep]⟩
  | cons step _ ih =>
    unfold clockSweep
    simp only
    split
    next unpinned =>
      split
      next =>
        obtain ⟨swept, stops⟩ := ih (update descriptors ((start + step) % nBuffers)
          { descriptors ((start + step) % nBuffers) with
            usageCount := (descriptors ((start + step) % nBuffers)).usageCount - 1 })
        constructor
        · intro bufId
          obtain ⟨usageCount, same⟩ := swept bufId
          refine ⟨usageCount, ?_⟩
          rw [same]
          by_cases here : bufId = (start + step) % nBuffers
          · subst here
            rw [update_self]
          · rw [update_of_ne here]
        · intro victim found
          obtain ⟨bound, free⟩ := stops victim found
          refine ⟨bound, ?_⟩
          by_cases here : victim = (start + step) % nBuffers
          · subst here
            exact unpinned
          · rwa [update_of_ne here] at free
      next =>
        refine ⟨fun _ => ⟨_, rfl⟩, ?_⟩
        intro victim found
        cases found
        exact ⟨Nat.mod_lt _, unpinned⟩
    next => exact ih descriptors

/-- `victim` was taken from the free list or found by the clock sweep. -/
structure VictimOf (pool after : BufferPool P) (victim : Nat) : Prop where
  bound : victim < pool.nBuffers
  unpinned : (pool.descriptors victim).refcount = 0
  swept : (pool.descriptors victim).tagged → pool.firstFree = none
  nBuffers : after.nBuffers = pool.nBuffers
  hashTable : after.hashTable = pool.hashTable
  blocks : after.blocks = pool.blocks
  descriptors : ∀ bufId, ∃ usageCount freeNext, after.descriptors bufId =
    { pool.descriptors bufId with
      usageCount := usageCount, freeNext := freeNext }
  freeList : ∃ rest, FreeList after rest ∧ victim ∉ rest

theorem victimOf_firstFree (free : ∃ nodes, FreeList pool nodes)
    (head : pool.firstFree = some victim) : VictimOf pool
      { pool.setDesc victim { pool.descriptors victim with freeNext := none } with
        firstFree := (pool.descriptors victim).freeNext } victim := by
  obtain ⟨nodes, list⟩ := free
  have chain := list.chain
  have distinct := chain.nodup
  rw [head] at chain
  cases chain with
  | @cons _ rest later =>
    have apart : victim ∉ rest := (List.nodup_cons.1 distinct).1
    obtain ⟨bound, untagged, unpinned⟩ := list.unused victim (by simp)
    refine ⟨bound, unpinned, ?_, rfl, rfl, rfl, ?_, rest, ⟨?_, ?_⟩, apart⟩
    · intro tagged
      rw [untagged] at tagged
      exact nomatch tagged
    · intro bufId
      by_cases here : bufId = victim
      · subst here
        exact ⟨_, none, setDesc_self ..⟩
      · exact ⟨_, _, setDesc_of_ne pool here _⟩
    · apply later.congr
      intro bufId mem
      have ne : bufId ≠ victim := fun same => apart (same ▸ mem)
      exact congrArg BufferDesc.freeNext (setDesc_of_ne pool ne _)
    intro bufId mem
    have ne : bufId ≠ victim := fun same => apart (same ▸ mem)
    have same := setDesc_of_ne pool ne { pool.descriptors victim with freeNext := none }
    simp only [same]
    exact list.unused bufId (List.mem_cons_of_mem _ mem)

theorem victimOf_clockSweep (free : ∃ nodes, FreeList pool nodes) (head : pool.firstFree = none)
    (sweep : clockSweep pool.nBuffers pool.clockHand
      (List.range (pool.nBuffers * 2)) pool.descriptors = (descriptors, some victim)) :
    VictimOf pool { pool with
        descriptors := descriptors, clockHand := (victim + 1) % pool.nBuffers } victim := by
  obtain ⟨swept, stops⟩ := clockSweep_spec pool.nBuffers pool.clockHand
    (List.range (pool.nBuffers * 2)) pool.descriptors
  rw [sweep] at swept stops
  obtain ⟨bound, unpinned⟩ := stops victim rfl
  have pos : 0 < pool.nBuffers := by
    by_contra none
    obtain empty : pool.nBuffers = 0 := by omega
    simp [empty, clockSweep] at sweep
  obtain ⟨nodes, list⟩ := free
  have chain := list.chain
  rw [head] at chain
  cases chain with
  | nil =>
    refine ⟨bound pos, unpinned, fun _ => head, rfl, rfl, rfl, ?_, [], ⟨?_, by simp⟩, by simp⟩
    · intro bufId
      obtain ⟨usageCount, same⟩ := swept bufId
      exact ⟨usageCount, _, same⟩
    · simp only [head]
      exact .nil

/-- `FindVictimBuffer` returns an unpinned buffer that is not on the free
list any more. -/
theorem victimOf_findVictimBuffer (free : ∃ nodes, FreeList pool nodes)
    (found : pool.findVictimBuffer = (after, some victim)) : VictimOf pool after victim := by
  unfold findVictimBuffer at found
  cases head : pool.firstFree with
  | some first =>
    simp only [head] at found
    cases found
    exact victimOf_firstFree free head
  | none =>
    simp only [head] at found
    split at found
    next => simp at found
    next descriptors first sweep =>
      cases found
      have stopped := victimOf_clockSweep free head sweep
      rw [head] at stopped
      exact stopped

theorem findVictimBuffer_quiet (missing : pool.findVictimBuffer = (after, none)) :
    Quiet pool after := by
  unfold findVictimBuffer at missing
  cases head : pool.firstFree with
  | some _ => simp [head] at missing
  | none =>
    simp only [head] at missing
    split at missing
    next descriptors sweep =>
      obtain ⟨swept, _⟩ := clockSweep_spec pool.nBuffers pool.clockHand
        (List.range (pool.nBuffers * 2)) pool.descriptors
      rw [sweep] at swept
      cases missing
      refine ⟨rfl, rfl, head.symm, ?_⟩
      intro bufId
      obtain ⟨_, same⟩ := swept bufId
      simp only at same ⊢
      rw [same]
      exact ⟨rfl, rfl, rfl, fun _ => le_rfl⟩
    next => simp at missing

/-- The invariant while `victim` is about to get a tag that has no entry. -/
structure Evictable (hash : BufferTag → Nat) (tag : BufferTag) (victim : Nat)
    (pool : BufferPool P) : Prop where
  table : TableCoherent hash pool (fun _ => True)
  freeList : ∃ rest, FreeList pool rest ∧ victim ∉ rest
  bound : victim < pool.nBuffers
  absent : ∀ slot < pool.hashTableSize,
    (pool.hashTable slot).isEmpty = false → (pool.hashTable slot).tag ≠ tag
  safe : (pool.descriptors victim).tagged → DeletionSafe hash pool (· = victim)

section

variable {hash : BufferTag → Nat} {pool : BufferPool P}

theorem VictimOf.evictable (found : VictimOf pool after victim) (coherent : Coherent hash pool)
    (missing : pool.lookupBuffer hash tag = none)
    (safe : pool.firstFree = none → DeletionSafe hash pool
      fun bufId => (pool.descriptors bufId).refcount = 0) : Evictable hash tag victim after := by
  have sameSlots := hashTableSize_congr found.nBuffers
  refine ⟨?_, found.freeList, ?_, ?_, ?_⟩
  · apply coherent.table.congr found.nBuffers found.hashTable
    intro bufId _
    obtain ⟨_, _, same⟩ := found.descriptors bufId
    rw [same]
    exact ⟨rfl, rfl⟩
  · rw [found.nBuffers]
    exact found.bound
  · rw [sameSlots, found.hashTable]
    intro slot inside occupied
    exact coherent.table.tag_ne_of_lookup_none missing inside occupied
  intro tagged
  obtain ⟨_, _, same⟩ := found.descriptors victim
  rw [same] at tagged
  apply (safe (found.swept tagged)).of_fewer found.nBuffers
  · intro slot _
    rw [found.hashTable]
  intro slot _ _ isVictim
  rw [isVictim]
  exact found.unpinned

theorem Evictable.coherent (evictable : Evictable hash tag victim pool) : Coherent hash pool := by
  obtain ⟨rest, list, _⟩ := evictable.freeList
  exact ⟨evictable.table, rest, list⟩

theorem Quiet.evictable (quiet : Quiet pool after) (evictable : Evictable hash tag victim pool) :
    Evictable hash tag victim after := by
  obtain ⟨rest, list, apart⟩ := evictable.freeList
  have sameSlots := hashTableSize_congr quiet.nBuffers
  refine ⟨quiet.table evictable.table, ⟨rest, quiet.freeList list, apart⟩, ?_, ?_, ?_⟩
  · rw [quiet.nBuffers]
    exact evictable.bound
  · rw [sameSlots, quiet.hashTable]
    exact evictable.absent
  intro tagged
  rw [(quiet.descriptors victim).tagged] at tagged
  apply (evictable.safe tagged).of_fewer quiet.nBuffers
  · intro _ _
    rw [quiet.hashTable]
  · exact fun _ _ _ same => same

/-- The descriptor `InsertBuffer` leaves. -/
def insertedDesc (desc : BufferDesc) (tag : BufferTag) : BufferDesc :=
  { tag := tag, dirty := desc.dirty, valid := false, tagged := true
    refcount := 1, usageCount := 1, freeNext := none }

theorem Evictable.insertBuffer (evictable : Evictable hash tag victim pool) :
    ∃ hashTable, pool.insertBuffer hash tag victim =
        ({ pool with hashTable := hashTable }.setDesc victim
          (insertedDesc (pool.descriptors victim) tag), true) ∧
      Coherent hash ({ pool with hashTable := hashTable }.setDesc victim
        (insertedDesc (pool.descriptors victim) tag)) := by
  obtain ⟨rest, list, apart⟩ := evictable.freeList
  obtain ⟨fewer, removed, kept, without⟩ :=
    evictable.table.remove evictable.bound trivial evictable.safe
  have prepared : TableCoherent hash ({ pool with hashTable := fewer }.setDesc victim
        (insertedDesc (pool.descriptors victim) tag))
      (fun other => True ∧ other ≠ victim) := by
    refine without.congr rfl rfl ?_
    intro bufId ne
    rw [setDesc_of_ne _ ne.2]
    exact ⟨rfl, rfl⟩
  have tagOf : (({ pool with hashTable := fewer }.setDesc victim
      (insertedDesc (pool.descriptors victim) tag)).descriptors victim).tag = tag := by
    rw [setDesc_self]
    rfl
  have missing : ∀ slot < pool.hashTableSize,
      (fewer slot).isEmpty = false → (fewer slot).tag ≠ tag := by
    intro slot inside occupied
    have same := kept slot occupied
    rw [same] at occupied ⊢
    exact evictable.absent slot inside occupied
  obtain ⟨hashTable, inserted, complete⟩ := prepared.insert evictable.bound
    (by rw [setDesc_self]; rfl) (by rw [tagOf]; exact missing)
  rw [tagOf] at inserted
  refine ⟨hashTable, ?_, complete, rest, list.congr rfl rfl ?_⟩
  · unfold BufferPool.insertBuffer
    simp only [removed]
    simp only [insertedDesc] at inserted ⊢
    rw [inserted]
    rfl
  · intro bufId mem
    have ne : bufId ≠ victim := fun same => apart (same ▸ mem)
    exact setDesc_of_ne _ ne _

/-- The pool after a page was read into `victim`. -/
def BufferPool.filled (pool : BufferPool P) (victim : Nat) (page : P) : BufferPool P :=
  { pool.setDesc victim { pool.descriptors victim with valid := true } with
    blocks := update pool.blocks victim page }

theorem filled_self (pool : BufferPool P) (victim : Nat) (page : P) :
    (pool.filled victim page).descriptors victim = { pool.descriptors victim with valid := true } :=
  setDesc_self ..

theorem filled_quiet (pool : BufferPool P) (victim : Nat) (page : P) :
    Quiet pool (pool.filled victim page) := by
  have set : Quiet pool (pool.setDesc victim { pool.descriptors victim with valid := true }) :=
    Quiet.setDesc ⟨rfl, rfl, rfl, fun _ => le_rfl⟩
  exact ⟨set.nBuffers, set.hashTable, set.firstFree, set.descriptors⟩

/-- The steps of `ReadBuffer` from the victim on: the read may fail when the
buffer already has the tag. -/
theorem Evictable.readInto [Zero P] {state : BufferState P}
    (evictable : Evictable hash tag victim state.pool) (mode : ReadBufferMode) :
    ∃ hashTable, ∃ inserted : BufferPool P,
      inserted = { state.pool with hashTable := hashTable }.setDesc victim
        (insertedDesc (state.pool.descriptors victim) tag) ∧
      Coherent hash inserted ∧
      (state.readInto hash mode tag victim = ({ state with pool := inserted }, none) ∨
        ∃ page, (mode ≠ .zero → mdread state.disk tag.rnode tag.forkNum tag.blockNum = some page) ∧
          state.readInto hash mode tag victim =
            ({ state with pool := inserted.filled victim page }, some victim)) := by
  obtain ⟨hashTable, insert, coherent⟩ := evictable.insertBuffer
  refine ⟨hashTable, _, rfl, coherent, ?_⟩
  unfold BufferState.readInto
  rw [insert]
  by_cases zero : mode = .zero
  · right
    refine ⟨0, fun notZero => absurd zero notZero, ?_⟩
    simp only [if_pos zero]
    rfl
  · simp only [if_neg zero]
    cases mdread state.disk tag.rnode tag.forkNum tag.blockNum with
    | none => exact .inl rfl
    | some page => exact .inr ⟨page, fun _ => rfl, rfl⟩

variable [Zero P] {state : BufferState P}

theorem writeBack_quiet (state : BufferState P) (victim : Nat) :
    Quiet state.pool (state.writeBack victim).1.pool := by
  unfold BufferState.writeBack
  simp only
  split
  · exact state.flushBuffer_quiet victim
  · exact Quiet.refl _

theorem readBuffer_of_miss (coherent : Coherent hash state.pool)
    (missing : state.pool.lookupBuffer hash tag = none)
    (safe : state.pool.firstFree = none → DeletionSafe hash state.pool
      fun bufId => (state.pool.descriptors bufId).refcount = 0) :
    (∃ pool, Quiet state.pool pool ∧ state.readBuffer hash mode tag =
      ({ state with pool := pool }, none)) ∨
    ∃ pool victim ready, VictimOf state.pool pool victim ∧
      (({ state with pool := pool }.writeBack victim = (ready, false) ∧
          state.readBuffer hash mode tag = (ready, none)) ∨
        ({ state with pool := pool }.writeBack victim = (ready, true) ∧
          state.readBuffer hash mode tag = ready.readInto hash mode tag victim)) ∧
      Evictable hash tag victim ready.pool := by
  unfold BufferState.readBuffer
  simp only [missing]
  split
  next pool outcome => exact .inl ⟨pool, findVictimBuffer_quiet outcome, rfl⟩
  next pool victim outcome =>
    right
    have found := victimOf_findVictimBuffer coherent.freeList outcome
    have evictable := found.evictable coherent missing safe
    have quiet := writeBack_quiet { state with pool := pool } victim
    split
    next ready flushed =>
      rw [flushed] at quiet
      exact ⟨pool, victim, ready, found, .inl ⟨flushed, rfl⟩, quiet.evictable evictable⟩
    next ready flushed =>
      rw [flushed] at quiet
      exact ⟨pool, victim, ready, found, .inr ⟨flushed, rfl⟩, quiet.evictable evictable⟩

theorem readBuffer_coherent (coherent : Coherent hash state.pool)
    (safe : state.pool.lookupBuffer hash tag = none →
      state.pool.firstFree = none → DeletionSafe hash state.pool
        fun bufId => (state.pool.descriptors bufId).refcount = 0) :
    Coherent hash (state.readBuffer hash mode tag).1.pool := by
  cases search : state.pool.lookupBuffer hash tag with
  | some bufId =>
    obtain ⟨_, _, tagged, _⟩ := coherent.table.tag_of_lookup search
    unfold BufferState.readBuffer
    simp only [search]
    exact (pinBuffer_quiet fun _ => tagged).coherent coherent
  | none =>
    obtain ⟨pool, quiet, result⟩ | ⟨pool, victim, _, _, ⟨_, result⟩ | ⟨_, result⟩, evictable⟩ :=
      readBuffer_of_miss coherent search (safe search)
    · rw [result]
      exact quiet.coherent coherent
    · rw [result]
      exact evictable.coherent
    obtain ⟨_, inserted, _, kept, failed | ⟨page, _, read⟩⟩ := evictable.readInto mode
    · rw [result, failed]
      exact kept
    · rw [result, read]
      exact (filled_quiet inserted victim page).coherent kept

end

end Pgcpp.Storage
