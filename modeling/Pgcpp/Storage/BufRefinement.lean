import Pgcpp.Lib.Transition
import Pgcpp.Storage.BufPoolInvariant

/-!
# The buffer pool as a flat page store

The store maps every tag to the page last written to it.  A buffer pool refines
it: the buffers hold the pages of the store, and the disk holds the pages that
no dirty buffer has.  Tags are in scope when they can be stored in the hash
table and their file belongs to one tablespace, since the files of different
tablespaces are not kept apart.
-/

namespace Pgcpp.Storage

open Function BufferPool

variable {P : Type}

/-- Tags with a valid block number, whose relation is in the one tablespace its
files belong to. -/
def InScope (tablespaceOf : Nat → Nat → Nat) (tag : BufferTag) : Prop :=
  tag.blockNum ≠ kInvalidBlockNumber ∧
  tag.rnode.spcNode = tablespaceOf tag.rnode.dbNode tag.rnode.relNode

instance (tablespaceOf : Nat → Nat → Nat) (tag : BufferTag) :
    Decidable (InScope tablespaceOf tag) :=
  inferInstanceAs (Decidable (_ ∧ _))

/-- The buffers hold pages of the store. -/
structure Buffers (hash : BufferTag → Nat) (tablespaceOf : Nat → Nat → Nat)
    (store : BufferTag → P) (pool : BufferPool P) : Prop where
  coherent : Coherent hash pool
  free : ∀ bufId < pool.nBuffers, (pool.descriptors bufId).tagged = false →
    (pool.descriptors bufId).valid = false ∧ (pool.descriptors bufId).refcount = 0
  resident : ∀ bufId < pool.nBuffers, (pool.descriptors bufId).tagged →
    InScope tablespaceOf (pool.descriptors bufId).tag ∧ (pool.descriptors bufId).valid ∧
      pool.blocks bufId = store (pool.descriptors bufId).tag

def CleanTag (pool : BufferPool P) (tag : BufferTag) : Prop :=
  ∀ bufId < pool.nBuffers, (pool.descriptors bufId).tagged →
    (pool.descriptors bufId).tag = tag →
    (pool.descriptors bufId).dirty = false

variable {hash : BufferTag → Nat} {tablespaceOf : Nat → Nat → Nat} {store : BufferTag → P}

theorem InScope.tag_unique
    (leftIn : InScope tablespaceOf left) (rightIn : InScope tablespaceOf right)
    (opened : relpathbackend right.rnode right.forkNum = some path)
    (sameFile : relpathbackend left.rnode left.forkNum = relpathbackend right.rnode right.forkNum)
    (sameBlock : left.blockNum = right.blockNum) : left = right := by
  have leftPath := eq_of_relpathbackend (sameFile.trans opened)
  rw [eq_of_relpathbackend opened] at leftPath
  obtain ⟨sameDb, sameRel, _⟩ := ForkFile.mk.inj leftPath
  have sameSpace : left.rnode.spcNode = right.rnode.spcNode := by
    rw [leftIn.2, rightIn.2, sameDb, sameRel]
  obtain ⟨⟨_, _, _⟩, _, _⟩ := left
  obtain ⟨⟨_, _, _⟩, _, _⟩ := right
  simp_all

theorem CleanTag.of_others {pool : BufferPool P} (clean : CleanTag later tag) (bufId : Nat)
    (sameSize : later.nBuffers = pool.nBuffers)
    (same : ∀ other, other ≠ bufId → later.descriptors other = pool.descriptors other)
    (own : (pool.descriptors bufId).tagged → (pool.descriptors bufId).tag = tag →
      (pool.descriptors bufId).dirty = false) : CleanTag pool tag := by
  intro other _ tagged isTag
  by_cases here : other = bufId
  · subst here
    exact own tagged isTag
  · rw [← same other here] at tagged isTag ⊢
    exact clean other (by rwa [sameSize]) tagged isTag

/-- A descriptor for the same page in the same condition; if it has no tag,
it got no pins. -/
structure SamePage (before after : BufferDesc) : Prop where
  tag : after.tag = before.tag
  tagged : after.tagged = before.tagged
  valid : after.valid = before.valid
  refcount : before.tagged = false → after.refcount ≤ before.refcount

theorem samePage_setDesc {pool : BufferPool P} (same : SamePage (pool.descriptors bufId) desc)
    (other : Nat) :
    SamePage (pool.descriptors other) ((pool.setDesc bufId desc).descriptors other) := by
  by_cases here : other = bufId
  · subst here
    rw [setDesc_self]
    exact same
  · rw [setDesc_of_ne pool here]
    exact ⟨rfl, rfl, rfl, fun _ => le_rfl⟩

namespace Buffers

variable {pool later : BufferPool P} (buffers : Buffers hash tablespaceOf store pool)

include buffers

theorem tag_unique (leftBound : left < pool.nBuffers) (rightBound : right < pool.nBuffers)
    (leftTagged : (pool.descriptors left).tagged) (rightTagged : (pool.descriptors right).tagged)
    (same : (pool.descriptors left).tag = (pool.descriptors right).tag) : left = right :=
  buffers.coherent.table.bufId_unique leftBound rightBound trivial trivial
    leftTagged rightTagged (buffers.resident left leftBound leftTagged).1.1
    same

theorem tagged_of_valid (bound : bufId < pool.nBuffers)
    (valid : (pool.descriptors bufId).valid) : (pool.descriptors bufId).tagged := by
  cases tagged : (pool.descriptors bufId).tagged with
  | true => rfl
  | false =>
    have invalid := (buffers.free bufId bound tagged).1
    rw [valid] at invalid
    exact nomatch invalid

theorem congr (coherent : Coherent hash later) (sameSize : later.nBuffers = pool.nBuffers)
    (sameBlocks : later.blocks = pool.blocks)
    (same : ∀ bufId, SamePage (pool.descriptors bufId) (later.descriptors bufId)) :
    Buffers hash tablespaceOf store later := by
  refine ⟨coherent, ?_, ?_⟩
  · rw [sameSize]
    intro bufId bound untagged
    rw [(same bufId).tagged] at untagged
    obtain ⟨invalid, _⟩ := buffers.free bufId bound untagged
    have noMore := (same bufId).refcount untagged
    exact ⟨(same bufId).valid.trans invalid, by omega⟩
  · rw [sameSize, sameBlocks]
    intro bufId bound tagged
    rw [(same bufId).tagged] at tagged
    rw [(same bufId).tag, (same bufId).valid]
    exact buffers.resident bufId bound tagged

end Buffers

/-! ## The disk -/

variable [Zero P]

/-- The page on disk; a block that does not exist counts as zeroed. -/
def diskPage (disk : MdStorage P) (tag : BufferTag) : P :=
  (mdread disk tag.rnode tag.forkNum tag.blockNum).getD 0

/-- The buffer pool and the disk represent the store. -/
structure Refines (hash : BufferTag → Nat) (tablespaceOf : Nat → Nat → Nat)
    (store : BufferTag → P) (state : BufferState P) : Prop where
  buffers : Buffers hash tablespaceOf store state.pool
  onDisk : ∀ tag, InScope tablespaceOf tag → CleanTag state.pool tag →
    diskPage state.disk tag = store tag

theorem diskPage_of_mdwrite {page : P}
    (tagIn : InScope tablespaceOf tag) (otherIn : InScope tablespaceOf other)
    (write : mdwrite disk tag.rnode tag.forkNum tag.blockNum page = some written) :
    diskPage written other = if other = tag then page else diskPage disk other := by
  obtain ⟨_, opened⟩ : ∃ path, relpathbackend tag.rnode tag.forkNum = some path := by
    unfold mdwrite at write
    split at write
    · contradiction
    next path opened => exact ⟨path, opened⟩
  unfold diskPage
  rw [mdread_of_mdwrite write]
  apply if_congr _ rfl rfl
  constructor
  · rintro ⟨sameFile, sameBlock⟩
    exact otherIn.tag_unique tagIn opened sameFile sameBlock
  · rintro rfl
    exact ⟨rfl, rfl⟩

variable {state : BufferState P}

namespace Refines

variable (refines : Refines hash tablespaceOf store state)

include refines

theorem congr (coherent : Coherent hash after.pool)
    (sameSize : after.pool.nBuffers = state.pool.nBuffers)
    (sameBlocks : after.pool.blocks = state.pool.blocks) (sameDisk : after.disk = state.disk)
    (same : ∀ bufId, SamePage (state.pool.descriptors bufId) (after.pool.descriptors bufId))
    (sameDirty : ∀ bufId, (after.pool.descriptors bufId).dirty =
      (state.pool.descriptors bufId).dirty) : Refines hash tablespaceOf store after := by
  refine ⟨refines.buffers.congr coherent sameSize sameBlocks same, ?_⟩
  intro tag inScope clean
  rw [sameDisk]
  apply refines.onDisk tag inScope
  intro bufId _ tagged _
  rw [← sameDirty]
  apply clean bufId
  · rwa [sameSize]
  · rwa [(same bufId).tagged]
  · rwa [(same bufId).tag]

theorem flushBuffer (bufId : Nat) :
    Refines hash tablespaceOf store (state.flushBuffer bufId).1 := by
  have coherent := (state.flushBuffer_quiet bufId).coherent refines.buffers.coherent
  obtain ⟨unchanged, _⟩ | failed | ⟨disk, ⟨bound, valid, _⟩, write, written⟩ :=
    state.flushBuffer_cases bufId
  · rw [unchanged]
    exact refines
  · rw [failed]
    exact refines
  rw [written] at coherent ⊢
  have tagged := refines.buffers.tagged_of_valid bound valid
  obtain ⟨inScope, _, content⟩ := refines.buffers.resident bufId bound tagged
  constructor
  case buffers =>
    refine refines.buffers.congr coherent rfl rfl ?_
    exact samePage_setDesc ⟨rfl, rfl, rfl, fun _ => le_rfl⟩
  case onDisk =>
    intro tag tagIn clean
    change diskPage disk tag = store tag
    rw [diskPage_of_mdwrite inScope tagIn write]
    by_cases own : tag = (state.pool.descriptors bufId).tag
    · rw [if_pos own, own]
      exact content
    rw [if_neg own]
    apply refines.onDisk tag tagIn
    refine clean.of_others bufId rfl ?_ ?_
    · intro _ ne
      exact setDesc_of_ne _ ne _
    · intro _ isTag
      exact absurd isTag.symm own

theorem setDesc (same : SameTag (state.pool.descriptors bufId) desc)
    (valid : desc.valid = (state.pool.descriptors bufId).valid)
    (dirty : desc.dirty = (state.pool.descriptors bufId).dirty) :
    Refines hash tablespaceOf store { state with pool := state.pool.setDesc bufId desc } := by
  refine refines.congr ((Quiet.setDesc same).coherent refines.buffers.coherent) rfl rfl rfl
    (samePage_setDesc ⟨same.tag, same.tagged, valid, same.refcount⟩) ?_
  intro other
  by_cases here : other = bufId
  · subst here
    simpa using dirty
  · exact congrArg BufferDesc.dirty (setDesc_of_ne _ here _)

theorem pinBuffer (tagged : (state.pool.descriptors bufId).tagged) :
    Refines hash tablespaceOf store { state with pool := state.pool.pinBuffer bufId } := by
  unfold BufferPool.pinBuffer
  split
  · refine refines.setDesc ⟨rfl, rfl, rfl, ?_⟩ rfl rfl
    intro untagged
    rw [tagged] at untagged
    exact nomatch untagged
  · exact refines

theorem releaseBuffer (bufId : Nat) :
    Refines hash tablespaceOf store (state.releaseBuffer bufId) := by
  unfold BufferState.releaseBuffer unpinBuffer
  split
  · exact refines.setDesc ⟨rfl, rfl, rfl, fun _ => Nat.sub_le ..⟩ rfl rfl
  · exact refines

theorem writePage (bound : bufId < state.pool.nBuffers)
    (pinned : 0 < (state.pool.descriptors bufId).refcount) (page : P) :
    Refines hash tablespaceOf (update store (state.pool.descriptors bufId).tag page)
      (state.writePage bufId page) := by
  have coherent := (state.writePage_quiet bufId page).coherent refines.buffers.coherent
  have tagged : (state.pool.descriptors bufId).tagged := by
    cases tagged : (state.pool.descriptors bufId).tagged with
    | true => rfl
    | false =>
      have unpinned := (refines.buffers.free bufId bound tagged).2
      omega
  obtain ⟨inScope, valid, _⟩ := refines.buffers.resident bufId bound tagged
  rw [BufferState.writePage_eq bound] at coherent ⊢
  have others : ∀ other, other ≠ bufId → ({ state.pool with
        blocks := update state.pool.blocks bufId page }.setDesc
          bufId { state.pool.descriptors bufId with
            dirty := true }).descriptors other =
        state.pool.descriptors other :=
    fun other ne => setDesc_of_ne _ ne _
  refine ⟨⟨coherent, ?_, ?_⟩, ?_⟩
  · intro other otherBound untagged
    by_cases here : other = bufId
    · subst here
      rw [setDesc_self, tagged] at untagged
      exact nomatch untagged
    · rw [others other here] at untagged ⊢
      exact refines.buffers.free other otherBound untagged
  · intro other otherBound otherTagged
    by_cases here : other = bufId
    · subst here
      rw [BufferPool.setDesc_self]
      refine ⟨inScope, valid, ?_⟩
      simp [BufferPool.setDesc]
    rw [others other here] at otherTagged ⊢
    obtain ⟨otherIn, otherValid, content⟩ := refines.buffers.resident other otherBound otherTagged
    have apart : (state.pool.descriptors other).tag ≠ (state.pool.descriptors bufId).tag :=
      fun same => here (refines.buffers.tag_unique otherBound bound otherTagged tagged same)
    refine ⟨otherIn, otherValid, ?_⟩
    rw [update_of_ne apart, ← content]
    exact update_of_ne here ..
  · intro tag tagIn clean
    have apart : tag ≠ (state.pool.descriptors bufId).tag := by
      rintro rfl
      have dirty := clean bufId bound
      rw [setDesc_self] at dirty
      exact Bool.noConfusion (dirty tagged rfl)
    rw [update_of_ne apart]
    apply refines.onDisk tag tagIn
    refine clean.of_others bufId rfl others ?_
    intro _ isTag
    exact absurd isTag.symm apart

theorem victim {pool : BufferPool P} {victim : Nat} (found : VictimOf state.pool pool victim)
    (coherent : Coherent hash pool) :
    Refines hash tablespaceOf store { state with pool := pool } := by
  refine refines.congr coherent found.nBuffers found.blocks rfl ?_ ?_
  · intro bufId
    obtain ⟨_, _, same⟩ := found.descriptors bufId
    simp only [same]
    exact ⟨rfl, rfl, rfl, fun _ => le_rfl⟩
  · intro bufId
    obtain ⟨_, _, same⟩ := found.descriptors bufId
    simp [same]

theorem writeBack {victim : Nat} (bound : victim < state.pool.nBuffers)
    (flushed : state.writeBack victim = (ready, true)) :
    Refines hash tablespaceOf store ready ∧ ((ready.pool.descriptors victim).tagged →
        (ready.pool.descriptors victim).dirty = false) := by
  have kept := refines.flushBuffer victim
  unfold BufferState.writeBack at flushed
  simp only at flushed
  split at flushed
  next selected =>
    rw [flushed] at kept
    refine ⟨kept, fun _ => ?_⟩
    obtain ⟨_, idle⟩ | failed | ⟨_, _, _, written⟩ := state.flushBuffer_cases victim
    · obtain ⟨⟨_, dirty⟩, valid⟩ : (_ ∧ _) ∧ _ := by simpa using selected
      exact absurd ⟨bound, valid, dirty⟩ idle
    · rw [failed] at flushed
      exact absurd (congrArg Prod.snd flushed) Bool.false_ne_true
    rw [written] at flushed
    obtain rfl := congrArg Prod.fst flushed
    exact congrArg BufferDesc.dirty (setDesc_self ..)
  next notSelected =>
    cases flushed
    refine ⟨refines, ?_⟩
    intro tagged
    have valid := (refines.buffers.resident victim bound tagged).2.1
    simpa [tagged, valid] using notSelected

theorem replace {victim : Nat} (clean : (state.pool.descriptors victim).tagged →
      (state.pool.descriptors victim).dirty = false) (coherent : Coherent hash after.pool)
    (sameSize : after.pool.nBuffers = state.pool.nBuffers) (sameDisk : after.disk = state.disk)
    (others : ∀ other, other ≠ victim →
      after.pool.descriptors other = state.pool.descriptors other ∧
      after.pool.blocks other = state.pool.blocks other)
    (tagged : (after.pool.descriptors victim).tagged)
    (valid : (after.pool.descriptors victim).valid)
    (inScope : InScope tablespaceOf (after.pool.descriptors victim).tag)
    (content : after.pool.blocks victim = store (after.pool.descriptors victim).tag)
    (stored : diskPage state.disk (after.pool.descriptors victim).tag =
      store (after.pool.descriptors victim).tag) : Refines hash tablespaceOf store after := by
  refine ⟨⟨coherent, ?_, ?_⟩, ?_⟩
  · rw [sameSize]
    intro other bound untagged
    by_cases here : other = victim
    · subst here
      rw [tagged] at untagged
      exact nomatch untagged
    · rw [(others other here).1] at untagged ⊢
      exact refines.buffers.free other bound untagged
  · rw [sameSize]
    intro other bound otherTagged
    by_cases here : other = victim
    · subst here
      exact ⟨inScope, valid, content⟩
    rw [(others other here).1] at otherTagged ⊢
    rw [(others other here).2]
    exact refines.buffers.resident other bound otherTagged
  · rw [sameDisk]
    intro tag tagIn cleanTag
    by_cases own : tag = (after.pool.descriptors victim).tag
    · rw [own]
      exact stored
    apply refines.onDisk tag tagIn
    exact cleanTag.of_others victim sameSize (fun other ne => (others other ne).1)
      (fun isTagged _ => clean isTagged)

theorem readInto {victim bufId : Nat} (inScope : InScope tablespaceOf tag)
    (evictable : Evictable hash tag victim state.pool)
    (clean : (state.pool.descriptors victim).tagged → (state.pool.descriptors victim).dirty = false)
    (read : state.readInto hash .normal tag victim = (after, some bufId)) :
    Refines hash tablespaceOf store after ∧ bufId < after.pool.nBuffers ∧
      (after.pool.descriptors bufId).tagged ∧ (after.pool.descriptors bufId).tag = tag := by
  have stored : diskPage state.disk tag = store tag := by
    apply refines.onDisk tag inScope
    rintro other bound tagged rfl
    obtain ⟨slot, inside, entry⟩ := evictable.table.indexed other bound trivial tagged inScope.1
    have occupied : (state.pool.hashTable slot).isEmpty = false := by
      rw [entry]
      exact isEmpty_eq_false inScope.1
    exact absurd (congrArg BufferHashEntry.tag entry) (evictable.absent slot inside occupied)
  obtain ⟨hashTable, inserted, rfl, coherent,
    failed | ⟨page, content, result⟩⟩ := evictable.readInto .normal
  · rw [failed] at read
    exact absurd (congrArg Prod.snd read) (by simp)
  rw [result] at read
  cases read
  have isPage : page = store tag := by
    rw [← stored, diskPage, content (by decide)]
    rfl
  have own := filled_self ({ state.pool with
    hashTable := hashTable }.setDesc victim
      (insertedDesc (state.pool.descriptors victim) tag)) victim page
  rw [setDesc_self] at own
  refine ⟨?_, evictable.bound, by rw [own]; rfl, by rw [own]; rfl⟩
  refine refines.replace clean ((filled_quiet _ victim page).coherent coherent) rfl rfl ?_
    (by rw [own]; rfl) (by rw [own]) (by rw [own]; exact inScope)
    ?_ (by rw [own]; exact stored)
  · intro other ne
    exact ⟨(setDesc_of_ne _ ne _).trans (setDesc_of_ne _ ne _), update_of_ne ne ..⟩
  · rw [own]
    exact (update_self ..).trans isPage

theorem readBuffer (inScope : InScope tablespaceOf tag)
    (safe : state.pool.lookupBuffer hash tag = none →
      state.pool.firstFree = none → DeletionSafe hash state.pool
        fun other => (state.pool.descriptors other).refcount = 0)
    (read : state.readBuffer hash .normal tag = (after, some bufId)) :
    Refines hash tablespaceOf store after ∧ bufId < after.pool.nBuffers ∧
      (after.pool.descriptors bufId).tagged ∧ (after.pool.descriptors bufId).tag = tag := by
  have coherent := refines.buffers.coherent
  cases search : state.pool.lookupBuffer hash tag with
  | some found =>
    obtain ⟨bound, _, tagged, isTag⟩ := coherent.table.tag_of_lookup search
    unfold BufferState.readBuffer at read
    simp only [search] at read
    cases read
    have pinned := pinBuffer_quiet (fun _ => tagged)
    have same := pinned.descriptors bufId
    exact ⟨refines.pinBuffer tagged, by rw [pinned.nBuffers]; exact bound,
      same.tagged.trans tagged, same.tag.trans isTag⟩
  | none =>
    obtain ⟨pool, _, result⟩ |
      ⟨pool, victim, ready, found, ⟨_, result⟩ | ⟨flushed, result⟩, evictable⟩ :=
      readBuffer_of_miss coherent search (safe search)
    · rw [result] at read
      exact absurd (congrArg Prod.snd read) (by simp)
    · rw [result] at read
      exact absurd (congrArg Prod.snd read) (by simp)
    rw [result] at read
    have taken := refines.victim found (found.evictable coherent search (safe search)).coherent
    obtain ⟨kept, clean⟩ := taken.writeBack (by rw [found.nBuffers]; exact found.bound) flushed
    exact kept.readInto inScope evictable clean read

end Refines

theorem freshBuffers_refines (nBuffers : Nat) (disk : MdStorage P) :
    Refines hash tablespaceOf (diskPage disk) (freshBuffers nBuffers disk) := by
  refine ⟨⟨initBufferPool_coherent nBuffers, ?_, ?_⟩, fun _ _ _ => rfl⟩
  · intro bufId _ _
    exact ⟨rfl, rfl⟩
  · intro bufId _ tagged
    exact nomatch tagged

end Pgcpp.Storage
