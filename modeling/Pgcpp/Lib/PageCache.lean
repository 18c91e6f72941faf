import Mathlib.Logic.Function.Basic

/-!
# A cache of pages

Pages on disk and buffers with a dirty flag.  A page that is changed in its
buffer and not marked as dirty is lost when the buffer is used for another page.
As long as every clean buffer agrees with the disk, eviction is invisible.
-/

namespace Pgcpp.Lib

open Function

universe u

structure PageCache (Page : Type u) where
  disk : Nat → Page
  buffers : Nat → Option (Page × Bool)

namespace PageCache

variable {Page : Type u} (cache : PageCache Page)

def read (block : Nat) : Page :=
  match cache.buffers block with
  | some (page, _) => page
  | none => cache.disk block

def load (block : Nat) : PageCache Page :=
  match cache.buffers block with
  | some _ => cache
  | none =>
    { cache with
      buffers := update cache.buffers block (some (cache.disk block, false)) }

/-- The page is changed in its buffer. -/
def write (block : Nat) (page : Page) : PageCache Page :=
  { cache with
    buffers := update cache.buffers block (some (page, (cache.buffers block).any Prod.snd)) }

def markDirty (block : Nat) : PageCache Page :=
  { cache with
    buffers := update cache.buffers block
      ((cache.buffers block).map fun buffer => (buffer.1, true)) }

/-- The buffer of the block is given up; a dirty page is written to disk. -/
def evict (block : Nat) : PageCache Page :=
  match cache.buffers block with
  | none => cache
  | some (page, dirty) =>
    { disk :=
        if dirty then update cache.disk block page else cache.disk
      buffers := update cache.buffers block none }

/-- A page is written to disk without a buffer. -/
def extend (block : Nat) (page : Page) : PageCache Page :=
  { cache with disk := update cache.disk block page }

/-- Clean buffers agree with the disk, and blocks behind the last one have no
buffer. -/
structure Sound (nblocks : Nat) : Prop where
  clean : ∀ block page, cache.buffers block = some (page, false) → cache.disk block = page
  inside : ∀ block, nblocks ≤ block → cache.buffers block = none

variable {cache}

theorem read_of_unbuffered (none : cache.buffers block = none) :
    cache.read block = cache.disk block := by
  simp [read, none]

theorem read_congr {after : PageCache Page} (disk : after.disk block = cache.disk block)
    (buffers : after.buffers block = cache.buffers block) :
    after.read block = cache.read block := by
  simp [read, disk, buffers]

theorem read_write_self : (cache.write block page).read block = page := by
  simp [read, write]

theorem read_write_of_ne (ne : other ≠ block) :
    (cache.write block page).read other = cache.read other :=
  read_congr rfl (update_of_ne ne ..)

theorem read_markDirty : (cache.markDirty block).read other = cache.read other := by
  by_cases same : other = block
  · subst same
    simp only [read, markDirty, update_self]
    cases cache.buffers other with
    | none => rfl
    | some _ => rfl
  · exact read_congr rfl (update_of_ne same ..)

theorem read_load (block other : Nat) : (cache.load block).read other = cache.read other := by
  rw [load]
  cases buffered : cache.buffers block with
  | some _ => rfl
  | none =>
    by_cases same : other = block
    · subst same
      simp [read, buffered]
    · exact read_congr rfl (update_of_ne same ..)

theorem Sound.read_evict (sound : cache.Sound nblocks) (block other : Nat) :
    (cache.evict block).read other = cache.read other := by
  rw [evict]
  cases buffered : cache.buffers block with
  | none => rfl
  | some buffer =>
    obtain ⟨page, dirty⟩ := buffer
    by_cases same : other = block
    · subst same
      cases dirty with
      | true => simp [read, buffered]
      | false => simp [read, buffered, sound.clean other page buffered]
    apply read_congr
    · cases dirty with
      | true => exact update_of_ne same _ _
      | false => rfl
    · exact update_of_ne same ..

theorem Sound.read_extend_self (sound : cache.Sound nblocks) (beyond : nblocks ≤ block) :
    (cache.extend block page).read block = page := by
  have unbuffered : (cache.extend block page).buffers block = none := sound.inside block beyond
  rw [read_of_unbuffered unbuffered]
  exact update_self ..

theorem read_extend_of_ne (ne : other ≠ block) :
    (cache.extend block page).read other = cache.read other :=
  read_congr (update_of_ne ne ..) rfl

section

variable (sound : cache.Sound nblocks)

include sound

theorem Sound.write_markDirty (inside : block < nblocks) :
    ((cache.write block page).markDirty block).Sound nblocks := by
  constructor
  case clean =>
    intro other found buffered
    by_cases same : other = block
    · subst same
      simp [markDirty] at buffered
    apply sound.clean other found
    rw [← buffered]
    simp [markDirty, write, same]
  case inside =>
    intro other beyond
    have ne : other ≠ block := by omega
    rw [← sound.inside other beyond]
    simp [markDirty, write, ne]

theorem Sound.load (inside : block < nblocks) : (cache.load block).Sound nblocks := by
  rw [PageCache.load]
  cases absent : cache.buffers block with
  | some _ => exact sound
  | none =>
    constructor
    case clean =>
      intro other found buffered
      by_cases same : other = block
      · subst same
        simpa using buffered
      apply sound.clean other found
      rw [← buffered]
      simp [same]
    case inside =>
      intro other beyond
      have ne : other ≠ block := by omega
      have kept := sound.inside other beyond
      exact (update_of_ne ne ..).trans kept

theorem Sound.evict (block : Nat) : (cache.evict block).Sound nblocks := by
  rw [PageCache.evict]
  cases present : cache.buffers block with
  | none => exact sound
  | some buffer =>
    obtain ⟨_, dirty⟩ := buffer
    constructor
    case clean =>
      intro other found buffered
      by_cases same : other = block
      · subst same
        simp at buffered
      have before : cache.buffers other = some (found, false) := by
        rw [← buffered]
        simp [same]
      have onDisk := sound.clean other found before
      cases dirty with
      | true => simpa [same] using onDisk
      | false => exact onDisk
    case inside =>
      intro other beyond
      by_cases same : other = block
      · subst same
        exact update_self ..
      · rw [← sound.inside other beyond]
        exact update_of_ne same ..

theorem Sound.extend (page : Page) : (cache.extend nblocks page).Sound (nblocks + 1) := by
  constructor
  case clean =>
    intro other found buffered
    have ne : other ≠ nblocks := by
      rintro rfl
      rw [PageCache.extend, sound.inside other (Nat.le_refl _)] at buffered
      cases buffered
    rw [← sound.clean other found buffered]
    exact update_of_ne ne ..
  case inside =>
    intro other beyond
    exact sound.inside other (Nat.le_of_succ_le beyond)

end

end PageCache

end Pgcpp.Lib
