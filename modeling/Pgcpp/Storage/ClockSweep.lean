import Mathlib.Data.Int.CardIntervalMod
import Pgcpp.Storage.BufPoolInvariant

/-!
# The clock sweep

`FindVictimBuffer` goes round the pool twice, while usage counts go up to 5.
-/

namespace Pgcpp.Storage

open Function List

variable {P : Type}

/-- The sweep fails if it passes no unpinned buffer more often than the
buffer's usage count allows. -/
theorem clockSweep_eq_none_iff : (BufferPool.clockSweep nBuffers start steps descriptors).2 = none ↔
      ∀ bufId, (descriptors bufId).refcount = 0 →
        steps.countP (fun step => (start + step) % nBuffers = bufId) ≤
          (descriptors bufId).usageCount := by
  induction steps generalizing descriptors with
  | nil => simp [BufferPool.clockSweep]
  | cons step _ ih =>
    generalize atHand : (start + step) % nBuffers = hand
    simp only [BufferPool.clockSweep, countP_cons, atHand, decide_eq_true_eq]
    split_ifs with unpinned used
    · rw [ih]
      apply forall_congr'
      intro bufId
      by_cases here : bufId = hand
      · subst here
        simp only [update_self, if_true]
        omega
      · rw [update_of_ne here, if_neg (Ne.symm here), add_zero]
    · constructor
      · intro _
        contradiction
      intro passed
      have once := passed hand unpinned
      rw [if_pos rfl] at once
      omega
    · rw [ih]
      apply forall_congr'
      intro bufId
      by_cases here : hand = bufId
      · subst here
        simp only [unpinned, false_implies]
      · rw [if_neg here, add_zero]

theorem countP_sweep (bound : bufId < nBuffers) : (range (nBuffers * 2)).countP
      (fun step => (start + step) % nBuffers = bufId) = 2 := by
  have pos := Nat.zero_lt_of_lt bound
  have same (step : Nat) : (start + step) % nBuffers = bufId ↔
      step ≡ bufId + start * (nBuffers - 1) [MOD nBuffers] := by
    have whole : start + (bufId + start * (nBuffers - 1)) = bufId + nBuffers * start := by
      obtain ⟨_, rfl⟩ := Nat.exists_eq_add_of_lt pos
      simp only [zero_add, Nat.add_sub_cancel]
      ring
    rw [← Nat.ModEq.add_iff_left (Nat.ModEq.refl start), whole, Nat.ModEq,
      Nat.add_mul_mod_self_left, Nat.mod_eq_of_lt bound]
  have counted := Nat.count_modEq_card (nBuffers * 2) pos (bufId + start * (nBuffers - 1))
  rw [Nat.mul_div_cancel_left 2 pos, Nat.mul_mod_right, if_neg (Nat.not_lt_zero _)] at counted
  simp only [same]
  exact counted

/-- The sweep of `FindVictimBuffer` fails if the usage count of every unpinned
buffer outlasts it. -/
theorem twoRounds_eq_none_iff (nBuffers start : Nat) (descriptors : Nat → BufferDesc) :
    (BufferPool.clockSweep nBuffers start (range (nBuffers * 2)) descriptors).2 = none ↔
      ∀ bufId < nBuffers, (descriptors bufId).refcount = 0 →
        1 < (descriptors bufId).usageCount := by
  rw [clockSweep_eq_none_iff]
  apply forall_congr'
  intro bufId
  by_cases bound : bufId < nBuffers
  · rw [countP_sweep bound]
    exact ⟨fun passed _ => passed, fun outlasts => outlasts bound⟩
  have never : (range (nBuffers * 2)).countP
      (fun step => (start + step) % nBuffers = bufId) = 0 := by
    rw [countP_eq_zero]
    intro step mem
    have pos : 0 < nBuffers := by
      have := mem_range.1 mem
      omega
    have small := Nat.mod_lt (start + step) pos
    simp only [decide_eq_true_eq]
    omega
  simp [never, bound]

theorem findVictimBuffer_of_empty {pool : BufferPool P} (empty : pool.firstFree = none) :
    pool.findVictimBuffer.2 = (BufferPool.clockSweep pool.nBuffers pool.clockHand
      (range (pool.nBuffers * 2)) pool.descriptors).2 := by
  simp only [BufferPool.findVictimBuffer, empty]
  split
  next sweep => rw [sweep]
  next sweep => rw [sweep]

/-- Without a free list `FindVictimBuffer` finds a victim as long as there is
an unpinned buffer that two rounds bring down to usage count 0. -/
theorem findVictimBuffer_finds_iff (pool : BufferPool P) (empty : pool.firstFree = none) :
    ((pool.findVictimBuffer.2 = none ↔
        ∀ bufId < pool.nBuffers, 0 < (pool.descriptors bufId).refcount) ∧
      ∀ victim, pool.findVictimBuffer.2 = some victim →
        victim < pool.nBuffers ∧ (pool.descriptors victim).refcount = 0) ↔
    (∀ bufId < pool.nBuffers, 0 < (pool.descriptors bufId).refcount) ∨
      ∃ bufId < pool.nBuffers, (pool.descriptors bufId).refcount = 0 ∧
        (pool.descriptors bufId).usageCount ≤ 1 := by
  rw [findVictimBuffer_of_empty empty]
  have stops (victim : Nat) (found : (BufferPool.clockSweep pool.nBuffers pool.clockHand
      (range (pool.nBuffers * 2)) pool.descriptors).2 = some victim) :
      victim < pool.nBuffers ∧ (pool.descriptors victim).refcount = 0 := by
    obtain ⟨bound, unpinned⟩ := (clockSweep_spec ..).2 victim found
    refine ⟨bound (Nat.pos_of_ne_zero ?_), unpinned⟩
    intro none
    simp [none, BufferPool.clockSweep] at found
  have fails := twoRounds_eq_none_iff pool.nBuffers pool.clockHand pool.descriptors
  constructor
  · rintro ⟨onlyPinned, _⟩
    by_contra stuck
    push Not at stuck
    obtain ⟨⟨bufId, bound, unpinned⟩, outlasts⟩ := stuck
    have pinned := onlyPinned.1 (fails.2 outlasts) bufId bound
    omega
  intro possible
  refine ⟨⟨?_, ?_⟩, stops⟩
  · intro failed
    rcases possible with pinned | ⟨bufId, bound, unpinned, _⟩
    · exact pinned
    · have outlasts := fails.1 failed bufId bound unpinned
      omega
  · intro pinned
    apply fails.2
    intro bufId bound unpinned
    have := pinned bufId bound
    omega

def idleBuffer (usageCount : Nat) : BufferPool Nat :=
  { initBufferPool 1 with
    descriptors := fun _ => { BufferDesc.initial none with usageCount := usageCount }
    firstFree := none }

theorem idleBuffer_found : (idleBuffer 1).findVictimBuffer.2 = none ↔
    ∀ bufId < 1, 0 < ((idleBuffer 1).descriptors bufId).refcount :=
  ((findVictimBuffer_finds_iff (idleBuffer 1) rfl).2
    (.inr ⟨0, Nat.zero_lt_one, rfl, Nat.le_refl 1⟩)).1

theorem idleBuffer_missed : (idleBuffer 2).firstFree = none ∧
    ((idleBuffer 2).descriptors 0).usageCount ≤ kMaxUsageCount ∧
    ((idleBuffer 2).descriptors 0).refcount = 0 ∧ (idleBuffer 2).findVictimBuffer.2 = none := by
  decide

end Pgcpp.Storage
