import Pgcpp.Storage.LwlockOwned

/-!
# Mutual exclusion

The word of a lock is the exclusive bit, or it counts the backends that hold the
lock in shared mode.
-/

namespace Pgcpp.Storage

open Lib Function LwView Relation.ReflTransGen Fintype Reaches Finset Option

variable {Λ : Type} [DecidableEq Λ]

/-! ## The word of a lock -/

section

variable {ι : Type} [DecidableEq ι] [Fintype ι]

def sharedHolders (pending : ι → List LWLockMode) : Finset ι :=
  univ.filter fun backend => .shared ∈ pending backend

/-- The word against the acquisitions of all backends. -/
inductive WordOk (word : BitVec 32) (pending : ι → List LWLockMode) : Prop where
  | exclusive (owner : ι) (word_eq : word = kExclusiveBit) (holds : .exclusive ∈ pending owner)
      (alone : ∀ other, other ≠ owner → pending other = [])
  | shared (word_eq : word = BitVec.ofNat 32 (sharedHolders pending).card)
      (noOwner : ∀ backend, .exclusive ∉ pending backend)

variable {word : BitVec 32} {pending later : ι → List LWLockMode}
  {backend : ι} (few : card ι < 2 ^ 31)

omit [DecidableEq ι] in
theorem mem_sharedHolders : backend ∈ sharedHolders pending ↔ .shared ∈ pending backend := by
  simp [sharedHolders]

omit [DecidableEq ι] in
include few in
theorem toNat_card_sharedHolders (pending : ι → List LWLockMode) :
    (BitVec.ofNat 32 (sharedHolders pending).card).toNat = (sharedHolders pending).card := by
  have bound := card_le_univ (sharedHolders pending)
  rw [BitVec.toNat_ofNat]
  apply Nat.mod_eq_of_lt
  omega

omit [DecidableEq ι] in
include few in
theorem card_sharedHolders_ne_exclusive :
    BitVec.ofNat 32 (sharedHolders pending).card ≠ kExclusiveBit := by
  intro same
  have bound := card_le_univ (sharedHolders pending)
  have value := toNat_card_sharedHolders few pending
  rw [same] at value
  have large : kExclusiveBit.toNat = 2 ^ 31 := rfl
  omega

namespace WordOk

section

variable (ok : WordOk word pending)

include ok

omit [DecidableEq ι] in
theorem congr (same : ∀ backend mode, mode ∈ later backend ↔ mode ∈ pending backend) :
    WordOk word later := by
  cases ok with
  | exclusive owner word_eq holds alone =>
    refine .exclusive owner word_eq ((same owner _).2 holds) ?_
    intro other ne
    apply List.eq_nil_iff_forall_not_mem.2
    intro mode mem
    have before := (same other mode).1 mem
    rw [alone other ne] at before
    contradiction
  | shared word_eq noOwner =>
    have holders : sharedHolders later = sharedHolders pending := by
      ext backend
      rw [mem_sharedHolders, mem_sharedHolders, same]
    refine .shared (holders ▸ word_eq) ?_
    intro backend mem
    exact noOwner backend ((same backend _).1 mem)

omit [DecidableEq ι] in
include few in
theorem nil_of_zero (zero : word = 0) (backend : ι) : pending backend = [] := by
  cases ok with
  | exclusive _ word_eq _ _ =>
    rw [zero] at word_eq
    cases word_eq
  | shared word_eq noOwner =>
    have value := toNat_card_sharedHolders few pending
    rw [← word_eq, zero] at value
    have none := card_eq_zero.1 value.symm
    apply List.eq_nil_iff_forall_not_mem.2
    intro mode mem
    cases mode with
    | exclusive => exact noOwner backend mem
    | shared =>
      have holder := mem_sharedHolders.2 mem
      rw [none] at holder
      exact notMem_empty backend holder

omit [DecidableEq ι] in
theorem not_exclusive_of_clear (clear : word &&& kExclusiveBit = 0) (backend : ι) :
    .exclusive ∉ pending backend := by
  cases ok with
  | exclusive _ word_eq _ _ =>
    rw [word_eq] at clear
    cases clear
  | shared word_eq noOwner => exact noOwner backend

include few in
theorem won (free : pending backend = []) (wins : Wins mode word newWord) :
    WordOk newWord (update pending backend [mode]) := by
  cases mode with
  | exclusive =>
    obtain ⟨zero, rfl⟩ := wins
    refine .exclusive backend rfl ?_ ?_
    · rw [update_self]
      exact List.mem_singleton_self _
    intro other ne
    rw [update_of_ne ne]
    exact ok.nil_of_zero few zero other
  | shared =>
    obtain ⟨clear, rfl⟩ := wins
    have noOwner := ok.not_exclusive_of_clear clear
    have holders : sharedHolders (update pending backend [.shared]) =
          insert backend (sharedHolders pending) := by
      ext other
      rw [mem_insert, mem_sharedHolders, mem_sharedHolders]
      by_cases same : other = backend
      · simp [same]
      · simp [same]
    have notBefore : backend ∉ sharedHolders pending := by
      rw [mem_sharedHolders, free]
      exact List.not_mem_nil
    cases ok with
    | exclusive owner word_eq holds _ => exact absurd holds (noOwner owner)
    | shared word_eq _ =>
      refine .shared ?_ ?_
      · rw [holders, card_insert_of_notMem notBefore, word_eq, BitVec.ofNat_add]
        rfl
      intro other
      by_cases same : other = backend
      · simp [same]
      · rw [update_of_ne same]
        exact noOwner other

theorem gone (last : pending backend = [mode]) :
    WordOk (releasedState mode word) (update pending backend []) := by
  cases ok with
  | exclusive owner word_eq holds alone =>
    have isOwner : backend = owner := by
      by_contra different
      rw [alone backend different] at last
      contradiction
    subst isOwner
    rw [last, List.mem_singleton] at holds
    subst holds
    have free : ∀ other, update pending backend [] other = [] := by
      intro other
      by_cases same : other = backend
      · rw [same, update_self]
      · rw [update_of_ne same, alone other same]
    have none : sharedHolders (update pending backend []) = ∅ := by
      apply eq_empty_of_forall_notMem
      intro other
      rw [mem_sharedHolders, free]
      exact List.not_mem_nil
    refine .shared ?_ ?_
    · rw [none, word_eq, Finset.card_empty]
      decide
    intro other
    rw [free]
    exact List.not_mem_nil
  | shared word_eq noOwner =>
    have isShared : mode = .shared := by
      cases mode with
      | exclusive =>
        have mem := noOwner backend
        rw [last] at mem
        exact absurd (List.mem_singleton_self _) mem
      | shared => rfl
    subst isShared
    have holders : sharedHolders (update pending backend []) =
          (sharedHolders pending).erase backend := by
      ext other
      rw [mem_erase, mem_sharedHolders, mem_sharedHolders]
      by_cases same : other = backend
      · simp [same]
      · simp [same]
    have before : backend ∈ sharedHolders pending := by
      rw [mem_sharedHolders, last]
      exact List.mem_singleton_self _
    refine .shared ?_ ?_
    · have counted := card_erase_add_one before
      apply Owned.count_sub_one
      rw [holders, counted]
      exact word_eq
    intro other
    by_cases same : other = backend
    · rw [same, update_self]
      exact List.not_mem_nil
    · rw [update_of_ne same]
      exact noOwner other

end

end WordOk

end

/-! ## All backends -/

namespace LwSystem

variable {ι : Type} [DecidableEq ι]

theorem step_goodStep {system : LwSystem ι Λ} (ok : LocalOk (system.view event.1))
    (honest : ∀ lock, WordHonest (system.view event.1) lock) (allowed : system.Allowed event)
    (stepped : system.step event = some later) :
    ∃ next, GoodStep (system.view event.1) next ∧ later = system.setView event.1 next := by
  obtain ⟨_, action⟩ := event
  obtain ⟨next, acted, isLater⟩ := map_eq_some_iff.1 stepped
  refine ⟨next, ?_, isLater.symm⟩
  cases action with
  | acquire lock mode =>
    obtain ⟨idle, isNext⟩ := ite_none_right_eq_some.1 acted
    cases isNext
    exact ok.lwLockAcquire idle allowed
  | conditionalAcquire lock mode =>
    obtain ⟨idle, isNext⟩ := ite_none_right_eq_some.1 acted
    cases isNext
    exact ok.lwLockConditionalAcquire idle allowed
  | release lock =>
    obtain ⟨idle, isNext⟩ := ite_none_right_eq_some.1 acted
    cases isNext
    exact ok.lwLockRelease idle
  | proceed _ => exact ok.proceed honest acted

section

variable [Fintype ι] {system later : LwSystem ι Λ} {event : ι × LwAction Λ}

structure SystemOk (system : LwSystem ι Λ) : Prop where
  own : ∀ backend, LocalOk (system.view backend)
  word : ∀ lock, WordOk (system.state lock) fun backend => system.pending backend lock

omit [DecidableEq ι] in
theorem systemOk_initial : SystemOk (initial ι Λ) := by
  constructor
  · intro backend
    refine ⟨List.nodup_nil, fun _ => Owned.free, ?_⟩
    intro lock _
    contradiction
  intro lock
  refine .shared ?_ fun _ => List.not_mem_nil
  have none : sharedHolders (fun _ : ι => ([] : List LWLockMode)) = ∅ := by
    apply eq_empty_of_forall_notMem
    intro backend
    rw [mem_sharedHolders]
    exact List.not_mem_nil
  exact (congrArg (BitVec.ofNat 32 ∘ card) none).symm

theorem localOk_setView (ok : SystemOk system) (nextOk : LocalOk next) (other : ι) :
    LocalOk ((system.setView backend next).view other) := by
  by_cases same : other = backend
  · subst same
    have own : (system.setView other next).view other = next := by simp [view, setView]
    rw [own]
    exact nextOk
  obtain ⟨distinct, owned, wanting⟩ := ok.own other
  constructor
  all_goals simp only [view, setView, update_of_ne same]
  · exact distinct
  · exact owned
  · exact wanting

section

variable (few : card ι < 2 ^ 31) (ok : SystemOk system)

include few ok

theorem wordOk_setView (effect : LwEffect (system.view backend) next) (lock : Λ) :
    WordOk (next.state lock) fun other => (system.setView backend next).pending other lock := by
  have pointwise : (fun other =>
      (system.setView backend next).pending other lock) =
        update (fun other => system.pending other lock) backend (next.pending lock) := by
    funext other
    by_cases same : other = backend
    · subst same
      simp [setView]
    · simp [setView, same]
  rw [pointwise]
  have before := ok.word lock
  have unchanged (pending : ∀ mode, mode ∈ next.pending lock ↔ mode ∈ system.pending backend lock) :
      WordOk (system.state lock)
        (update (fun other => system.pending other lock) backend (next.pending lock)) := by
    apply before.congr
    intro other mode
    by_cases same : other = backend
    · rw [same, update_self]
      exact pending mode
    · rw [update_of_ne same]
  cases effect with
  | steady state pending =>
    rw [state]
    exact unchanged (pending lock)
  | won target mode word free pending state wins =>
    rw [state]
    by_cases same : lock = target
    · subst same
      rw [update_self, pending, update_self]
      exact before.won few free wins
    rw [update_of_ne same]
    apply unchanged
    intro mode
    rw [pending, update_of_ne same]
    rfl
  | gone target mode last pending state =>
    rw [state]
    by_cases same : lock = target
    · subst same
      rw [update_self, pending, update_self]
      exact before.gone last
    rw [update_of_ne same]
    apply unchanged
    intro mode
    rw [pending, update_of_ne same]
    rfl

theorem SystemOk.step (allowed : system.Allowed event) (stepped : system.step event = some later) :
    SystemOk later := by
  have honest (lock : Λ) : WordHonest (system.view event.1) lock := by
    constructor
    · intro zero
      exact (ok.word lock).nil_of_zero few zero event.1
    · intro clear
      exact (ok.word lock).not_exclusive_of_clear clear event.1
  obtain ⟨_, good, rfl⟩ := step_goodStep (ok.own event.1) honest allowed stepped
  exact ⟨localOk_setView ok good.ok, wordOk_setView few ok good.effect⟩

omit [DecidableEq ι] in
theorem SystemOk.wordExact (lock : Λ) : system.WordExact lock := by
  cases ok.word lock with
  | exclusive owner word_eq holds alone =>
    have sole : ∀ mode backend, system.Holds mode backend lock → backend = owner := by
      intro mode backend mem
      by_contra ne
      rw [Holds, alone backend ne] at mem
      contradiction
    refine ⟨⟨fun _ => ⟨owner, holds, fun backend => sole _ backend⟩,
      fun _ => word_eq⟩, ?_, fun notSet => absurd word_eq notSet⟩
    intro _ backend mem
    obtain rfl := sole _ backend mem
    have oneMode := ((ok.own backend).owned lock).eq_of_mem holds mem
    contradiction
  | shared word_eq noOwner =>
    have notSet : system.state lock ≠ kExclusiveBit := by
      rw [word_eq]
      exact card_sharedHolders_ne_exclusive few
    refine ⟨⟨fun isSet => absurd isSet notSet, ?_⟩,
      fun isSet => absurd isSet notSet, fun _ => ⟨noOwner, ?_⟩⟩
    · rintro ⟨backend, holds, -⟩
      exact absurd holds (noOwner backend)
    · rw [word_eq]
      exact toNat_card_sharedHolders few _

end

omit [DecidableEq ι] in
theorem SystemOk.entryExact (ok : SystemOk system) (settled : ¬system.BetweenUpdates backend lock) :
    system.EntryExact backend lock := by
  have owned := (ok.own backend).owned lock
  rw [EntryExact]
  simp only [Holds]
  simp only [view] at owned
  generalize findHeldCount (system.held backend) lock = found at owned ⊢
  generalize system.pending backend lock = pending at owned ⊢
  generalize touched : (system.phase backend).touch lock = touch at owned
  cases owned with
  | entering mode =>
    refine absurd (.inl ⟨mode, ?_⟩) settled
    exact LwPhase.eq_push_of_touch touched
  | held entry _ pos _ _ => simp [List.mem_replicate, pos.ne']
  | left entry => exact absurd (.inr (LwPhase.eq_erase_of_touch touched)) settled
  | _ => simp

/-- Mutual exclusion: fewer than `2 ^ 31` backends, each of which releases only
what it holds and nests its acquisitions less than `2 ^ 31` deep.  In every
state of every interleaving the words say who holds the locks, and the list of a
backend does so whenever the backend is not between its change of the word and
its change of the list. -/
theorem words_and_entries_exact (few : card ι < 2 ^ 31)
    (reached : Reaches step Allowed (initial ι Λ) system) :
    (∀ lock, system.WordExact lock) ∧ ∀ backend lock, ¬system.BetweenUpdates backend lock →
        system.EntryExact backend lock := by
  have ok : SystemOk system := by
    apply reached.invariant SystemOk _ systemOk_initial
    intro _ _ _ ok allowed stepped
    exact ok.step few allowed stepped
  exact ⟨ok.wordExact few, fun backend lock => ok.entryExact⟩

/-- One backend takes the lock and another one waits for it. -/
def takenWhileAwaited : List (Bool × LwAction Unit) :=
  [(false, .acquire () .exclusive), (true, .acquire () .shared),
    (false, .proceed false), (true, .proceed false), (false, .proceed false)]

theorem words_and_entries_exact_while_one_waits : ∃ system : LwSystem Bool Unit,
      runActions step (initial Bool Unit) takenWhileAwaited = some system ∧
        (∀ lock, system.WordExact lock) ∧ ∀ backend lock, ¬system.BetweenUpdates backend lock →
            system.EntryExact backend lock := by
  obtain ⟨system, executed⟩ : ∃ system,
      runActions step (initial Bool Unit) takenWhileAwaited = some system := ⟨_, rfl⟩
  have allowed : AllAllowed step Allowed (initial Bool Unit)
      takenWhileAwaited := by
    decide
  exact ⟨system, executed, words_and_entries_exact (by decide) (of_runActions allowed executed)⟩

end

/-! ## The limits -/

/-- Backends release only locks that they hold. -/
def ReleasesHeld {ι Λ : Type} (system : LwSystem ι Λ) (event : ι × LwAction Λ) : Prop :=
  ∀ lock, event.2 = .release lock → system.pending event.1 lock ≠ []

/-- The first `taken` of the backends hold the only lock in shared mode. -/
def sharedByFirst (backends taken : Nat) : LwSystem (Fin backends) Unit :=
  { state := fun _ => BitVec.ofNat 32 taken, phase := fun _ => .idle, held := fun backend =>
      if backend.val < taken then [{ lock := (), mode := .shared, count := 1 }] else []
    pending := fun backend => if backend.val < taken then fun _ => [.shared] else fun _ => [] }

theorem runActions_backend {ι Λ : Type} [DecidableEq ι] [DecidableEq Λ]
    (system : LwSystem ι Λ) (backend : ι) (actions : List (LwAction Λ)) :
    runActions step system (actions.map fun action => (backend, action)) =
      (runActions act (system.view backend) actions).map (system.setView backend) := by
  induction actions generalizing system with
  | nil => simp [runActions, view, setView]
  | cons action _ ih =>
    simp only [List.map_cons, runActions, step]
    cases (system.view backend).act action with
    | none => rfl
    | some next =>
      have own : (system.setView backend next).view backend = next := by simp [view, setView]
      have again : (system.setView backend next).setView backend = system.setView backend := by
        funext last
        simp [setView]
      simp [ih, own, again]

theorem update_first (backend : Fin backends) (taken free : α) : update
        (fun other : Fin backends => if other.val < backend.val then taken else free)
        backend taken = fun other => if other.val < backend.val + 1 then taken else free := by
  funext other
  by_cases same : other = backend
  · simp [same]
  have iff : other.val < backend.val ↔ other.val < backend.val + 1 := by omega
  rw [update_of_ne same]
  simp [iff]

/-- The steps of an acquisition that meets no other backend. -/
def undisturbed (mode : LWLockMode) : List (LwAction Unit) :=
  match mode with
  | .shared => [.acquire () .shared, .proceed false, .proceed false, .proceed false]
  | .exclusive => [.acquire () .exclusive, .proceed false, .proceed false]

theorem allAllowed_undisturbed {ι : Type} [DecidableEq ι]
    (system : LwSystem ι Unit) (backend : ι) (mode : LWLockMode) :
    AllAllowed step ReleasesHeld system
      ((undisturbed mode).map fun action => (backend, action)) := by
  apply allAllowed_of_forall_mem
  intro _ mem _ lock released
  obtain ⟨action, listed, rfl⟩ := List.mem_map.1 mem
  cases mode with
  | exclusive | shared =>
    rw [show action = .release lock from released] at listed
    simp [undisturbed] at listed

@[simp]
theorem update_unit {α : Type} (function : Unit → α) (value : α) :
    update function () value = fun _ => value := by
  rfl

theorem runActions_undisturbed_shared (clear : word &&& kExclusiveBit = 0) : runActions act
        { state := fun _ => word, phase := .idle, held := []
          pending := fun _ => [] } (undisturbed .shared) = some
        { state := fun _ => word + 1, phase := .idle
          held := [{ lock := (), mode := .shared, count := 1 }]
          pending := fun _ => [.shared] } := by
  simp [undisturbed, runActions, act, LwView.lwLockAcquire, proceed, win, findHeldCount, clear]

theorem runActions_sharedByFirst (backend : Fin backends)
    (clear : BitVec.ofNat 32 backend.val &&& kExclusiveBit = 0) :
    runActions step (sharedByFirst backends backend.val)
        ((undisturbed .shared).map fun action => (backend, action)) =
      some (sharedByFirst backends (backend.val + 1)) := by
  have viewed : (sharedByFirst backends backend.val).view backend =
      { state := fun _ => BitVec.ofNat 32 backend.val, phase := .idle
        held := [], pending := fun _ => [] } := by
    simp [sharedByFirst, view]
  rw [runActions_backend, viewed, runActions_undisturbed_shared clear]
  simp only [map_some, some.injEq, setView, sharedByFirst,
    mk.injEq, update_first, update_eq_self, and_true]
  rw [BitVec.ofNat_add]
  rfl

theorem clear_of_lt (small : count < 2 ^ 31) : BitVec.ofNat 32 count &&& kExclusiveBit = 0 := by
  have bit : kExclusiveBit = BitVec.twoPow 32 31 := rfl
  have unset : (BitVec.ofNat 32 count).getLsbD 31 = false := by
    rw [BitVec.getLsbD_ofNat, Nat.testBit_lt_two_pow small]
    rfl
  rw [bit, BitVec.and_twoPow, unset]
  rfl

theorem reaches_sharedByFirst (enough : taken ≤ backends) (bounded : taken ≤ 2 ^ 31) :
    Reaches step ReleasesHeld (initial (Fin backends) Unit) (sharedByFirst backends taken) := by
  induction taken with
  | zero =>
    exact refl
  | succ before ih =>
    have run := runActions_sharedByFirst ⟨before, enough⟩ (clear_of_lt bounded)
    have earlier := ih (Nat.le_of_succ_le enough) (Nat.le_of_succ_le bounded)
    apply earlier.trans
    exact of_runActions (allAllowed_undisturbed ..) run

/-- The only backend holds the only lock in exclusive mode. -/
def nestedExclusive (depth : Nat) : LwSystem Unit Unit :=
  { state := fun _ => kExclusiveBit, phase := fun _ => .idle, held := fun _ =>
      [{ lock := (), mode := .exclusive, count := BitVec.ofNat 32 depth }]
    pending := fun _ _ => List.replicate depth .exclusive }

theorem step_nestedExclusive : (nestedExclusive depth).step ((), .acquire () .exclusive) =
      some (nestedExclusive (depth + 1)) := by
  have counted : BitVec.ofNat 32 depth + 1 = BitVec.ofNat 32 (depth + 1) := by
    rw [BitVec.ofNat_add]
    rfl
  simp [step, view, setView, act, LwView.lwLockAcquire, countUp, findHeldCount, setHeldCount,
    nestedExclusive, List.replicate_succ, ← counted]

theorem reaches_nestedExclusive :
    Reaches step ReleasesHeld (initial Unit Unit) (nestedExclusive (depth + 1)) := by
  induction depth with
  | zero =>
    apply of_runActions (allAllowed_undisturbed _ () .exclusive)
    rw [runActions_backend]
    simp [undisturbed, runActions, act, LwView.lwLockAcquire, proceed, win, findHeldCount, initial,
      view, setView, nestedExclusive]
  | succ _ ih =>
    apply tail ih
    exact ⟨((), .acquire () .exclusive), by simp [ReleasesHeld], step_nestedExclusive⟩

/-- The word is free although the backend has not released all it acquired. -/
def releasedEarly (depth : Nat) : LwSystem Unit Unit :=
  { state := fun _ => 0, phase := fun _ => .erase (), held := fun _ =>
      [{ lock := (), mode := .exclusive, count := BitVec.ofNat 32 depth }]
    pending := fun _ _ => List.replicate depth .exclusive }

theorem runActions_releasedEarly (negative : ¬0 < (BitVec.ofNat 32 depth).toInt) :
    runActions step (nestedExclusive (depth + 1)) [((), .release ()), ((), .proceed false)] =
      some (releasedEarly depth) := by
  have counted : BitVec.ofNat 32 (depth + 1) - 1 = BitVec.ofNat 32 depth := Owned.count_sub_one rfl
  have released : ((nestedExclusive (depth + 1)).view ()).lwLockRelease () =
      { state := fun _ => kExclusiveBit, phase := .leave () .exclusive
        held := [{ lock := (), mode := .exclusive, count := BitVec.ofNat 32 depth }]
        pending := fun _ => List.replicate (depth + 1) .exclusive } := by
    simp only [LwView.lwLockRelease, view, nestedExclusive, findHeldCount,
      List.find?_cons, decide_true, counted, if_neg negative]
    rfl
  have cleared : releasedState .exclusive kExclusiveBit = 0#32 := by decide
  have idle : ((nestedExclusive (depth + 1)).view ()).phase = .idle := rfl
  have run := runActions_backend (nestedExclusive (depth + 1)) () [.release (), .proceed false]
  rw [List.map_cons, List.map_singleton] at run
  rw [run]
  simp only [runActions, act, if_pos idle, released, proceed, cleared]
  simp [setView, releasedEarly]

/-- With the count past the end of `int` a release gives up the lock. -/
theorem reaches_releasedEarly (depth : Nat) (negative : ¬0 < (BitVec.ofNat 32 depth).toInt) :
    Reaches step ReleasesHeld (initial Unit Unit) (releasedEarly depth) := by
  apply reaches_nestedExclusive.trans
  apply of_runActions _ (runActions_releasedEarly negative)
  refine ⟨?_, ?_⟩
  · intro _ _
    simp [nestedExclusive]
  split
  · trivial
  · refine ⟨nofun, ?_⟩
    split <;> trivial

/-- A list is behind its word during a call.  With `2 ^ 31` backends the shared
acquisitions add up to the exclusive bit, and a count past `int` releases a lock
that is still held. -/
theorem not_exact_during_calls_and_past_limits :
    (∃ system, Reaches step ReleasesHeld (initial Unit Unit) system ∧ ¬system.EntryExact () ()) ∧
    (∃ system, Reaches step ReleasesHeld (initial (Fin (2 ^ 31)) Unit) system ∧
        ¬system.WordExact ()) ∧
    ∃ system, Reaches step ReleasesHeld (initial Unit Unit) system ∧ ¬system.WordExact () := by
  refine ⟨?_, ?_, ?_⟩
  · let actions : List (Unit × LwAction Unit) :=
      [((), .acquire () .exclusive), ((), .proceed false)]
    obtain ⟨system, executed⟩ : ∃ system,
        runActions step (initial Unit Unit) actions = some system := ⟨_, rfl⟩
    refine ⟨system, ?_, ?_⟩
    · apply of_runActions _ executed
      refine ⟨nofun, nofun, trivial⟩
    cases executed
    intro exact
    have entry := exact.2 ⟨.exclusive, List.mem_singleton_self _⟩
    contradiction
  · refine ⟨_, reaches_sharedByFirst le_rfl le_rfl, ?_⟩
    intro exact
    obtain ⟨owner, _, -⟩ := exact.exclusive.1 rfl
    apply exact.alone rfl owner
    simp [Holds, sharedByFirst]
  · refine ⟨_, reaches_releasedEarly (2 ^ 31) (by decide), ?_⟩
    intro exact
    have none := (exact.shared (by decide)).1 ()
    exact none (List.mem_replicate.2 ⟨by decide, rfl⟩)

end LwSystem

end Pgcpp.Storage
