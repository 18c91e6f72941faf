import Mathlib.Algebra.Group.Nat.Defs
import Mathlib.Data.Fintype.Card
import Pgcpp.Lib.Transition
import Pgcpp.Storage.Lwlock

/-!
# Lightweight locks shared by backends

Any number of backends acquire and release locks.  The state word of a lock is
shared and changes by atomic operations; the list of held locks is private to a
backend.  A call runs in steps, each of which is one atomic operation or one
change of the private list, and steps of different backends interleave freely.
-/

namespace Pgcpp.Storage

open Function Lib

def kExclusiveBit : BitVec 32 := 0x80000000#32

/-- Where a backend is in the code of the locks. -/
inductive LwPhase (Λ : Type) where
  | idle
  /-- The loop of `LWLockAcquire` for exclusive mode. -/
  | spinExclusive (lock : Λ)
  /-- The only attempt of `LWLockConditionalAcquire` for exclusive mode. -/
  | tryExclusive (lock : Λ)
  /-- Shared mode, before a load of the word. -/
  | loadState (lock : Λ) (conditional : Bool)
  /-- Shared mode, with the word as it was read last. -/
  | tryShared (lock : Λ) (conditional : Bool) (oldState : BitVec 32)
  /-- The word is changed, the list is not yet. -/
  | push (lock : Λ) (mode : LWLockMode)
  /-- The count is zero, the word is not yet changed. -/
  | leave (lock : Λ) (mode : LWLockMode)
  /-- The word is changed, the entry is not yet erased. -/
  | erase (lock : Λ)
  deriving DecidableEq

/-- The words, and what belongs to one backend.  The source does not record
`pending`: the acquisitions that are not yet released, which begin and end with
the change of the word. -/
structure LwView (Λ : Type) where
  state : Λ → BitVec 32
  phase : LwPhase Λ
  held : List (HeldCount Λ)
  pending : Λ → List LWLockMode

variable {Λ : Type} [DecidableEq Λ]

namespace LwView

variable (view : LwView Λ)

/-- One more acquisition of a lock that is held in the same mode. -/
def countUp (entry : HeldCount Λ) : LwView Λ :=
  { view with
    held := setHeldCount entry.lock (entry.count + 1) view.held
    pending := update view.pending entry.lock (entry.mode :: view.pending entry.lock) }

section

variable (lock : Λ) (mode : LWLockMode)

def lwLockAcquire : LwView Λ :=
  match findHeldCount view.held lock with
  | some entry => if entry.mode = mode then view.countUp entry else view
  | none =>
    { view with
      phase :=
        match mode with
        | .exclusive => .spinExclusive lock
        | .shared => .loadState lock false }

/-- `LWLockConditionalAcquire` behind the check for a recursive acquisition. -/
def conditionalAttempt : LwView Λ :=
  { view with
    phase :=
      match mode with
      | .exclusive => .tryExclusive lock
      | .shared => .loadState lock true }

/-- The call of `LWLockConditionalAcquire`. -/
def lwLockConditionalAcquire : LwView Λ :=
  match findHeldCount view.held lock with
  | some entry =>
    if entry.mode = mode then view.countUp entry else view.conditionalAttempt lock mode
  | none => view.conditionalAttempt lock mode

def lwLockRelease (lock : Λ) : LwView Λ :=
  match findHeldCount view.held lock with
  | none => view
  | some entry =>
    let held := setHeldCount lock (entry.count - 1) view.held
    if 0 < (entry.count - 1).toInt then
      { view with
        held := held, pending := update view.pending lock (view.pending lock).tail }
    else { view with held := held, phase := .leave lock entry.mode }

/-- A compare-and-exchange that succeeds. -/
def win (newState : BitVec 32) : LwView Λ :=
  { view with
    state := update view.state lock newState, phase := .push lock mode
    pending := update view.pending lock (mode :: view.pending lock) }

end

/-- The operation on the word in `LWLockRelease`. -/
def releasedState (mode : LWLockMode) (state : BitVec 32) : BitVec 32 :=
  match mode with
  | .exclusive => state &&& ~~~kExclusiveBit
  | .shared => state - 1

/-- The next step of a call.  A weak compare-and-exchange may fail although it
finds what it expects. -/
def proceed (spurious : Bool) : Option (LwView Λ) :=
  match view.phase with
  | .idle => none
  | .spinExclusive lock =>
    some (if view.state lock = 0 ∧ spurious = false then view.win lock .exclusive kExclusiveBit
    else view)
  | .tryExclusive lock =>
    some (if view.state lock = 0 then view.win lock .exclusive kExclusiveBit
    else { view with phase := .idle })
  | .loadState lock conditional =>
    some { view with
      phase := .tryShared lock conditional (view.state lock) }
  | .tryShared lock conditional oldState =>
    some (if oldState &&& kExclusiveBit ≠ 0 then { view with
        phase := if conditional then .idle else .loadState lock conditional }
    else if view.state lock = oldState ∧ spurious = false then view.win lock .shared (oldState + 1)
    else { view with
        phase := .tryShared lock conditional (view.state lock) })
  | .push lock mode =>
    some { view with
      phase := .idle, held := view.held ++ [{ lock := lock, mode := mode, count := 1 }] }
  | .leave lock mode =>
    some { view with
      state := update view.state lock (releasedState mode (view.state lock))
      phase := .erase lock, pending := update view.pending lock (view.pending lock).tail }
  | .erase lock =>
    some { view with
      phase := .idle, held := eraseHeldCount view.held lock }

end LwView

/-- What a backend does next: it makes a call, or it goes on with the one it is
in. -/
inductive LwAction (Λ : Type) where
  | acquire (lock : Λ) (mode : LWLockMode)
  | conditionalAcquire (lock : Λ) (mode : LWLockMode)
  | release (lock : Λ)
  | proceed (spurious : Bool)
  deriving DecidableEq

def LwView.act (view : LwView Λ) : LwAction Λ → Option (LwView Λ)
  | .acquire lock mode => if view.phase = .idle then some (view.lwLockAcquire lock mode) else none
  | .conditionalAcquire lock mode =>
    if view.phase = .idle then some (view.lwLockConditionalAcquire lock mode) else none
  | .release lock => if view.phase = .idle then some (view.lwLockRelease lock) else none
  | .proceed spurious => view.proceed spurious

/-- A backend that is not disturbed and finds the lock free. -/
theorem LwView.exists_runActions_acquire {view : LwView Λ} (idle : view.phase = .idle)
    (free : view.state lock = 0) :
    ∃ steps after, runActions act view (.acquire lock mode :: steps) = some after ∧
      after.phase = .idle ∧ after.held = Storage.lwLockAcquire view.held lock mode := by
  cases found : findHeldCount view.held lock with
  | some entry =>
    have isLock : entry.lock = lock := by simpa using List.find?_some found
    refine ⟨[], view.lwLockAcquire lock mode, by simp [runActions, act, idle], ?_⟩
    simp only [lwLockAcquire, Storage.lwLockAcquire, found]
    split
    · exact ⟨idle, by rw [countUp, isLock]⟩
    · exact ⟨idle, rfl⟩
  | none =>
    cases mode with
    | exclusive =>
      refine ⟨[.proceed false, .proceed false], ?_⟩
      simp [runActions, act, idle, lwLockAcquire, Storage.lwLockAcquire, found, proceed, win, free]
    | shared =>
      refine ⟨[.proceed false, .proceed false, .proceed false], ?_⟩
      simp [runActions, act, idle, lwLockAcquire, Storage.lwLockAcquire, found, proceed, win, free]

theorem LwView.exists_runActions_release {view : LwView Λ} (idle : view.phase = .idle) :
    ∃ steps after, runActions act view (.release lock :: steps) = some after ∧
      after.phase = .idle ∧ after.held = Storage.lwLockRelease view.held lock := by
  cases found : findHeldCount view.held lock with
  | none => exact ⟨[], by simp [runActions, act, idle, lwLockRelease, Storage.lwLockRelease, found]⟩
  | some entry =>
    by_cases more : 0 < (entry.count - 1#32).toInt
    · refine ⟨[], ?_⟩
      simp [runActions, act, idle, lwLockRelease, Storage.lwLockRelease, found, more,
        -BitVec.toInt_sub]
    · refine ⟨[.proceed false, .proceed false], ?_⟩
      simp [runActions, act, idle, lwLockRelease, Storage.lwLockRelease, found, more, proceed,
        -BitVec.toInt_sub]

structure LwSystem (ι Λ : Type) where
  state : Λ → BitVec 32
  phase : ι → LwPhase Λ
  held : ι → List (HeldCount Λ)
  pending : ι → Λ → List LWLockMode

def LwSystem.initial (ι Λ : Type) : LwSystem ι Λ :=
  { state := fun _ => 0, phase := fun _ => .idle, held := fun _ => [], pending := fun _ _ => [] }

variable {ι : Type} [DecidableEq ι]

namespace LwSystem

section

variable (system : LwSystem ι Λ)

omit [DecidableEq Λ] [DecidableEq ι] in
def view (backend : ι) : LwView Λ :=
  { state := system.state, phase := system.phase backend, held := system.held backend
    pending := system.pending backend }

def setView (backend : ι) (view : LwView Λ) : LwSystem ι Λ :=
  { state := view.state, phase := update system.phase backend view.phase
    held := update system.held backend view.held
    pending := update system.pending backend view.pending }

def step (event : ι × LwAction Λ) : Option (LwSystem ι Λ) :=
  ((system.view event.1).act event.2).map (system.setView event.1)

def Holds (mode : LWLockMode) (backend : ι) (lock : Λ) : Prop :=
  mode ∈ system.pending backend lock

instance (system : LwSystem ι Λ) (mode : LWLockMode) (backend : ι)
    (lock : Λ) : Decidable (system.Holds mode backend lock) :=
  inferInstanceAs (Decidable (_ ∈ _))

/-- Locks are released by backends that hold them, and the nesting of
acquisitions stays within `int`. -/
def Allowed (event : ι × LwAction Λ) : Prop :=
  match event.2 with
  | .acquire lock _ => (system.pending event.1 lock).length + 1 < 2 ^ 31
  | .conditionalAcquire lock _ => (system.pending event.1 lock).length + 1 < 2 ^ 31
  | .release lock => system.pending event.1 lock ≠ []
  | .proceed _ => True

end

instance (system : LwSystem ι Λ) (event : ι × LwAction Λ) : Decidable (system.Allowed event) := by
  obtain ⟨_, _ | _ | _ | _⟩ := event <;> dsimp only [Allowed] <;> infer_instance

section

variable [Fintype ι] (system : LwSystem ι Λ) (lock : Λ)

/-- What the word says about who holds the lock. -/
structure WordExact : Prop where
  exclusive : system.state lock = kExclusiveBit ↔ ∃! backend, system.Holds .exclusive backend lock
  alone : system.state lock = kExclusiveBit → ∀ backend, ¬system.Holds .shared backend lock
  shared : system.state lock ≠ kExclusiveBit → (∀ backend, ¬system.Holds .exclusive backend lock) ∧
      (system.state lock).toNat = (Finset.univ.filter fun backend =>
          system.Holds .shared backend lock).card

end

/-- The backend has changed the word and not yet its list. -/
def BetweenUpdates (system : LwSystem ι Λ) (backend : ι) (lock : Λ) : Prop :=
  (∃ mode, system.phase backend = .push lock mode) ∨ system.phase backend = .erase lock

/-- The list of the backend has an entry for the lock exactly if the backend
holds it. -/
def EntryExact (system : LwSystem ι Λ) (backend : ι) (lock : Λ) : Prop :=
  (findHeldCount (system.held backend) lock).isSome ↔ ∃ mode, system.Holds mode backend lock

end LwSystem

end Pgcpp.Storage
