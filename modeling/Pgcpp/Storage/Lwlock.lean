import Mathlib.Data.List.Basic

/-!
# Lightweight locks

The list of the locks a backend holds, in the order it acquired them.  A lock
that is acquired again is counted.  `lwLockAcquire` and `lwLockRelease` are the
calls as the backend itself sees them: an acquisition that has to wait returns
when the lock is free.
-/

namespace Pgcpp.Storage

inductive LWLockMode where
  | exclusive
  | shared
  deriving DecidableEq

inductive LWLock where
  | bufFreelist
  | bufMapping (partition : Nat)
  deriving DecidableEq

/-- `HeldLock`, with its `int`. -/
structure HeldCount (Λ : Type) where
  lock : Λ
  mode : LWLockMode
  count : BitVec 32
  deriving DecidableEq

variable {Λ : Type} [DecidableEq Λ]

/-- `FindHeld`. -/
def findHeldCount (held : List (HeldCount Λ)) (lock : Λ) : Option (HeldCount Λ) :=
  held.find? fun entry => entry.lock = lock

/-- Writes the count of the entry that `FindHeld` returns. -/
def setHeldCount (lock : Λ) (count : BitVec 32) : List (HeldCount Λ) → List (HeldCount Λ)
  | [] => []
  | entry :: rest =>
    if entry.lock = lock then { entry with count := count } :: rest
    else entry :: setHeldCount lock count rest

def eraseHeldCount (held : List (HeldCount Λ)) (lock : Λ) : List (HeldCount Λ) :=
  held.eraseP fun entry => entry.lock = lock

/-- `LWLockAcquire`; nothing is done when the lock is held in the other mode. -/
def lwLockAcquire (held : List (HeldCount Λ)) (lock : Λ) (mode : LWLockMode) : List (HeldCount Λ) :=
  match findHeldCount held lock with
  | some entry => if entry.mode = mode then setHeldCount lock (entry.count + 1) held else held
  | none => held ++ [{ lock := lock, mode := mode, count := 1 }]

def lwLockRelease (held : List (HeldCount Λ)) (lock : Λ) : List (HeldCount Λ) :=
  match findHeldCount held lock with
  | none => held
  | some entry =>
    let held := setHeldCount lock (entry.count - 1) held
    if 0 < (entry.count - 1).toInt then held else eraseHeldCount held lock

section

variable {held : List (HeldCount Λ)}

theorem findHeldCount_set_self (count : BitVec 32) (found : findHeldCount held lock = some entry) :
    findHeldCount (setHeldCount lock count held) lock = some { entry with count := count } := by
  induction held with
  | nil => contradiction
  | cons first _ ih =>
    by_cases same : first.lock = lock
    · simp only [findHeldCount, List.find?_cons, same] at found
      cases found
      simp [findHeldCount, setHeldCount, same]
    · simp only [findHeldCount, List.find?_cons, same] at found
      simp only [findHeldCount, setHeldCount, same, if_false, List.find?_cons]
      exact ih found

theorem findHeldCount_set_other (ne : other ≠ lock) :
    findHeldCount (setHeldCount lock count held) other = findHeldCount held other := by
  induction held with
  | nil => rfl
  | cons first _ ih =>
    simp only [findHeldCount] at ih
    by_cases same : first.lock = lock
    · simp [findHeldCount, setHeldCount, same, ne.symm]
    · simp only [findHeldCount, setHeldCount, same, if_false, List.find?_cons, ih]

theorem findHeldCount_append_self (free : findHeldCount held lock = none)
    (isLock : entry.lock = lock) : findHeldCount (held ++ [entry]) lock = some entry := by
  simp only [findHeldCount] at free ⊢
  simp [free, isLock]

theorem findHeldCount_erase_other (ne : other ≠ lock) :
    findHeldCount (eraseHeldCount held lock) other = findHeldCount held other := by
  induction held with
  | nil => rfl
  | cons first _ ih =>
    simp only [findHeldCount, eraseHeldCount] at ih ⊢
    by_cases same : first.lock = lock
    · simp [same, ne.symm]
    · simp only [List.eraseP_cons, same, decide_false, cond_false, List.find?_cons, ih]

theorem isSome_lwLockAcquire (held : List (HeldCount Λ)) (lock : Λ) (mode : LWLockMode) :
    (findHeldCount (lwLockAcquire held lock mode) lock).isSome := by
  unfold lwLockAcquire
  cases found : findHeldCount held lock with
  | none => simp only [findHeldCount_append_self found, Option.isSome_some]
  | some _ =>
    simp only
    split
    · simp only [findHeldCount_set_self _ found, Option.isSome_some]
    · simp only [found, Option.isSome_some]

theorem findHeldCount_lwLockAcquire_of_ne (ne : other ≠ lock) :
    findHeldCount (lwLockAcquire held lock mode) other = findHeldCount held other := by
  unfold lwLockAcquire
  split
  · split
    · exact findHeldCount_set_other ne
    · rfl
  · simp [findHeldCount, ne.symm]

theorem findHeldCount_lwLockRelease_of_ne (ne : other ≠ lock) :
    findHeldCount (lwLockRelease held lock) other = findHeldCount held other := by
  unfold lwLockRelease
  split
  · rfl
  split
  · exact findHeldCount_set_other ne
  · rw [findHeldCount_erase_other ne, findHeldCount_set_other ne]

end

end Pgcpp.Storage
