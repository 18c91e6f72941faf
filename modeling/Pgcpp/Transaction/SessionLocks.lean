import Mathlib.Data.List.Nodup
import Pgcpp.Lib.Transition

/-!
# Session locks

The lock manager keeps one record of a tag and a mode, with the level of the
first acquisition.  The end of a transaction removes the records of its level.
-/

namespace Pgcpp.Transaction

open Lib

inductive LockMode where
  | noLock | accessShareLock | rowShareLock | rowExclusiveLock | shareUpdateExclusiveLock
  | shareLock | shareRowExclusiveLock | exclusiveLock | accessExclusiveLock
  deriving DecidableEq

structure LockTag where
  relid : Nat
  locktagType : Int
  deriving DecidableEq

/-- What `FindHeldLock` looks for. -/
abbrev LockKey := LockTag × LockMode

structure LockEntry where
  key : LockKey
  sessionLock : Bool
  deriving DecidableEq

def lockAcquire (locks : List LockEntry) (key : LockKey) (sessionLock : Bool) : List LockEntry :=
  if key.2 = .noLock ∨ key ∈ locks.map LockEntry.key then locks else locks ++ [⟨key, sessionLock⟩]

def lockRelease (locks : List LockEntry) (key : LockKey) : List LockEntry :=
  locks.eraseP fun lock => lock.key = key

def lockReleaseAll (locks : List LockEntry) (sessionLock : Bool) : List LockEntry :=
  if sessionLock then [] else locks.filter LockEntry.sessionLock

theorem lockRelease_eq_filter (distinct : (locks.map LockEntry.key).Nodup) :
    lockRelease locks key = locks.filter fun lock => lock.key ≠ key := by
  unfold lockRelease
  induction locks with
  | nil => rfl
  | cons first _ ih =>
    obtain ⟨apart, distinctRest⟩ := List.nodup_cons.1 distinct
    by_cases here : first.key = key
    · rw [List.eraseP_cons_of_pos (by simpa using here),
        List.filter_cons_of_neg (by simpa using here), List.filter_eq_self.2]
      intro lock mem
      rw [decide_eq_true_eq, ← here]
      intro same
      apply apart
      rw [← same]
      exact List.mem_map_of_mem mem
    · rw [List.eraseP_cons_of_neg (by simpa using here),
        List.filter_cons_of_pos (by simpa using here), ih distinctRest]

inductive LockCall where
  | acquire (key : LockKey) (sessionLock : Bool)
  | release (key : LockKey)
  /-- `LockReleaseAll(false)`. -/
  | releaseAll

/-- The records, and what was acquired at session level and not released since. -/
structure LockTable where
  locks : List LockEntry
  session : List LockKey

namespace LockTable

def initial : LockTable := { locks := [], session := [] }

def step (table : LockTable) : LockCall → Option LockTable
  | .acquire key sessionLock => some { locks := lockAcquire table.locks key sessionLock, session :=
          if sessionLock ∧ key.2 ≠ .noLock then key :: table.session else table.session }
  | .release key => some
      { locks := lockRelease table.locks key, session := table.session.filter (· ≠ key) }
  | .releaseAll => some { table with locks := lockReleaseAll table.locks false }

/-- No lock that is held at transaction level is acquired at session level. -/
def Safe (table : LockTable) : LockCall → Prop
  | .acquire key sessionLock => sessionLock → ⟨key, false⟩ ∉ table.locks
  | _ => True

instance (table : LockTable) (call : LockCall) : Decidable (table.Safe call) := by
  cases call <;> dsimp only [Safe] <;> infer_instance

structure Invariant (table : LockTable) : Prop where
  distinct : (table.locks.map LockEntry.key).Nodup
  recorded : ∀ key, ⟨key, true⟩ ∈ table.locks ↔ key ∈ table.session

variable {table : LockTable}

theorem Invariant.acquire (invariant : table.Invariant)
    (safe : table.Safe (.acquire key sessionLock))
    (taken : table.step (.acquire key sessionLock) = some after) : after.Invariant := by
  obtain ⟨distinct, recorded⟩ := invariant
  cases taken
  by_cases idle : key.2 = .noLock ∨ key ∈ table.locks.map LockEntry.key
  · simp only [lockAcquire, if_pos idle]
    refine ⟨distinct, ?_⟩
    intro other
    split_ifs with session
    · rw [recorded, List.mem_cons, iff_or_self]
      rintro rfl
      obtain ⟨⟨_, level⟩, mem, rfl⟩ := List.mem_map.1 (idle.resolve_left session.2)
      cases level with
      | false => exact absurd mem (safe session.1)
      | true => exact (recorded _).1 mem
    · exact recorded other
  · obtain ⟨isLock, new⟩ := not_or.1 idle
    simp only [lockAcquire, if_neg idle]
    constructor
    · rw [List.map_append, List.map_singleton, ← List.concat_eq_append]
      exact distinct.concat new
    intro other
    rw [List.mem_append, recorded]
    cases sessionLock with
    | false => simp
    | true => simp [isLock, or_comm]

theorem Invariant.step (invariant : table.Invariant) (safe : table.Safe call)
    (taken : table.step call = some after) : after.Invariant := by
  obtain ⟨distinct, recorded⟩ := invariant
  cases call with
  | acquire key _ => exact Invariant.acquire ⟨distinct, recorded⟩ safe taken
  | release key =>
    cases taken
    simp only [lockRelease_eq_filter distinct]
    refine ⟨(List.filter_sublist.map _).nodup distinct, ?_⟩
    intro other
    rw [List.mem_filter, List.mem_filter, recorded]
  | releaseAll =>
    cases taken
    refine ⟨(List.filter_sublist.map _).nodup distinct, ?_⟩
    intro other
    rw [← recorded]
    simp [lockReleaseAll]

/-- In every run that acquires no lock at session level while it is held at
transaction level, the end of a transaction leaves the locks acquired at session
level and not released since. -/
theorem sessionLocks_outlive (run : Reaches step Safe initial table) (key : LockKey) :
    key ∈ (lockReleaseAll table.locks false).map LockEntry.key ↔ key ∈ table.session := by
  have invariant : table.Invariant := by
    apply run.invariant Invariant
    · intro _ _ _ holds safe taken
      exact holds.step safe taken
    · exact ⟨List.nodup_nil, by simp [initial]⟩
  rw [← invariant.recorded key]
  constructor
  · intro member
    obtain ⟨⟨_, _⟩, kept, rfl⟩ := List.mem_map.1 member
    obtain ⟨held, rfl⟩ := List.mem_filter.1 kept
    exact held
  · intro held
    exact List.mem_map_of_mem (List.mem_filter.2 ⟨held, rfl⟩)

def relationLock : LockKey := (⟨1, 1⟩, .accessShareLock)

def bothLevels : List LockCall :=
  [.acquire relationLock true, .acquire (⟨1, 2⟩, .accessShareLock) false,
    .acquire relationLock false, .releaseAll, .acquire (⟨1, 2⟩, .accessShareLock) true]

theorem sessionLocks_outlive_bothLevels : ∃ table, runActions step initial bothLevels = some table ∧
    relationLock ∈ (lockReleaseAll table.locks false).map LockEntry.key := by
  have allowed : AllAllowed step Safe initial bothLevels := by decide
  exact ⟨_, rfl, (sessionLocks_outlive (.of_runActions allowed rfl) relationLock).2 (by decide)⟩

/-- Acquired at transaction level and then at session level, the lock does not
outlive the transaction. -/
theorem sessionLock_lost : ∃ table, runActions step initial
      [.acquire relationLock false, .acquire relationLock true] = some table ∧
    relationLock ∈ table.session ∧ lockReleaseAll table.locks false = [] :=
  ⟨_, rfl, by decide, by decide⟩

end LockTable

end Pgcpp.Transaction
