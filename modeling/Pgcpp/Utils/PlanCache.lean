import Mathlib.Algebra.Group.Nat.Defs
import Mathlib.Logic.Function.Basic
import Pgcpp.Lib.Transition

/-!
# Cached plans

A plan carries the catalog generation it was built under, and is taken to be
valid as long as that is the current one.  `ProcessUtility` increments the
generation after DDL that raises no error.  An abort restores the catalog
without doing so.
-/

namespace Pgcpp.Utils

open Lib Function

/-- A plan, by the catalog it was built under. -/
structure CachedPlan (Catalog : Type) where
  catalog : Catalog
  generation : BitVec 64

structure Session (Catalog : Type) where
  catalog : Catalog
  snapshot : Option Catalog := none
  generation : BitVec 64 := 0
  cachedPlan : Nat → Option (CachedPlan Catalog) := fun _ => none

inductive Call (Catalog : Type) where
  | startTransaction
  | processUtility (ddl : Catalog → Catalog)
  /-- VACUUM and ANALYZE, a new TOAST table, and DDL that raises an error after it
  has changed the catalog: the increment is not reached. -/
  | changeCatalog (change : Catalog → Catalog)
  | commitTransaction
  | abortTransaction
  | getCachedPlan (source : Nat)

namespace Session

variable {Catalog : Type} (planner : Nat → Catalog → Bool) (session : Session Catalog)

/-- `GetCachedPlan`, `none` if the planner finds no plan. -/
def getCachedPlan (source : Nat) : Option (CachedPlan Catalog) :=
  ((session.cachedPlan source).filter (·.generation = session.generation)).or
    (if planner source session.catalog then some ⟨session.catalog, session.generation⟩ else none)

def step : Call Catalog → Option (Session Catalog)
  | .startTransaction => some { session with snapshot := some session.catalog }
  | .processUtility ddl =>
    some { session with catalog := ddl session.catalog, generation := session.generation + 1 }
  | .changeCatalog change => some { session with catalog := change session.catalog }
  | .commitTransaction => some { session with snapshot := none }
  | .abortTransaction => some { session with
      catalog := session.snapshot.getD session.catalog, snapshot := none }
  | .getCachedPlan source => some { session with
      cachedPlan := update session.cachedPlan source (session.getCachedPlan planner source) }

def NeverStale : Prop :=
  ∀ source plan, session.getCachedPlan planner source = some plan → plan.catalog = session.catalog

/-- The cached plans of a generation were built under the catalog. -/
def BuiltUnder (generation : BitVec 64) (catalog : Catalog) : Prop :=
  ∀ source plan, session.cachedPlan source = some plan → plan.generation = generation →
    plan.catalog = catalog

def HoldsValid : Prop :=
  ∃ source plan, session.cachedPlan source = some plan ∧ plan.generation = session.generation

/-- The catalog does not change, unless the generation does or no plan is there
that is taken to be valid. -/
def CallSafe : Call Catalog → Prop
  | .changeCatalog change => session.HoldsValid → change session.catalog = session.catalog
  | .abortTransaction =>
    session.HoldsValid → session.snapshot.getD session.catalog = session.catalog
  | _ => True

/-- Generations have not come again. -/
def Stamped : Prop :=
  ∀ source plan, session.cachedPlan source = some plan →
    plan.generation.toNat ≤ session.generation.toNat

theorem neverStale_iff :
    session.NeverStale planner ↔ session.BuiltUnder session.generation session.catalog := by
  constructor
  · intro current source plan cached valid
    apply current source
    simp [getCachedPlan, cached, valid]
  · intro built source plan returned
    rcases Option.or_eq_some_iff.1 returned with kept | ⟨_, planned⟩
    · obtain ⟨cached, valid⟩ := Option.filter_eq_some_iff.1 kept
      exact built source plan cached (of_decide_eq_true valid)
    · split at planned <;> cases planned
      rfl

theorem neverStale_of_catalog (built : session.BuiltUnder session.generation session.catalog) :
    NeverStale planner { session with catalog := later, snapshot := saved } ↔
      (session.HoldsValid → later = session.catalog) := by
  rw [neverStale_iff]
  constructor
  · rintro current ⟨source, plan, cached, valid⟩
    exact (current source plan cached valid).symm.trans (built source plan cached valid)
  · intro same source plan cached valid
    exact (built source plan cached valid).trans (same ⟨source, plan, cached, valid⟩).symm

theorem step_neverStale_iff (current : session.NeverStale planner) (stamped : session.Stamped)
    (few : session.generation.toNat + 1 < 2 ^ 64) (call : Call Catalog) :
    ∃ next, session.step planner call = some next ∧ next.Stamped ∧
      next.generation.toNat ≤ session.generation.toNat + 1 ∧
      (next.NeverStale planner ↔ session.CallSafe call) := by
  have built := (session.neverStale_iff planner).1 current
  have same := Nat.le_succ session.generation.toNat
  cases call with
  | getCachedPlan source =>
    have kept : ∀ other plan,
        update session.cachedPlan source (session.getCachedPlan planner source)
        other = some plan → session.cachedPlan other = some plan ∨
          plan = ⟨session.catalog, session.generation⟩ := by
      intro other plan cached
      by_cases same : other = source
      · subst same
        rw [update_self, getCachedPlan, Option.or_eq_some_iff, Option.filter_eq_some_iff] at cached
        rcases cached with kept | ⟨_, planned⟩
        · exact .inl kept.1
        · split at planned <;> cases planned
          exact .inr rfl
      · exact .inl (by rwa [update_of_ne same] at cached)
    refine ⟨_, rfl, ?_, same, iff_of_true ((neverStale_iff ..).2 ?_) trivial⟩
    · intro other plan cached
      rcases kept other plan cached with old | rfl
      · exact stamped other plan old
      · exact Nat.le_refl _
    · intro other plan cached valid
      rcases kept other plan cached with old | rfl
      · exact built other plan old valid
      · rfl
  | processUtility ddl =>
    have increments : (session.generation + 1).toNat = session.generation.toNat + 1 := by
      rw [BitVec.toNat_add]
      exact Nat.mod_eq_of_lt few
    refine ⟨_, rfl, ?_, Nat.le_of_eq increments, iff_of_true ((neverStale_iff ..).2 ?_) trivial⟩
    · intro source plan cached
      have older := stamped source plan cached
      dsimp only
      omega
    · intro source plan cached valid
      have older := stamped source plan cached
      rw [valid, increments] at older
      omega
  | changeCatalog => exact ⟨_, rfl, stamped, same, session.neverStale_of_catalog planner built⟩
  | abortTransaction => exact ⟨_, rfl, stamped, same, session.neverStale_of_catalog planner built⟩
  | startTransaction => exact ⟨_, rfl, stamped, same, iff_of_true current trivial⟩
  | commitTransaction => exact ⟨_, rfl, stamped, same, iff_of_true current trivial⟩

theorem throughout_neverStale_iff (current : session.NeverStale planner) (stamped : session.Stamped)
    (few : session.generation.toNat + calls.length < 2 ^ 64) :
    Throughout (step planner) (NeverStale planner) session calls ↔
      AllAllowed (step planner) CallSafe session calls := by
  induction calls generalizing session with
  | nil => exact iff_of_true current trivial
  | cons call calls ih =>
    rw [List.length_cons] at few
    obtain ⟨next, taken, held, later, safe⟩ :=
      session.step_neverStale_iff planner current stamped (by omega) call
    simp only [Throughout, AllAllowed, taken]
    constructor
    · rintro ⟨-, rest⟩
      exact ⟨safe.1 rest.initially, (ih next rest.initially held (by omega)).1 rest⟩
    · rintro ⟨allowed, rest⟩
      exact ⟨current, (ih next (safe.2 allowed) held (by omega)).2 rest⟩

end Session

/-- Plans stay current exactly when no rollback and no other catalog change without
an increment happens while a plan of the current generation is cached. -/
theorem cachedPlans_current_iff {Catalog : Type} (planner : Nat → Catalog → Bool)
    (catalog : Catalog) (calls : List (Call Catalog)) (few : calls.length < 2 ^ 64) :
    Throughout (Session.step planner) (Session.NeverStale planner) { catalog } calls ↔
      AllAllowed (Session.step planner) Session.CallSafe { catalog } calls := by
  apply Session.throughout_neverStale_iff
  · apply (Session.neverStale_iff ..).2
    simp [Session.BuiltUnder]
  · simp [Session.Stamped]
  · simpa using few

/-- A plan is built before DDL that is rolled back, and again afterwards. -/
theorem cachedPlans_current_replanned :
    Throughout (Session.step fun _ _ => true) (Session.NeverStale fun _ _ => true)
      { catalog := false } [.startTransaction, .getCachedPlan 0, .processUtility not,
        .abortTransaction, .getCachedPlan 0] := by
  refine (cachedPlans_current_iff _ false _ (by decide)).2
    ⟨trivial, trivial, trivial, ?_, trivial, trivial⟩
  rintro ⟨source, plan, cached, valid⟩
  have built : source = 0 ∧ (⟨false, 0⟩ : CachedPlan Bool) = plan := by
    simpa [update_apply, Session.getCachedPlan] using cached
  obtain ⟨-, rfl⟩ := built
  cases valid

/-- A plan is built after DDL that is rolled back. -/
theorem rolledBack_plan_stale :
    ¬Throughout (Session.step fun _ _ => true) (Session.NeverStale fun _ _ => true)
      { catalog := false } [.startTransaction, .processUtility not, .getCachedPlan 0,
        .abortTransaction] := by
  rintro ⟨_, _, _, _, current⟩
  exact absurd (current 0 _ rfl) (by decide)

end Pgcpp.Utils
