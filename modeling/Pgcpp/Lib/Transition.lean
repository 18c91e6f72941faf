import Mathlib.Logic.Relation

/-!
# Runs of a labelled step function

A system is a partial step function on states.  A guard restricts which steps
a run may take; invariants are established for one guarded step and carried
over whole runs.  Runs given by a list of actions can be executed.
-/

namespace Pgcpp.Lib

open Relation.ReflTransGen

universe u v

variable {State : Type u} {Action : Type v}

/-- One step that meets the guard in the state it starts from. -/
def GuardedStep (step : State → Action → Option State)
    (guard : State → Action → Prop) (before after : State) : Prop :=
  ∃ action, guard before action ∧ step before action = some after

/-- Runs all of whose steps meet the guard. -/
def Reaches (step : State → Action → Option State)
    (guard : State → Action → Prop) : State → State → Prop :=
  Relation.ReflTransGen (GuardedStep step guard)

/-- Execution of a list of actions; `none` when one of them is not enabled. -/
def runActions (step : State → Action → Option State) : State → List Action → Option State
  | state, [] => some state
  | state, action :: rest =>
    match step state action with
    | none => none
    | some next => runActions step next rest

/-- Every action that is executed meets the guard. -/
def AllAllowed (step : State → Action → Option State)
    (guard : State → Action → Prop) : State → List Action → Prop
  | _, [] => True
  | state, action :: rest =>
    guard state action ∧
      match step state action with
      | none => True
      | some next => AllAllowed step guard next rest

instance decidableAllAllowed (step : State → Action → Option State) (guard : State → Action → Prop)
    [∀ state action, Decidable (guard state action)] :
    (state : State) → (actions : List Action) → Decidable (AllAllowed step guard state actions)
  | _, [] => isTrue trivial
  | state, action :: rest => by
    have _later (next : State) := decidableAllAllowed step guard next rest
    dsimp only [AllAllowed]
    cases step state action <;> infer_instance

/-- The property holds in every state of an execution. -/
def Throughout (step : State → Action → Option State)
    (Property : State → Prop) : State → List Action → Prop
  | state, [] => Property state
  | state, action :: rest =>
    Property state ∧
      match step state action with
      | none => True
      | some next => Throughout step Property next rest

section

variable {step : State → Action → Option State} {guard : State → Action → Prop}

theorem Reaches.invariant (run : Reaches step guard start finish) (Invariant : State → Prop)
    (preserved : ∀ before action after, Invariant before →
      guard before action → step before action = some after →
      Invariant after) (initially : Invariant start) : Invariant finish := by
  induction run with
  | refl => exact initially
  | tail _ last kept =>
    obtain ⟨action, allowed, taken⟩ := last
    exact preserved _ action _ kept allowed taken

theorem allAllowed_of_forall_mem (allowed : ∀ action ∈ actions, ∀ state, guard state action) :
    AllAllowed step guard start actions := by
  induction actions generalizing start with
  | nil => trivial
  | cons action _ ih =>
    refine ⟨allowed action List.mem_cons_self start, ?_⟩
    split
    · trivial
    apply ih
    intro later mem
    exact allowed later (List.mem_cons_of_mem action mem)

theorem Reaches.of_runActions (allowed : AllAllowed step guard start actions)
    (executed : runActions step start actions = some finish) : Reaches step guard start finish := by
  induction actions generalizing start with
  | nil =>
    obtain rfl : start = finish := by simpa [runActions] using executed
    exact refl
  | cons action _ ih =>
    obtain ⟨here, later⟩ := allowed
    rw [runActions] at executed
    cases taken : step start action with
    | none => simp [taken] at executed
    | some _ =>
      simp only [taken] at executed later
      exact head ⟨action, here, taken⟩ (ih later executed)

theorem Reaches.of_unguarded (actions : List Action)
    (executed : runActions step start actions = some finish) :
    Reaches step (fun _ _ => True) start finish :=
  of_runActions (allAllowed_of_forall_mem fun _ _ _ => trivial) executed

theorem Throughout.initially (holds : Throughout step Property start actions) : Property start := by
  cases actions with
  | nil => exact holds
  | cons _ _ => exact holds.1

/-- If a step keeps a property exactly when it meets the guard, the property
holds throughout an execution exactly when every step meets the guard. -/
theorem throughout_iff_allAllowed {Invariant Property : State → Prop}
    (exact : ∀ state action, Invariant state → Property state →
      ∃ next, step state action = some next ∧ Invariant next ∧ (Property next ↔ guard state action))
    (invariant : Invariant start) (initially : Property start) :
    Throughout step Property start actions ↔ AllAllowed step guard start actions := by
  induction actions generalizing start with
  | nil => exact iff_of_true initially trivial
  | cons action _ ih =>
    obtain ⟨next, taken, kept, iff⟩ := exact start action invariant initially
    simp only [Throughout, AllAllowed, taken]
    constructor
    · rintro ⟨_, later⟩
      exact ⟨iff.1 later.initially, (ih kept later.initially).1 later⟩
    · rintro ⟨allowed, later⟩
      exact ⟨initially, (ih kept (iff.2 allowed)).2 later⟩

end

end Pgcpp.Lib
