import Mathlib.Init

/-!
# Calls that return results

A component is a partial function from a state and a call to a state and a
result.  One component simulates another when related states go to related
states with the same result; then runs of calls have the same results.
-/

namespace Pgcpp.Lib

universe u v w x

variable {State : Type u} {Model : Type v} {Call : Type w} {Result : Type x}

/-- The state after a list of calls, and their results. -/
def runCalls (step : State → Call → Option (State × Result)) :
    State → List Call → Option (State × List Result)
  | state, [] => some (state, [])
  | state, call :: rest =>
    match step state call with
    | none => none
    | some (next, result) =>
      match runCalls step next rest with
      | none => none
      | some (last, results) => some (last, result :: results)

/-- Every call is made in a state in which the guard holds. -/
def AllCalls (step : State → Call → Option (State × Result))
    (guard : State → Call → Prop) : State → List Call → Prop
  | _, [] => True
  | state, call :: rest =>
    guard state call ∧
      match step state call with
      | none => True
      | some (next, _) => AllCalls step guard next rest

instance decidableAllCalls (step : State → Call → Option (State × Result))
    (guard : State → Call → Prop) [∀ state call, Decidable (guard state call)] :
    (state : State) → (calls : List Call) → Decidable (AllCalls step guard state calls)
  | _, [] => isTrue trivial
  | state, call :: rest => by
    have _later (next : State) := decidableAllCalls step guard next rest
    dsimp only [AllCalls]
    cases step state call <;> infer_instance

/-- The states of a relation go to states of it, with the result of the model,
when the call meets the guard. -/
def Simulates (step : State → Call → Option (State × Result))
    (modelStep : Model → Call → Option (Model × Result))
    (guard : Model → Call → Prop) (Related : State → Model → Prop) : Prop :=
  ∀ state model call next result, Related state model → guard model call →
    modelStep model call = some (next, result) →
    ∃ after, step state call = some (after, result) ∧ Related after next

section

variable {step : State → Call → Option (State × Result)}
  {modelStep : Model → Call → Option (Model × Result)}
  {guard : Model → Call → Prop} {Related : State → Model → Prop}

theorem runCalls_cons (taken : step state call = some (next, result))
    (run : runCalls step next rest = some (last, results)) :
    runCalls step state (call :: rest) = some (last, result :: results) := by
  rw [runCalls, taken]
  dsimp only
  rw [run]

theorem runCalls_cons_inv (run : runCalls step state (call :: rest) = some (last, results)) :
    ∃ next result later, step state call = some (next, result) ∧
      runCalls step next rest = some (last, later) ∧ results = result :: later := by
  rw [runCalls] at run
  split at run
  · contradiction
  next next result taken =>
    split at run
    · contradiction
    next final later ran =>
      cases run
      exact ⟨next, result, later, taken, ran, rfl⟩

theorem runCalls_append (ran : runCalls step state first = some (middle, results))
    (run : runCalls step middle second = some (last, more)) :
    runCalls step state (first ++ second) = some (last, results ++ more) := by
  induction first generalizing state results with
  | nil =>
    cases ran
    exact run
  | cons _ _ ih =>
    obtain ⟨_, _, _, taken, ranRest, rfl⟩ := runCalls_cons_inv ran
    exact runCalls_cons taken (ih ranRest)

theorem Simulates.runCalls (simulates : Simulates step modelStep guard Related)
    (related : Related state model) (allowed : AllCalls modelStep guard model calls)
    (run : runCalls modelStep model calls = some (final, results)) :
    ∃ last, Lib.runCalls step state calls = some (last, results) ∧ Related last final := by
  induction calls generalizing state model results with
  | nil =>
    cases run
    exact ⟨state, rfl, related⟩
  | cons call _ ih =>
    obtain ⟨next, result, _, taken, ran, rfl⟩ := runCalls_cons_inv run
    obtain ⟨guarded, allowedRest⟩ := allowed
    rw [taken] at allowedRest
    obtain ⟨_, stepped, relatedAfter⟩ :=
      simulates state model call next result related guarded taken
    obtain ⟨last, ranRest, relatedLast⟩ := ih relatedAfter allowedRest ran
    exact ⟨last, runCalls_cons stepped ranRest, relatedLast⟩

end

end Pgcpp.Lib
