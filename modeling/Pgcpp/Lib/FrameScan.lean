import Mathlib.Data.List.Basic

/-!
# Scans of a log of frames

A reader returns, at each position of a log, a frame and the position behind it,
or the reason why there is none.  A scan reads frame after frame until the
reader stops.  It is bounded by fuel; a reader that moves forward inside a
finite log stops in time.
-/

namespace Pgcpp.Lib

/-- What a reader returns at a position. -/
inductive Scanned (β ρ : Type) where
  | frame (value : β) (next : Nat)
  | stop (reason : ρ)
  deriving DecidableEq

section

variable {β ρ : Type} (read : Nat → Scanned β ρ)

/-- The frames from a position on, and the reason the scan stopped, which is
missing when the fuel ran out. -/
def scan : Nat → Nat → List β × Option ρ
  | 0, _ => ([], none)
  | fuel + 1, position =>
    match read position with
    | .stop reason => ([], some reason)
    | .frame value next => (value :: (scan fuel next).1, (scan fuel next).2)

/-- The reader returns the frames one after another. -/
inductive FrameChain : Nat → List β → Nat → Prop where
  | nil (position : Nat) : FrameChain position [] position
  | cons (here : read position = .frame value next) (later : FrameChain next rest finish) :
      FrameChain position (value :: rest) finish

variable {read}

theorem FrameChain.scan_eq (chain : FrameChain read start values finish)
    (stops : read finish = .stop reason) (enough : values.length < fuel) :
    scan read fuel start = (values, some reason) := by
  induction chain generalizing fuel with
  | nil _ =>
    cases fuel with
    | zero => exact absurd enough (Nat.not_lt_zero _)
    | succ fuel => simp [scan, stops]
  | cons here _ ih =>
    cases fuel with
    | zero => exact absurd enough (Nat.not_lt_zero _)
    | succ fuel =>
      have later := ih stops (Nat.lt_of_succ_lt_succ enough)
      simp [scan, here, later]

/-- What a scan returns is a chain up to a position where the reader stops. -/
theorem exists_frameChain_of_scan (scanned : scan read fuel start = (values, some reason)) :
    ∃ finish, FrameChain read start values finish ∧ read finish = .stop reason := by
  induction fuel generalizing start values with
  | zero => simp [scan] at scanned
  | succ fuel ih =>
    rw [scan] at scanned
    cases outcome : read start with
    | stop _ =>
      simp only [outcome] at scanned
      cases scanned
      exact ⟨start, .nil start, outcome⟩
    | frame _ _ =>
      simp only [outcome, Prod.mk.injEq] at scanned
      obtain ⟨rfl, stopped⟩ := scanned
      obtain ⟨finish, chain, stops⟩ := ih (Prod.ext rfl stopped)
      exact ⟨finish, .cons outcome chain, stops⟩

theorem FrameChain.length_le (chain : FrameChain read start values finish)
    (forward : ∀ pos value next, read pos = .frame value next →
      pos < next) : start + values.length ≤ finish := by
  induction chain with
  | nil pos => exact Nat.le_refl _
  | cons here _ _ =>
    have further := forward _ _ _ here
    rw [List.length_cons]
    omega

theorem FrameChain.append {middle : Nat} {more : List β}
    (first : FrameChain read start values middle) (second : FrameChain read middle more finish) :
    FrameChain read start (values ++ more) finish := by
  induction first with
  | nil _ => exact second
  | cons here _ ih => exact .cons here (ih second)

end

end Pgcpp.Lib
