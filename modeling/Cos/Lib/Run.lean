/-! # Runs of a state machine

A machine is a step function `σ → ι → σ` on labelled steps.  `Reaches step
allowed start` is the set of states a run from `start` comes to when every step
is one the environment may make in the state it is made in.
-/

namespace Cos.Lib

variable {σ : Type u} {ι : Type v} {step : σ → ι → σ} {allowed : σ → ι → Prop} {start state : σ}

inductive Reaches (step : σ → ι → σ) (allowed : σ → ι → Prop) (start : σ) : σ → Prop
  | refl : Reaches step allowed start start
  | next {state : σ} {label : ι} (before : Reaches step allowed start state)
      (permitted : allowed state label) : Reaches step allowed start (step state label)

theorem Reaches.invariant {holds : σ → Prop} (reached : Reaches step allowed start state)
    (initially : holds start)
    (preserved : ∀ state label, holds state → allowed state label → holds (step state label)) :
    holds state := by
  induction reached with
  | refl => exact initially
  | next before permitted ih => exact preserved _ _ ih permitted

def runSteps (step : σ → ι → σ) : σ → List ι → σ
  | state, [] => state
  | state, label :: rest => runSteps step (step state label) rest

def StepsAllowed (step : σ → ι → σ) (allowed : σ → ι → Prop) : σ → List ι → Prop
  | _, [] => True
  | state, label :: rest => allowed state label ∧ StepsAllowed step allowed (step state label) rest

instance StepsAllowed.decidable [∀ state label, Decidable (allowed state label)] :
    ∀ (state : σ) (labels : List ι), Decidable (StepsAllowed step allowed state labels)
  | _, [] => isTrue trivial
  | state, label :: rest =>
      have := StepsAllowed.decidable (step state label) rest
      inferInstanceAs (Decidable (allowed state label ∧ StepsAllowed step allowed (step state label) rest))

theorem stepsAllowed_congr {other : σ → ι → Prop}
    (same : ∀ state label, allowed state label ↔ other state label)
    (state : σ) (labels : List ι) : StepsAllowed step allowed state labels ↔
    StepsAllowed step other state labels := by
  induction labels generalizing state with
  | nil => exact Iff.rfl
  | cons label rest ih => exact and_congr (same state label) (ih (step state label))

theorem stepsAllowed_true (state : σ) (labels : List ι) :
    StepsAllowed step (fun _ _ => True) state labels := by
  induction labels generalizing state with
  | nil => trivial
  | cons label rest ih => exact ⟨trivial, ih (step state label)⟩

theorem Reaches.runSteps {labels : List ι} (reached : Reaches step allowed start state)
    (permitted : StepsAllowed step allowed state labels) :
    Reaches step allowed start (runSteps step state labels) := by
  induction labels generalizing state with
  | nil => exact reached
  | cons label rest ih => exact ih (reached.next permitted.1) permitted.2

end Cos.Lib
