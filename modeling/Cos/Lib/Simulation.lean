import Cos.Lib.Run

/-! # Simulation of machines that answer

A machine `σ → ι → ρ × σ` answers every step.  Two machines whose states stay related give the
same answers in every run.
-/

namespace Cos.Lib

variable {σ : Type u} {τ : Type v} {ι : Type w} {ρ : Type x}

def runTrace (step : σ → ι → ρ × σ) : σ → List ι → List ρ × σ
  | state, [] => ([], state)
  | state, label :: rest =>
      let done := step state label
      let later := runTrace step done.2 rest
      (done.1 :: later.1, later.2)

variable {concrete : σ → ι → ρ × σ} {abstract : τ → ι → ρ × τ} {allowed : σ → ι → Prop}
  {related : σ → τ → Prop}

theorem runTrace_simulates
    (simulates : ∀ state model label, related state model → allowed state label →
      (concrete state label).1 = (abstract model label).1 ∧
        related (concrete state label).2 (abstract model label).2)
    {state : σ} {model : τ} (start : related state model) {labels : List ι}
    (permitted : StepsAllowed (fun state label => (concrete state label).2) allowed state labels) :
    (runTrace concrete state labels).1 = (runTrace abstract model labels).1 ∧
      related (runTrace concrete state labels).2 (runTrace abstract model labels).2 := by
  induction labels generalizing state model with
  | nil => exact ⟨rfl, start⟩
  | cons label rest ih =>
      obtain ⟨answers, next⟩ := simulates state model label start permitted.1
      obtain ⟨later, final⟩ := ih next permitted.2
      refine ⟨?_, final⟩
      rw [runTrace, runTrace, answers, later]

end Cos.Lib
