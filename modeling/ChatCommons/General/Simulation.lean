import Mathlib

/-!
A machine that answers inputs, beside a specification of what an input may lead to. While
each step of the machine is one that the specification permits, so is every run.
-/

namespace ChatCommons.Simulation

variable {σ τ ι ο : Type} {step : σ → ι → σ × ο} {spec : τ → ι → ο → τ → Prop}

/-- The last state and the answers, along a list of inputs. -/
def run (step : σ → ι → σ × ο) : σ → List ι → σ × List ο
  | s, [] => (s, [])
  | s, i :: inputs =>
    let rest := run step (step s i).1 inputs
    (rest.1, (step s i).2 :: rest.2)

/-- Every input finds a state that it is fit for. -/
def Along (step : σ → ι → σ × ο) (P : σ → ι → Prop) : σ → List ι → Prop
  | _, [] => True
  | s, i :: inputs => P s i ∧ Along step P (step s i).1 inputs

inductive Explained (spec : τ → ι → ο → τ → Prop) : τ → List ι → List ο → τ → Prop
  | nil {t : τ} : Explained spec t [] [] t
  | cons {t mid t' : τ} {i : ι} {o : ο} {inputs : List ι} {outputs : List ο}
      (h : spec t i o mid) (hrest : Explained spec mid inputs outputs t') :
    Explained spec t (i :: inputs) (o :: outputs) t'

theorem run_explained {R : σ → τ → Prop} {P : σ → ι → Prop}
    (hstep : ∀ {s : σ} {t : τ} {i : ι}, R s t → P s i →
      ∃ t', spec t i (step s i).2 t' ∧ R (step s i).1 t')
    {s : σ} {t : τ} {inputs : List ι} (h : R s t) (hfit : Along step P s inputs) :
    ∃ t', Explained spec t inputs (run step s inputs).2 t' ∧ R (run step s inputs).1 t' := by
  induction inputs generalizing s t with
  | nil => exact ⟨t, .nil, h⟩
  | cons i inputs ih =>
    obtain ⟨mid, hspec, hmid⟩ := hstep h hfit.1
    obtain ⟨t', hrest, hlast⟩ := ih hmid hfit.2
    exact ⟨t', .cons hspec hrest, hlast⟩

end ChatCommons.Simulation
