import Mathlib.Logic.Relation

/-!
# Runs of a step function

A labelled step function, and the runs whose steps all meet a condition on the state before the
step and its label. Where the condition can be decided, so can a run with given labels. A run with
given labels can also be asked about step by step (`Along`).
-/

set_option autoImplicit false

namespace Lib

variable {σ ℓ : Type}

/-- Runs of the step function whose steps all meet the condition. -/
abbrev Steps (step : σ → ℓ → Option σ) (C : σ → ℓ → Prop) : σ → σ → Prop :=
  Relation.ReflTransGen fun s s' => ∃ l, C s l ∧ step s l = some s'

namespace Steps

variable {step : σ → ℓ → Option σ} {C : σ → ℓ → Prop} {s s' : σ}

/-- What every step that meets the condition keeps, a run keeps. -/
theorem invariant {I : σ → Prop} (hI : ∀ s l s', C s l → step s l = some s' → I s → I s')
    (h : Steps step C s s') (hs : I s) : I s' := by
  induction h with
  | refl => exact hs
  | tail _ hstep ih =>
    obtain ⟨l, hl, hstep⟩ := hstep
    exact hI _ l _ hl hstep ih

end Steps

/-- The run with the given labels, if each of its steps meets the condition. -/
def runSteps (step : σ → ℓ → Option σ) (C : σ → ℓ → Prop) [∀ s l, Decidable (C s l)] :
    List ℓ → σ → Option σ
  | [], s => some s
  | l :: ls, s => if C s l then (step s l).bind (runSteps step C ls) else none

theorem steps_of_runSteps {step : σ → ℓ → Option σ} {C : σ → ℓ → Prop}
    [∀ s l, Decidable (C s l)] {ls : List ℓ} {s s' : σ}
    (h : runSteps step C ls s = some s') : Steps step C s s' := by
  induction ls generalizing s with
  | nil =>
    cases h
    exact .refl
  | cons l ls ih =>
    simp only [runSteps] at h
    split at h
    · rename_i hl
      obtain ⟨s₁, hstep, h⟩ := Option.bind_eq_some_iff.1 h
      exact .head ⟨l, hl, hstep⟩ (ih h)
    · exact nomatch h

/-- Every step of the run with the given labels is as `P` says. A run ends where there is no
    step to take. -/
def Along (step : σ → ℓ → Option σ) (P : σ → ℓ → Prop) : List ℓ → σ → Prop
  | [], _ => True
  | l :: ls, s => P s l ∧ ∀ s', step s l = some s' → Along step P ls s'

/-- What is equivalent for a step is so for all the steps of a run. -/
theorem along_congr {step : σ → ℓ → Option σ} {P Q : σ → ℓ → Prop} (h : ∀ s l, P s l ↔ Q s l)
    (ls : List ℓ) (s : σ) : Along step P ls s ↔ Along step Q ls s := by
  induction ls generalizing s with
  | nil => exact Iff.rfl
  | cons l ls ih => exact and_congr (h s l) (forall₂_congr fun s' _ => ih s')

end Lib
