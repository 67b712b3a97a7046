import Mathlib.Data.List.Basic

/-!
# Runs of a machine

A machine goes from state to state as a list of events tells it. A run is looked at step by step,
where a step is an event and the state that it comes in.

* `EachStep`: every step of the run has a property; `eachStep_cons`.
* **`foldl_invariant`**: what every step keeps, the run keeps.
* **`eachStep_iff_of_invariant`**: two properties of steps that agree under an invariant hold of the
  same runs, when the first one keeps the invariant.
-/

namespace Machine

variable {σ ε : Type} (step : σ → ε → σ)

/-- Every step of the run from `s` has the property. -/
def EachStep (P : σ → ε → Prop) (s : σ) (es : List ε) : Prop :=
  ∀ before e after, es = before ++ e :: after → P (before.foldl step s) e

variable {step} {P Q : σ → ε → Prop} {I : σ → Prop} {s : σ} {e : ε} {es : List ε}

theorem eachStep_nil : EachStep step P s [] := by
  intro before e after h
  exact absurd h.symm (List.append_ne_nil_of_right_ne_nil before (List.cons_ne_nil e after))

theorem eachStep_cons :
    EachStep step P s (e :: es) ↔ P s e ∧ EachStep step P (step s e) es := by
  constructor
  · intro h
    refine ⟨h [] e es rfl, ?_⟩
    rintro before f after rfl
    exact h (e :: before) f after rfl
  · rintro ⟨he, hes⟩ before f after h
    cases before with
    | nil =>
      cases h
      exact he
    | cons g before =>
      cases h
      exact hes before f after rfl

theorem foldl_invariant (hstep : ∀ s e, I s → I (step s e)) (h : I s) (es : List ε) :
    I (es.foldl step s) := by
  induction es generalizing s with
  | nil => exact h
  | cons e es ih => exact ih (hstep s e h)

theorem eachStep_iff_of_invariant (hiff : ∀ s e, I s → (P s e ↔ Q s e))
    (hkeep : ∀ s e, I s → P s e → I (step s e)) (h : I s) (es : List ε) :
    EachStep step P s es ↔ EachStep step Q s es := by
  induction es generalizing s with
  | nil => exact iff_of_true eachStep_nil eachStep_nil
  | cons e es ih =>
    rw [eachStep_cons, eachStep_cons, ← hiff s e h]
    apply and_congr_right
    intro hP
    exact ih (hkeep s e h hP)

end Machine
