import Mathlib.Algebra.GroupWithZero.Nat
import Mathlib.Logic.Relation
/-!
# Runs of a machine whose steps may be refused

A machine is a function `step : σ → α → Except ε σ`. An action the machine
cannot take in a state, and an action that breaks it, both return an error;
the error says which. A `Run` is any sequence of accepted actions from a
start state in which every action meets a condition `C` on the state before
it. A theorem about every `Run` holds for every interleaving of the actions.

`exec` computes the state after a list of actions, so that a concrete run can
be built by evaluation.
-/

namespace Lib

variable {σ α ε τ β δ : Type}

/-- States reached from `s₀` by actions that are accepted and meet `C`. -/
inductive Run (step : σ → α → Except ε σ) (C : σ → α → Prop) (s₀ : σ) : σ → Prop
  | refl : Run step C s₀ s₀
  | step {s s' : σ} {a : α} : Run step C s₀ s → C s a → step s a = .ok s' → Run step C s₀ s'

/-- No condition on the actions. -/
def anyAction (_ : σ) (_ : α) : Prop := True

section Rules
variable {step : σ → α → Except ε σ} {C D : σ → α → Prop} {s₀ s : σ}

/-- An invariant kept by every accepted action holds after every run. -/
theorem Run.inv (I : σ → Prop) (h0 : I s₀) (hs : ∀ s a s', I s → C s a → step s a = .ok s' → I s')
    (h : Run step C s₀ s) : I s := by
  induction h with
  | refl => exact h0
  | step _ hc ht ih => exact hs _ _ _ ih hc ht

/-- An invariant whose step needs what earlier proofs established of every
state reached. -/
theorem Run.inv_of (J I : σ → Prop) (hJ : ∀ s, Run step C s₀ s → J s) (h0 : I s₀)
    (hs : ∀ s a s', J s → I s → C s a → step s a = .ok s' → I s') (h : Run step C s₀ s) : I s := by
  induction h with
  | refl => exact h0
  | step hr hc ht ih => exact hs _ _ _ (hJ _ hr) ih hc ht

/-- A weaker condition allows more runs. -/
theorem Run.mono (hCD : ∀ s a, C s a → D s a) (h : Run step C s₀ s) : Run step D s₀ s := by
  induction h with
  | refl => exact .refl
  | step _ hc ht ih => exact .step ih (hCD _ _ hc) ht

theorem Run.any (h : Run step C s₀ s) : Run step anyAction s₀ s :=
  h.mono fun _ _ _ => trivial

theorem Run.trans {s₁ : σ} (h₁ : Run step C s₀ s₁) (h₂ : Run step C s₁ s) : Run step C s₀ s := by
  induction h₂ with
  | refl => exact h₁
  | step _ hc ht ih => exact .step ih hc ht

/-- Simulation: if every action of one machine is a run of another on the
image state, every run of the first is a run of the second. -/
theorem Run.simulate {step' : τ → β → Except δ τ} {D : τ → β → Prop} (f : σ → τ)
    (hs : ∀ s a s', Run step C s₀ s → C s a → step s a = .ok s' → Run step' D (f s) (f s'))
    (h : Run step C s₀ s) : Run step' D (f s₀) (f s) := by
  induction h with
  | refl => exact .refl
  | step hr hc ht ih => exact ih.trans (hs _ _ _ hr hc ht)

end Rules

/-! ## Concrete runs -/

/-- The state after a list of actions, if each is accepted and passes `check`. -/
def exec (step : σ → α → Except ε σ) (check : σ → α → Bool) : σ → List α → Option σ
  | s, [] => some s
  | s, a :: as =>
    if check s a then
      match step s a with
      | .ok s' => exec step check s' as
      | .error _ => none
    else none

theorem exec_run {step : σ → α → Except ε σ} {check : σ → α → Bool} {C : σ → α → Prop}
    (hc : ∀ s a, check s a = true → C s a) {s s' : σ} {as : List α} (h : exec step check s as = some s') :
    Run step C s s' := by
  induction as generalizing s with
  | nil => simp only [exec, Option.some.injEq] at h; subst h; exact .refl
  | cons a as ih =>
    simp only [exec] at h
    split at h
    · rename_i hca
      split at h
      · rename_i s₁ hs
        exact (Run.refl.step (hc _ _ hca) hs).trans (ih h)
      · cases h
    · cases h

/-- A run that can be computed and ends in a state with `p` exists. -/
theorem exists_run (step : σ → α → Except ε σ) (check : σ → α → Bool) {C : σ → α → Prop}
    (hc : ∀ s a, check s a = true → C s a) (s : σ) (as : List α) (p : σ → Bool)
    (h : (exec step check s as).any p = true) : ∃ s', Run step C s s' ∧ p s' = true := by
  cases he : exec step check s as with
  | none => rw [he] at h; cases h
  | some s' => rw [he] at h; exact ⟨s', exec_run hc he, h⟩

/-- The same for runs without a condition. -/
theorem exists_run_any (step : σ → α → Except ε σ) (s : σ) (as : List α) (p : σ → Bool)
    (h : (exec step (fun _ _ => true) s as).any p = true) : ∃ s', Run step anyAction s s' ∧ p s' = true :=
  exists_run step (fun _ _ => true) (fun _ _ _ => trivial) s as p h

end Lib
