import Mathlib.Data.List.Basic
/-!
# Locks a thread holds

Code of one thread that locks mutexes, as functions on a state and the list of
the mutexes the thread holds. A thread that locks a mutex it holds waits for
itself for ever; this is an error that names the mutex. Code may also fail for
reasons of its own.

`lockGuard` holds a mutex while its body runs. Code made of guards leaves the
thread with the mutexes it had, and what its parts leave of the state alone
(`Keeps`).
-/

namespace Lib

/-- Why a thread does not get any further. -/
inductive Halt (μ ε : Type)
  | deadlock (m : μ)
  | fault (e : ε)

structure Holding (μ σ : Type) where
  held : List μ
  state : σ

abbrev Critical (μ ε σ : Type) := Holding μ σ → Except (Halt μ ε) (Holding μ σ)

variable {μ ε σ β : Type}

/-- Code that locks nothing. -/
def act (f : σ → Except ε σ) : Critical μ ε σ := fun t =>
  match f t.state with
  | .ok s => .ok { t with state := s }
  | .error e => .error (.fault e)

/-- `std::lock_guard`: locked at the start, unlocked at the end. -/
def lockGuard [DecidableEq μ] (m : μ) (body : Critical μ ε σ) : Critical μ ε σ := fun t =>
  if m ∈ t.held then .error (.deadlock m)
  else
    match body { t with held := m :: t.held } with
    | .ok t => .ok { t with held := t.held.erase m }
    | .error e => .error e

/-- One after the other. -/
def inOrder : List (Critical μ ε σ) → Critical μ ε σ
  | [], t => .ok t
  | body :: rest, t =>
    match body t with
    | .ok t => inOrder rest t
    | .error e => .error e

/-- The code comes to its end. -/
def Completes (body : Critical μ ε σ) (t : Holding μ σ) : Prop := ∃ t', body t = .ok t'

/-- It unlocks what it locks, and what `view` shows of the state is as before. -/
def Keeps (view : σ → β) (body : Critical μ ε σ) : Prop :=
  ∀ t t', body t = .ok t' → t'.held = t.held ∧ view t'.state = view t.state

section Rules
variable {view : σ → β}

theorem keeps_act {f : σ → Except ε σ} (h : ∀ s s', f s = .ok s' → view s' = view s) :
    Keeps view (act f : Critical μ ε σ) := by
  intro t t' ht
  unfold act at ht
  split at ht
  · rename_i s hs
    cases ht
    exact ⟨rfl, h _ _ hs⟩
  · cases ht

theorem keeps_inOrder {bodies : List (Critical μ ε σ)} (h : ∀ body ∈ bodies, Keeps view body) :
    Keeps view (inOrder bodies) := by
  induction bodies with
  | nil =>
    intro t t' ht
    cases ht
    exact ⟨rfl, rfl⟩
  | cons body rest ih =>
    intro t t' ht
    simp only [inOrder] at ht
    split at ht
    · rename_i t₁ h₁
      obtain ⟨hh, hv⟩ := h body List.mem_cons_self t t₁ h₁
      obtain ⟨hh', hv'⟩ := ih (fun b hb => h b (List.mem_cons_of_mem _ hb)) t₁ t' ht
      exact ⟨hh'.trans hh, hv'.trans hv⟩
    · cases ht

end Rules

section Guards
variable [DecidableEq μ]

theorem lockGuard_ok {m : μ} {body : Critical μ ε σ} {t t' : Holding μ σ} : lockGuard m body t = .ok t' ↔
    m ∉ t.held ∧ ∃ t₁, body { t with held := m :: t.held } = .ok t₁ ∧ t' = { t₁ with held := t₁.held.erase m } := by
  unfold lockGuard
  constructor
  · intro h
    split at h
    · cases h
    · rename_i hm
      split at h
      · rename_i t₁ h₁
        cases h
        exact ⟨hm, t₁, h₁, rfl⟩
      · cases h
  · rintro ⟨hm, t₁, h₁, rfl⟩
    rw [if_neg hm, h₁]

/-- The mutex is not held, and the body completes with it. -/
theorem lockGuard_completes {m : μ} {body : Critical μ ε σ} {t : Holding μ σ} : Completes (lockGuard m body) t ↔
    m ∉ t.held ∧ Completes body { t with held := m :: t.held } := by
  constructor
  · rintro ⟨t', h⟩
    obtain ⟨hm, t₁, h₁, -⟩ := lockGuard_ok.1 h
    exact ⟨hm, t₁, h₁⟩
  · rintro ⟨hm, t₁, h₁⟩
    exact ⟨_, lockGuard_ok.2 ⟨hm, t₁, h₁, rfl⟩⟩

theorem Keeps.lockGuard {view : σ → β} {body : Critical μ ε σ} (h : Keeps view body) (m : μ) :
    Keeps view (lockGuard m body) := by
  intro t t' ht
  obtain ⟨-, t₁, h₁, rfl⟩ := lockGuard_ok.1 ht
  obtain ⟨hh, hv⟩ := h _ _ h₁
  exact ⟨by rw [hh, List.erase_cons_head], hv⟩

end Guards

theorem inOrder_append {as bs : List (Critical μ ε σ)} {t t' : Holding μ σ} :
    inOrder (as ++ bs) t = .ok t' ↔ ∃ t₁, inOrder as t = .ok t₁ ∧ inOrder bs t₁ = .ok t' := by
  induction as generalizing t with
  | nil => simp [inOrder]
  | cons a as ih =>
    simp only [List.cons_append, inOrder]
    cases a t with
    | ok t₁ => exact ih
    | error e => simp

/-- In a sequence of parts that keep `I` and complete from it under a condition
that does not change, all of it completes if and only if the condition holds of
every part. -/
theorem inOrder_completes {α : Type} {run : α → Critical μ ε σ} (I : Holding μ σ → Prop) (P : Holding μ σ → α → Prop)
    (hc : ∀ t, I t → ∀ a, Completes (run a) t ↔ P t a)
    (hk : ∀ t t' a, I t → run a t = .ok t' → I t' ∧ ∀ b, P t' b ↔ P t b) {as : List α} {t : Holding μ σ} (ht : I t) :
    Completes (inOrder (as.map run)) t ↔ ∀ a ∈ as, P t a := by
  induction as generalizing t with
  | nil => simp [Completes, inOrder]
  | cons a as ih =>
    rw [List.forall_mem_cons, ← hc t ht a, List.map_cons]
    constructor
    · rintro ⟨t', h⟩
      simp only [inOrder] at h
      split at h
      · rename_i t₁ h₁
        obtain ⟨hi, hp⟩ := hk t t₁ a ht h₁
        exact ⟨⟨t₁, h₁⟩, fun b hb => (hp b).1 ((ih hi).1 ⟨t', h⟩ b hb)⟩
      · cases h
    · rintro ⟨⟨t₁, h₁⟩, hall⟩
      obtain ⟨hi, hp⟩ := hk t t₁ a ht h₁
      obtain ⟨t', h⟩ := (ih hi).2 fun b hb => (hp b).2 (hall b hb)
      exact ⟨t', by simp only [inOrder, h₁, h]⟩

end Lib
