import Mathlib.Logic.Equiv.Basic
import Mathlib.Logic.Function.Basic
/-!
# Things with one owner

Things are numbered in the order they are made. Each is held by one holder
until it is given up, and can be moved from one holder to another, which gives
up what the other one held or takes it in exchange. `Owners` says that the
holders, the counter and the record of what was given up fit together; the
lemmas are the ways they change.
-/

namespace Lib

variable {κ β : Type}

/-- Who holds something after `k` was given `v`. -/
theorem update_some_cases [DecidableEq κ] {f : κ → Option β} {k j : κ} {v w : β}
    (h : Function.update f k (some v) j = some w) : (j = k ∧ w = v) ∨ (j ≠ k ∧ f j = some w) := by
  by_cases he : j = k
  · subst he
    rw [Function.update_self, Option.some.injEq] at h
    exact .inl ⟨rfl, h.symm⟩
  · rw [Function.update_of_ne he] at h
    exact .inr ⟨he, h⟩

/-- Who holds something after `k` gave up what it had. -/
theorem update_none_cases [DecidableEq κ] {f : κ → Option β} {k j : κ} {w : β}
    (h : Function.update f k none j = some w) : j ≠ k ∧ f j = some w := by
  by_cases he : j = k
  · subst he
    rw [Function.update_self] at h
    cases h
  · rw [Function.update_of_ne he] at h
    exact ⟨he, h⟩

/-- `own k` is what `k` holds, `next` the number of the next thing made, and
`dead` what has been given up. -/
structure Owners (own : κ → Option Nat) (next : Nat) (dead : List Nat) : Prop where
  made : ∀ k s, own k = some s → s < next
  alive : ∀ k s, own k = some s → s ∉ dead
  unique : ∀ k k' s, own k = some s → own k' = some s → k = k'
  held : ∀ s, s < next → s ∈ dead ∨ ∃ k, own k = some s
  gone : ∀ s ∈ dead, s < next

theorem Owners.empty : Owners (fun _ : κ => none) 0 [] := by
  constructor <;> simp

variable [DecidableEq κ] {own : κ → Option Nat} {next : Nat} {dead : List Nat}

/-- A holder of nothing gets a new thing. -/
theorem Owners.create (h : Owners own next dead) {k : κ} (hk : own k = none) :
    Owners (Function.update own k (some next)) (next + 1) dead := by
  constructor
  · intro j s hj
    rcases update_some_cases hj with ⟨-, rfl⟩ | ⟨-, hj⟩
    · exact Nat.lt_succ_self _
    · exact Nat.lt_succ_of_lt (h.made j s hj)
  · intro j s hj
    rcases update_some_cases hj with ⟨-, rfl⟩ | ⟨-, hj⟩
    · intro hd
      exact Nat.lt_irrefl _ (h.gone _ hd)
    · exact h.alive j s hj
  · intro j j' s hj hj'
    rcases update_some_cases hj with ⟨rfl, rfl⟩ | ⟨-, ho⟩ <;> rcases update_some_cases hj' with ⟨rfl, he⟩ | ⟨-, ho'⟩
    · rfl
    · exact absurd (h.made j' _ ho') (Nat.lt_irrefl _)
    · subst he
      exact absurd (h.made j _ ho) (Nat.lt_irrefl _)
    · exact h.unique j j' s ho ho'
  · intro s hs
    rcases Nat.lt_succ_iff_lt_or_eq.1 hs with hs | rfl
    · refine (h.held s hs).imp (fun hd => hd) ?_
      rintro ⟨j, hj⟩
      have hne : j ≠ k := by
        intro e
        subst e
        rw [hk] at hj
        cases hj
      exact ⟨j, by rw [Function.update_of_ne hne, hj]⟩
    · exact .inr ⟨k, Function.update_self ..⟩
  · intro s hs
    exact Nat.lt_succ_of_lt (h.gone s hs)

/-- A holder gives up what it has. -/
theorem Owners.drop (h : Owners own next dead) (k : κ) :
    Owners (Function.update own k none) next (dead ++ (own k).toList) := by
  constructor
  · intro j s hj
    exact h.made j s (update_none_cases hj).2
  · intro j s hj hd
    obtain ⟨hne, hj⟩ := update_none_cases hj
    rcases List.mem_append.1 hd with hd | hd
    · exact h.alive j s hj hd
    · exact hne (h.unique j k s hj (Option.mem_toList.1 hd))
  · intro j j' s hj hj'
    exact h.unique j j' s (update_none_cases hj).2 (update_none_cases hj').2
  · intro s hs
    rcases h.held s hs with hd | ⟨j, hj⟩
    · exact .inl (List.mem_append_left _ hd)
    · by_cases he : j = k
      · subst he
        exact .inl (List.mem_append_right _ (Option.mem_toList.2 hj))
      · exact .inr ⟨j, by rw [Function.update_of_ne he, hj]⟩
  · intro s hs
    rcases List.mem_append.1 hs with hs | hs
    · exact h.gone s hs
    · exact h.made k s (Option.mem_toList.1 hs)

/-- A holder gives up what it has and takes over what another has. -/
theorem Owners.move (h : Owners own next dead) {k k' : κ} (hne : k ≠ k') :
    Owners (Function.update (Function.update own k (own k')) k' none) next (dead ++ (own k).toList) := by
  have hd := h.drop k
  -- what `k` does not hold any more is free to be renamed
  have hval : ∀ j, Function.update (Function.update own k (own k')) k' none j =
      if j = k then own k' else if j = k' then none else Function.update own k none j := by
    intro j
    by_cases h' : j = k'
    · subst h'
      simp [hne.symm]
    · by_cases hk : j = k
      · subst hk
        simp [h']
      · simp [h', hk]
  have hk' : Function.update own k none k' = own k' := Function.update_of_ne hne.symm _ _
  have hold : ∀ j s, Function.update (Function.update own k (own k')) k' none j = some s →
      ∃ i, Function.update own k none i = some s ∧ ((j = k ∧ i = k') ∨ (j ≠ k ∧ j ≠ k' ∧ i = j)) := by
    intro j s hj
    rw [hval] at hj
    split at hj
    · exact ⟨k', by rw [hk']; exact hj, .inl ⟨by assumption, rfl⟩⟩
    · split at hj
      · cases hj
      · exact ⟨j, hj, .inr ⟨by assumption, by assumption, rfl⟩⟩
  refine ⟨?_, ?_, ?_, ?_, hd.gone⟩
  · intro j s hj
    obtain ⟨i, hi, -⟩ := hold j s hj
    exact hd.made i s hi
  · intro j s hj
    obtain ⟨i, hi, -⟩ := hold j s hj
    exact hd.alive i s hi
  · intro j j' s hj hj'
    obtain ⟨i, hi, hji⟩ := hold j s hj
    obtain ⟨i', hi', hji'⟩ := hold j' s hj'
    have hii := hd.unique i i' s hi hi'
    rcases hji with ⟨rfl, rfl⟩ | ⟨-, h2, rfl⟩ <;> rcases hji' with ⟨rfl, rfl⟩ | ⟨-, h2', rfl⟩
    · rfl
    · exact absurd hii.symm h2'
    · exact absurd hii h2
    · exact hii
  · intro s hs
    refine (hd.held s hs).imp (fun h' => h') ?_
    rintro ⟨i, hi⟩
    by_cases he : i = k'
    · subst he
      exact ⟨k, by rw [hval, if_pos rfl, ← hk', hi]⟩
    · by_cases hk : i = k
      · subst hk
        rw [Function.update_self] at hi
        cases hi
      · exact ⟨i, by rw [hval, if_neg hk, if_neg he, hi]⟩

/-- Two holders exchange what they have. -/
theorem Owners.swap (h : Owners own next dead) (k k' : κ) : Owners (fun j => own (Equiv.swap k k' j)) next dead := by
  refine ⟨fun j => h.made _, fun j => h.alive _, ?_, ?_, h.gone⟩
  · intro j j' s hj hj'
    exact (Equiv.swap k k').injective (h.unique _ _ s hj hj')
  · intro s hs
    refine (h.held s hs).imp (fun hd => hd) ?_
    rintro ⟨j, hj⟩
    exact ⟨Equiv.swap k k' j, by rw [Equiv.swap_apply_self]; exact hj⟩

end Lib
