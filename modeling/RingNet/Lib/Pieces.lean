import Mathlib.Data.List.Infix
/-!
# Streams put together from pieces

A stream is the pieces `f 0`, `f 1`, … one after the other. Pieces get longer
and new ones come; only what happens to the last piece that is not empty shows
at the end of the stream.
-/

namespace Lib

variable {α : Type}

/-- The first `n` pieces, one after the other. -/
def concat (f : Nat → List α) (n : Nat) : List α := (List.range n).flatMap f

variable {f g : Nat → List α} {i n : Nat}

@[simp] theorem concat_zero : concat f 0 = [] := rfl

theorem concat_succ : concat f (n + 1) = concat f n ++ f n := by
  simp [concat, List.range_succ]

theorem concat_congr (h : ∀ j, j < n → g j = f j) : concat g n = concat f n := by
  induction n with
  | zero => rfl
  | succ n ih => rw [concat_succ, concat_succ, ih fun j hj => h j (by omega), h n (by omega)]

/-- A piece that was empty, with none but empty ones after it, is appended. -/
theorem concat_grow (hi : i < n) (hsame : ∀ j, j ≠ i → g j = f j) (hnil : ∀ j, i ≤ j → j < n → f j = []) :
    concat g n = concat f n ++ g i := by
  induction n with
  | zero => omega
  | succ n ih =>
    rcases Nat.lt_or_ge i n with hlt | hge
    · rw [concat_succ, concat_succ, ih hlt fun j hj hjn => hnil j hj (by omega), hsame n (by omega),
        hnil n (by omega) (by omega), List.append_nil, List.append_nil]
    · obtain rfl : i = n := by omega
      rw [concat_succ, concat_succ, concat_congr fun j hj => hsame j (by omega), hnil i (Nat.le_refl i) (by omega),
        List.append_nil]

/-- Cutting the last piece short gives a prefix. -/
theorem concat_prefix (hcut : ∀ j, j < n → f j <+: g j)
    (hlast : ∀ i j, i < j → j < n → f i ≠ g i → f j = []) : concat f n <+: concat g n := by
  induction n with
  | zero => exact List.prefix_rfl
  | succ n ih =>
    rw [concat_succ, concat_succ]
    have ih := ih (fun j hj => hcut j (by omega)) fun i j hij hj => hlast i j hij (by omega)
    by_cases hall : ∀ i, i < n → f i = g i
    · rw [concat_congr hall]
      exact (List.prefix_append_right_inj _).2 (hcut n (by omega))
    · simp only [not_forall] at hall
      obtain ⟨i, hi, hne⟩ := hall
      rw [hlast i n hi (by omega) hne, List.append_nil]
      exact ih.trans (List.prefix_append _ _)

end Lib
