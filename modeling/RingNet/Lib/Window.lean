import Mathlib.Data.List.Range
import Mathlib.Data.Int.ModEq
import Mathlib.Logic.Function.Basic
/-!
# Windows of a ring of slots

A ring has `size` slots and free-running counters; the slot of counter `c` is
`c % size`. The entries between two counters are a `window`: the list of the
slots' contents from the first counter on, in order. Writing the slot just
past a window that does not fill the ring appends to it, and moving its start
forward drops entries from its front, so a ring handled this way is a queue.

The lemmas hold for counters kept modulo any multiple of the size too
(`window_mod`), which is what makes wrapping counters invisible.
-/

namespace Lib

variable {α : Type}

/-- The contents of the `count` slots from counter `start` on. -/
def window (slots : Nat → α) (size start count : Nat) : List α :=
  (List.range count).map fun i => slots ((start + i) % size)

variable (slots : Nat → α) (size start count : Nat)

@[simp] theorem window_zero : window slots size start 0 = [] := rfl

@[simp] theorem window_length : (window slots size start count).length = count := by
  simp [window]

theorem mem_window {x : α} :
    x ∈ window slots size start count ↔ ∃ i, i < count ∧ slots ((start + i) % size) = x := by
  simp [window]

/-- One slot more at the end. -/
theorem window_succ :
    window slots size start (count + 1) = window slots size start count ++ [slots ((start + count) % size)] := by
  simp [window, List.range_succ]

/-- The first slot, and the window that starts after it. -/
theorem window_cons :
    window slots size start (count + 1) = slots (start % size) :: window slots size (start + 1) count := by
  simp only [window, List.range_succ_eq_map, List.map_cons, List.map_map, Nat.add_zero, List.cons.injEq, true_and]
  apply List.map_congr_left
  intro i _
  simp only [Function.comp_apply, Nat.succ_eq_add_one]
  congr 2
  omega

/-- Moving the start forward drops entries from the front. -/
theorem window_drop (k : Nat) :
    window slots size (start + k) (count - k) = (window slots size start count).drop k := by
  induction k generalizing start count with
  | zero => simp
  | succ k ih =>
    cases count with
    | zero => simp
    | succ count =>
      rw [window_cons, List.drop_succ_cons, ← ih (start + 1) count]
      congr 1 <;> omega

/-- Two slots of a window that does not fill the ring are different. -/
theorem slot_ne {i j : Nat} (hij : i < j) (hj : j < size) : (start + i) % size ≠ (start + j) % size := by
  intro h
  have hm : i ≡ j [MOD size] := Nat.ModEq.add_left_cancel' start h
  rw [Nat.ModEq, Nat.mod_eq_of_lt (by omega), Nat.mod_eq_of_lt hj] at hm
  omega

/-- Writing the slot past a window that does not fill the ring leaves it alone. -/
theorem window_update (x : α) (h : count < size) :
    window (Function.update slots ((start + count) % size) x) size start count = window slots size start count := by
  apply List.map_congr_left
  intro i hi
  exact Function.update_of_ne (slot_ne size start (List.mem_range.1 hi) h) _ _

/-- Writing the slot past the window and taking it in appends the entry. -/
theorem window_push (x : α) (h : count < size) :
    window (Function.update slots ((start + count) % size) x) size start (count + 1) =
      window slots size start count ++ [x] := by
  rw [window_succ, window_update slots size start count x h, Function.update_self]

/-- A counter kept modulo a multiple of the size names the same slots. -/
theorem window_mod {m : Nat} (h : size ∣ m) :
    window slots size (start % m) count = window slots size start count := by
  apply List.map_congr_left
  intro i _
  rw [Nat.add_mod, Nat.mod_mod_of_dvd _ h, ← Nat.add_mod]

end Lib
