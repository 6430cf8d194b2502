import Mathlib.Data.List.Basic
/-!
# Memory cells and terminated strings

Two ways a callee gets at data it is given a pointer to: a number of cells
from an address on (`readAt`), and cells up to the first terminator
(`cString`). The cells are of any type.
-/

namespace Lib

variable {α : Type}

/-! ## A number of cells -/

/-- The cells from `p` on. -/
def readAt (m : Nat → α) (p len : Nat) : List α := (List.range len).map fun i => m (p + i)

/-- `xs` is in memory at `p`. -/
def Stored (m : Nat → α) (p : Nat) (xs : List α) : Prop := readAt m p xs.length = xs

@[simp] theorem readAt_length (m : Nat → α) (p len : Nat) : (readAt m p len).length = len := by
  simp [readAt]

theorem readAt_take (m : Nat → α) (p : Nat) {k len : Nat} (h : k ≤ len) : (readAt m p len).take k = readAt m p k := by
  simp only [readAt, ← List.map_take, List.take_range, Nat.min_eq_left h]

/-- Anything can be stored anywhere. -/
theorem exists_stored [Inhabited α] (p : Nat) (xs : List α) : ∃ m, Stored m p xs := by
  refine ⟨fun i => xs.getD (i - p) default, ?_⟩
  apply List.ext_getElem (by simp)
  intro i h₁ h₂
  simp [readAt, List.getD_eq_getElem?_getD, h₂]

/-- Put `xs` into memory at `p`. -/
def writeAt (m : Nat → α) (p : Nat) (xs : List α) : Nat → α := fun i =>
  if h : p ≤ i ∧ i < p + xs.length then xs.get ⟨i - p, by omega⟩ else m i

theorem stored_writeAt (m : Nat → α) (p : Nat) (xs : List α) : Stored (writeAt m p xs) p xs := by
  refine List.ext_getElem (by simp) fun i h₁ h₂ => ?_
  simp [readAt, writeAt, h₂]

/-- What is stored elsewhere stays. -/
theorem Stored.writeAt {m : Nat → α} {q : Nat} {ys : List α} (h : Stored m q ys) {p : Nat} {xs : List α}
    (hd : q + ys.length ≤ p ∨ p + xs.length ≤ q) : Stored (writeAt m p xs) q ys := by
  refine Eq.trans (List.map_congr_left fun i hi => ?_) h
  have hi := List.mem_range.1 hi
  exact dif_neg (by omega)

/-! ## Up to a terminator -/

variable [DecidableEq α]

/-- What is read before the first `nul`; nothing is known if there is none. -/
def cString (nul : α) : List α → Option (List α)
  | [] => none
  | x :: xs => if x = nul then some [] else (cString nul xs).map (x :: ·)

theorem cString_append {nul : α} {ys : List α} (h : nul ∉ ys) (zs : List α) :
    cString nul (ys ++ zs) = (cString nul zs).map (ys ++ ·) := by
  induction ys with
  | nil => simp
  | cons y ys ih =>
    rw [List.mem_cons, not_or] at h
    rw [List.cons_append, cString, if_neg (Ne.symm h.1), ih h.2, Option.map_map]
    rfl

theorem cString_eq_nil {nul : α} {xs : List α} : cString nul xs = some [] ↔ xs.head? = some nul := by
  cases xs with
  | nil => simp [cString]
  | cons x xs =>
    rw [cString, List.head?_cons, Option.some.injEq]
    split
    · rename_i hx
      simp [hx]
    · rename_i hx
      simp [hx]

/-- Exactly `ys` is read if and only if the terminator comes right after it. -/
theorem cString_append_iff {nul : α} {ys zs : List α} (h : nul ∉ ys) :
    cString nul (ys ++ zs) = some ys ↔ zs.head? = some nul := by
  rw [cString_append h, ← cString_eq_nil, Option.map_eq_some_iff]
  constructor
  · rintro ⟨xs, hxs, he⟩
    rw [List.append_right_eq_self.1 he] at hxs
    exact hxs
  · intro h
    exact ⟨[], h, List.append_nil ys⟩

end Lib
