import Mathlib.Data.Nat.ModEq
/-!
# Counters that wrap

A ring's head and tail are 32-bit counters that only ever go up. `Counts c n`
says that such a counter has been moved `n` times since it was zero: it shows
`n` modulo `2^32`. Distances, comparisons and slots come out as they would for
`n` itself, as long as the two ends of a ring are less than `2^32` apart and
the ring has a power of two of slots.
-/

namespace Lib

/-- The counter `c` has counted to `n`. -/
def Counts (c : UInt32) (n : Nat) : Prop := c.toNat = n % 2 ^ 32

namespace Counts

theorem zero : Counts 0 0 := rfl

theorem add {c : UInt32} {n : Nat} (h : Counts c n) (m : Nat) : Counts (c + UInt32.ofNat m) (n + m) := by
  unfold Counts at h ⊢
  rw [UInt32.toNat_add, UInt32.toNat_ofNat', h, ← Nat.add_mod]

theorem succ {c : UInt32} {n : Nat} (h : Counts c n) : Counts (c + 1) (n + 1) := h.add 1

theorem sum {c d : UInt32} {n m : Nat} (h : Counts c n) (h' : Counts d m) : Counts (c + d) (n + m) := by
  unfold Counts at h h' ⊢
  rw [UInt32.toNat_add, h, h', ← Nat.add_mod]

/-- How far apart two counters are. -/
theorem distance {head tail : UInt32} {m n : Nat} (hm : Counts head m) (hn : Counts tail n) (hle : m ≤ n)
    (hlt : n - m < 2 ^ 32) : (tail - head).toNat = n - m := by
  unfold Counts at hm hn
  have h1 := head.toNat_lt
  have h2 := tail.toNat_lt
  rw [UInt32.toNat_sub, hm, hn]
  omega

/-- Two counters show the same only if they have counted as far. -/
theorem eq_iff {head tail : UInt32} {m n : Nat} (hm : Counts head m) (hn : Counts tail n) (hle : m ≤ n)
    (hlt : n - m < 2 ^ 32) : head = tail ↔ m = n := by
  unfold Counts at hm hn
  rw [← UInt32.toNat_inj, hm, hn]
  omega

/-- The mask finds the slot that the number itself would be kept in. -/
theorem slot {c : UInt32} {n : Nat} (h : Counts c n) {k : Nat} (hk : k < 32) :
    (c &&& (UInt32.ofNat (2 ^ k) - 1)).toNat = n % 2 ^ k := by
  have hpow : 2 ^ k < 2 ^ 32 := Nat.pow_lt_pow_right (by omega) hk
  have hpos : 0 < 2 ^ k := Nat.two_pow_pos k
  have hmask : (UInt32.ofNat (2 ^ k) - 1).toNat = 2 ^ k - 1 := by
    rw [UInt32.toNat_sub_of_le _ _ (by rw [UInt32.le_iff_toNat_le, UInt32.toNat_ofNat', Nat.mod_eq_of_lt hpow]; exact hpos),
      UInt32.toNat_ofNat', Nat.mod_eq_of_lt hpow]
    rfl
  rw [UInt32.toNat_and, hmask, Nat.and_two_pow_sub_one_eq_mod, h, Nat.mod_mod_of_dvd _ (Nat.pow_dvd_pow 2 (by omega))]

end Counts

end Lib
