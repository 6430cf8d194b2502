import RingNet.SubmissionQueue
/-!
# Timeouts

`time/chronoUtils.hpp`: `to_timespec` splits a duration into whole seconds and
the nanoseconds that are left, and `submit` hands the result to the kernel.
Counts of durations are signed 64-bit integers. An operation on them whose
value is out of range is undefined and has no result here, although both
fields of the result would always fit.
-/

namespace RingNet

/-- In the range of a signed 64-bit integer. -/
def Fits (x : Int) : Prop := -2 ^ 63 ≤ x ∧ x < 2 ^ 63

instance (x : Int) : Decidable (Fits x) := inferInstanceAs (Decidable (_ ∧ _))

/-- The result of an operation on 64-bit integers with the value `x`. -/
def int64 (x : Int) : Option Int := if Fits x then some x else none

/-- `std::ratio`: the period of a duration, in seconds. -/
structure Ratio where
  num : Int
  den : Int
  deriving DecidableEq, Repr

namespace Ratio

def seconds : Ratio := ⟨1, 1⟩
def milli : Ratio := ⟨1, 1000⟩
def nano : Ratio := ⟨1, 1000000000⟩

/-- `std::ratio_divide`, in lowest terms. -/
def divide (a b : Ratio) : Ratio :=
  let num := a.num * b.den
  let den := a.den * b.num
  ⟨num / num.gcd den, den / num.gcd den⟩

end Ratio

/-- `duration_cast` of a count from one period to another. -/
def durationCast (source target : Ratio) (count : Int) : Option Int :=
  let factor := source.divide target
  (int64 (count * factor.num)).map (·.tdiv factor.den)

/-- `__kernel_timespec`. -/
structure Timespec where
  tvSec : Int
  tvNsec : Int
  deriving DecidableEq, Repr

def toTimespec (period : Ratio) (count : Int) : Option Timespec := do
  let s ← durationCast period .seconds count
  let whole ← durationCast period .nano count
  let ofSeconds ← durationCast .seconds .nano s
  let ns ← int64 (whole - ofSeconds)
  return ⟨s, ns⟩

/-- How long `submit` waits for a completion. -/
inductive Wait
  | untilCompletion
  | atMost (timeout : Timespec)
  deriving DecidableEq, Repr

/-- `submit`'s use of its argument, a count of milliseconds. -/
def SubmissionQueue.wait (timeout : Int) : Option Wait :=
  if timeout ≤ 0 then some .untilCompletion else (toTimespec .milli timeout).map .atMost

theorem int64_eq_some {x y : Int} : int64 x = some y ↔ Fits x ∧ y = x := by
  unfold int64
  split
  · rename_i h
    simp [h, eq_comm]
  · rename_i h
    simp [h]

theorem durationCast_eq_some {source target : Ratio} {count y : Int} : durationCast source target count = some y ↔
    Fits (count * (source.divide target).num) ∧
      y = (count * (source.divide target).num).tdiv (source.divide target).den := by
  simp only [durationCast, Option.map_eq_some_iff, int64_eq_some]
  constructor
  · rintro ⟨x, ⟨hx, rfl⟩, rfl⟩
    exact ⟨hx, rfl⟩
  · rintro ⟨hx, rfl⟩
    exact ⟨_, ⟨hx, rfl⟩, rfl⟩

/-- The three casts `to_timespec` makes of milliseconds: by a factor of a
thousandth, of a million, and of a thousand million for the seconds. -/
theorem milli_factors : Ratio.divide .milli .seconds = ⟨1, 1000⟩ ∧ Ratio.divide .milli .nano = ⟨1000000, 1⟩ ∧
    Ratio.divide .seconds .nano = ⟨1000000000, 1⟩ := by
  decide

/-- The timespec is the timeout. -/
structure Timespec.Exact (t : Timespec) (milliseconds : Int) : Prop where
  nsec : 0 ≤ t.tvNsec ∧ t.tvNsec < 10 ^ 9
  sum : t.tvSec * 10 ^ 9 + t.tvNsec = milliseconds * 10 ^ 6

/-- What `to_timespec` returns, if no value on the way is out of range. -/
theorem toTimespec_milli {c : Int} {t : Timespec} : toTimespec .milli c = some t ↔
    Fits c ∧ Fits (c * 1000000) ∧ Fits (c.tdiv 1000 * 1000000000) ∧
      Fits (c * 1000000 - c.tdiv 1000 * 1000000000) ∧
      t = ⟨c.tdiv 1000, c * 1000000 - c.tdiv 1000 * 1000000000⟩ := by
  obtain ⟨h₁, h₂, h₃⟩ := milli_factors
  simp only [toTimespec, Option.bind_eq_bind, Option.bind_eq_some_iff, durationCast_eq_some, h₁, h₂, h₃, int64_eq_some,
    Int.mul_one, Int.tdiv_one, Option.pure_def, Option.some.injEq]
  constructor
  · rintro ⟨_, ⟨hc, rfl⟩, _, ⟨hw, rfl⟩, _, ⟨hs, rfl⟩, _, ⟨hn, rfl⟩, rfl⟩
    exact ⟨hc, hw, hs, hn, rfl⟩
  · rintro ⟨hc, hw, hs, hn, rfl⟩
    exact ⟨_, ⟨hc, rfl⟩, _, ⟨hw, rfl⟩, _, ⟨hs, rfl⟩, _, ⟨hn, rfl⟩, rfl⟩

/-- A positive timeout reaches the kernel unchanged, without a value out of
range on the way, up to 9223372036854 milliseconds and not beyond. -/
theorem timeout_exact_iff (c : Int64) (h : 0 < c) :
    (∃ t, SubmissionQueue.wait c.toInt = some (.atMost t) ∧ t.Exact c.toInt) ↔ c.toInt ≤ 9223372036854 := by
  have hpos : 0 < c.toInt := Int64.lt_iff_toInt_lt.1 h
  have hmax : c.toInt < 2 ^ 63 := c.toInt_lt
  generalize c.toInt = c at hpos hmax
  have hdiv : c.tdiv 1000 = c / 1000 := Int.tdiv_eq_ediv_of_nonneg (by omega)
  simp only [SubmissionQueue.wait, if_neg (Int.not_le.2 hpos), Option.map_eq_some_iff, Wait.atMost.injEq, toTimespec_milli,
    hdiv, Fits]
  constructor
  · rintro ⟨-, ⟨-, ⟨-, hw, -⟩, -⟩, -⟩
    omega
  · intro hle
    refine ⟨_, ⟨_, ⟨by omega, by omega, by omega, by omega, rfl⟩, rfl⟩, ?_, ?_⟩
    · dsimp only
      omega
    · dsimp only
      omega

/-- The loop's own timeout. -/
theorem timeout_exact_iff_loop : (0 : Int64) < 100 ∧
    ∃ t, SubmissionQueue.wait (Int64.toInt 100) = some (.atMost t) ∧ t.Exact (Int64.toInt 100) :=
  ⟨by decide, (timeout_exact_iff 100 (by decide)).2 (by decide)⟩

/-- The next millisecond: the count of nanoseconds does not fit. -/
theorem timeout_overflows : (0 : Int64) < 9223372036855 ∧ SubmissionQueue.wait (Int64.toInt 9223372036855) = none ∧
    ¬ ∃ t, SubmissionQueue.wait (Int64.toInt 9223372036855) = some (.atMost t) ∧ t.Exact (Int64.toInt 9223372036855) := by
  refine ⟨by decide, by decide, ?_⟩
  rintro ⟨t, ht, -⟩
  cases ht

end RingNet
