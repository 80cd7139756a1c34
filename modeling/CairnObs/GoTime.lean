import Mathlib.Tactic

/-! Instants and durations as Go's `time` package computes with them. An instant is
an integer, its nanoseconds since the Unix epoch. -/
namespace CairnObs

def maxDuration : ℤ := 2^63-1
def minDuration : ℤ := -2^63

/-- `time.Duration` is an int64 count of nanoseconds. -/
structure Duration where
  ns : ℤ
  lower : minDuration ≤ ns
  upper : ns ≤ maxDuration
  deriving DecidableEq

def second : ℤ := 1000000000

/-- The value an int64 holds after an operation with the exact result `n`. -/
def wrapInt64 (n : ℤ) : ℤ := Int.bmod n (2^64)

theorem wrapInt64_of_mem {n : ℤ} (hlower : -2^63 ≤ n) (hupper : n < 2^63) : wrapInt64 n = n := by
  unfold wrapInt64
  exact Int.bmod_eq_of_le (by omega) (by omega)

theorem minDuration_le_wrapInt64 (n : ℤ) : minDuration ≤ wrapInt64 n := by
  have h := Int.le_bmod (x := n) (m := 2^64) (by decide)
  unfold minDuration wrapInt64
  norm_num at h ⊢
  exact h

theorem wrapInt64_le_maxDuration (n : ℤ) : wrapInt64 n ≤ maxDuration := by
  have h := Int.bmod_lt (x := n) (m := 2^64) (by decide)
  unfold maxDuration wrapInt64
  norm_num at h ⊢
  omega

/-- `time.Duration(n) * unit`. -/
def Duration.times (n unit : ℤ) : Duration :=
  ⟨wrapInt64 (n*unit), minDuration_le_wrapInt64 _, wrapInt64_le_maxDuration _⟩

/-- An int64 result is the exact one just if the exact one fits. -/
theorem wrapInt64_eq_self_iff {n : ℤ} : wrapInt64 n = n ↔ -2^63 ≤ n ∧ n < 2^63 := by
  constructor
  · intro h
    have hle := minDuration_le_wrapInt64 n
    have hlt := wrapInt64_le_maxDuration n
    rw [h] at hle hlt
    unfold minDuration at hle
    unfold maxDuration at hlt
    omega
  · rintro ⟨hlower, hupper⟩
    exact wrapInt64_of_mem hlower hupper

theorem wrapInt64_neg_wrapInt64 (n : ℤ) : wrapInt64 (-wrapInt64 n) = wrapInt64 (-n) :=
  Int.bmod_neg_bmod

/-- `Time.Sub` saturates at the ends of the int64 range. -/
def timeSub (t u : ℤ) : ℤ := max minDuration (min maxDuration (t-u))

/-- Saturation does not disturb a comparison with a duration above the least one. -/
theorem le_timeSub_iff (d : Duration) (hd : minDuration < d.ns) (t u : ℤ) :
    d.ns ≤ timeSub t u ↔ d.ns ≤ t-u := by
  have h := d.upper
  unfold timeSub
  omega

theorem le_timeSub_iff_of_nonneg (d : Duration) (hd : 0 ≤ d.ns) (t u : ℤ) :
    d.ns ≤ timeSub t u ↔ d.ns ≤ t-u :=
  le_timeSub_iff d (lt_of_lt_of_le (by decide) hd) t u

/-- On a clock that has not gone back, no duration is disturbed by saturation. -/
theorem le_timeSub_iff_of_le (d : Duration) (t u : ℤ) (h : u ≤ t) :
    d.ns ≤ timeSub t u ↔ d.ns ≤ t-u := by
  have hu := d.upper
  have hmin : minDuration ≤ 0 := by decide
  unfold timeSub
  omega

end CairnObs
