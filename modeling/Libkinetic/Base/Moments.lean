import Mathlib.Tactic

/-! # Means and squared deviations, one value at a time

The mean of a list and the sum of the squared deviations from it, and the recurrence that keeps both
up to date while values are added at the end. The recurrence needs the number of values, the two
sums so far and the new value only; its division is the only one. -/

namespace Libkinetic.Base.Moments

variable {K : Type*} [Field K]

/-- The arithmetic mean; 0 for no values. -/
def mean (l : List K) : K := l.sum / l.length

/-- The sum of the squared deviations from the mean. -/
def sqdev (l : List K) : K := (l.map fun x => (x - mean l) ^ 2).sum

/-- The mean after `x`, which is value number `n`. -/
def nextMean (m x : K) (n : ℕ) : K := m + (x - m) / n

/-- The squared deviations after `x`, from the mean before it and the mean after it. -/
def nextSqdev (m s x : K) (n : ℕ) : K := s + (x - m) * (x - nextMean m x n)

@[simp] theorem mean_nil : mean ([] : List K) = 0 := by simp [mean]

@[simp] theorem sqdev_nil : sqdev ([] : List K) = 0 := rfl

@[simp] theorem mean_singleton (x : K) : mean [x] = x := by simp [mean]

@[simp] theorem sqdev_singleton (x : K) : sqdev [x] = 0 := by simp [sqdev]

/-- The first mean is the first value. -/
@[simp] theorem nextMean_one (m x : K) : nextMean m x 1 = x := by simp [nextMean]

section Recurrence
variable [CharZero K] {m x : K} {n : ℕ}

/-- The mean times the count, also if there is nothing to count. -/
theorem length_mul_mean (l : List K) : (l.length : K) * mean l = l.sum := by
  cases l with
  | nil => simp
  | cons a l =>
    have hne : ((a :: l).length : K) ≠ 0 := Nat.cast_ne_zero.mpr (by simp)
    unfold mean
    field_simp

/-- The squares of the distances from any point. -/
theorem sum_sq_sub (l : List K) (m : K) : (l.map fun x => (x - m) ^ 2).sum =
    (l.map fun x => x ^ 2).sum - 2 * m * l.sum + l.length * m ^ 2 := by
  induction l with
  | nil => simp
  | cons a l ih =>
    simp only [List.map_cons, List.sum_cons, List.length_cons, ih]
    push_cast
    ring

/-- The squared deviations are what the squares have over the mean. -/
theorem sqdev_eq (l : List K) : sqdev l = (l.map fun x => x ^ 2).sum - l.length * mean l ^ 2 := by
  have hsum := length_mul_mean l
  rw [sqdev, sum_sq_sub, ← hsum]
  ring

/-- **The mean** of a list with one more value. -/
theorem mean_concat (l : List K) (x : K) :
    mean (l ++ [x]) = nextMean (mean l) x (l.length + 1) := by
  have hne : (l.length : K) + 1 ≠ 0 := by exact_mod_cast Nat.succ_ne_zero l.length
  have hsum := length_mul_mean l
  unfold nextMean
  rw [mean, List.sum_append, List.sum_singleton, List.length_append, List.length_singleton, ← hsum]
  push_cast
  field_simp
  ring

/-- **The squared deviations** of a list with one more value. -/
theorem sqdev_concat (l : List K) (x : K) :
    sqdev (l ++ [x]) = nextSqdev (mean l) (sqdev l) x (l.length + 1) := by
  have hne : (l.length : K) + 1 ≠ 0 := by exact_mod_cast Nat.succ_ne_zero l.length
  rw [sqdev_eq (l ++ [x]), mean_concat, nextSqdev, sqdev_eq l]
  simp only [List.map_append, List.map_singleton, List.sum_append, List.sum_singleton,
    List.length_append, List.length_singleton, nextMean]
  push_cast
  field_simp
  ring

/-- **A value leaves the mean where it is** just when it is the mean. -/
theorem nextMean_eq_iff (hn : n ≠ 0) : nextMean m x n = m ↔ x = m := by
  have hne : (n : K) ≠ 0 := Nat.cast_ne_zero.mpr hn
  unfold nextMean
  rw [add_eq_left, div_eq_zero_iff, sub_eq_zero]
  exact or_iff_left hne

end Recurrence

/-- A value that is the mean adds nothing to the squared deviations. -/
theorem nextSqdev_self (m s : K) (n : ℕ) : nextSqdev m s m n = s := by
  unfold nextSqdev
  rw [sub_self, zero_mul, add_zero]

end Libkinetic.Base.Moments
