import Mathlib.Algebra.BigOperators.Ring.Finset
import Mathlib.Algebra.Order.BigOperators.Ring.Finset
import Mathlib.Algebra.Order.BigOperators.Group.Finset
import Mathlib.Tactic.Ring
import Mathlib.Tactic.GCongr

/-!
# Bounds on a dot product

Upper bounds on `|∑ f i * g i|` from what is known of the two factors: the largest magnitude, the
sum of the magnitudes, and, with the exact sums, the spread around two centers. The bounds hold over
any ordered commutative ring; nothing is assumed of the centers.
-/

namespace DotBound

open Finset

variable {ι R : Type*} [CommRing R] [LinearOrder R] [IsStrictOrderedRing R]
variable (s : Finset ι) (f g : ι → R)

theorem abs_dot_le : |∑ i ∈ s, f i * g i| ≤ ∑ i ∈ s, |f i| * |g i| := by
  refine (abs_sum_le_sum_abs _ _).trans (le_of_eq ?_)
  exact sum_congr rfl fun i _ => abs_mul _ _

variable {s f g}

/-- Magnitudes of the left factor, sum of the magnitudes of the right one. -/
theorem abs_dot_le_mul_sum {M S : R} (hM : ∀ i ∈ s, |f i| ≤ M) (hM0 : 0 ≤ M)
    (hS : ∑ i ∈ s, |g i| ≤ S) : |∑ i ∈ s, f i * g i| ≤ M * S := by
  calc |∑ i ∈ s, f i * g i| ≤ ∑ i ∈ s, |f i| * |g i| := abs_dot_le s f g
    _ ≤ ∑ i ∈ s, M * |g i| :=
      sum_le_sum fun i hi => mul_le_mul_of_nonneg_right (hM i hi) (abs_nonneg (g i))
    _ = M * ∑ i ∈ s, |g i| := (mul_sum _ _ _).symm
    _ ≤ M * S := by gcongr

/-- Sum of the magnitudes of the left factor, magnitudes of the right one. -/
theorem abs_dot_le_sum_mul {M S : R} (hM : ∀ i ∈ s, |g i| ≤ M) (hM0 : 0 ≤ M)
    (hS : ∑ i ∈ s, |f i| ≤ S) : |∑ i ∈ s, f i * g i| ≤ S * M := by
  rw [mul_comm S M, sum_congr rfl fun i _ => mul_comm (f i) (g i)]
  exact abs_dot_le_mul_sum hM hM0 hS

/-- Magnitudes of both factors. -/
theorem abs_dot_le_card_mul {M N : R} (hM : ∀ i ∈ s, |f i| ≤ M) (hM0 : 0 ≤ M)
    (hN : ∀ i ∈ s, |g i| ≤ N) : |∑ i ∈ s, f i * g i| ≤ s.card * M * N := by
  have hS : ∑ i ∈ s, |g i| ≤ s.card * N := by
    rw [← nsmul_eq_mul]; exact sum_le_card_nsmul s _ _ hN
  have h := abs_dot_le_mul_sum hM hM0 hS
  rwa [← mul_assoc, mul_comm M] at h

variable (s f g)

omit [LinearOrder R] [IsStrictOrderedRing R] in
/-- The dot product around two centers. -/
theorem dot_eq_center_add (c d : R) : ∑ i ∈ s, f i * g i =
    c * (∑ i ∈ s, g i) + d * (∑ i ∈ s, f i) - s.card * c * d + ∑ i ∈ s, (f i - c) * (g i - d) := by
  have h : ∑ i ∈ s, (f i - c) * (g i - d) =
      ∑ i ∈ s, f i * g i - (d * ∑ i ∈ s, f i) - (c * ∑ i ∈ s, g i) + s.card * (c * d) := by
    rw [mul_sum, mul_sum, ← nsmul_eq_mul, ← sum_const, ← sum_sub_distrib, ← sum_sub_distrib,
      ← sum_add_distrib]
    exact sum_congr rfl fun i _ => by ring
  rw [h]
  ring

variable {s f g}

/-- Exact sums reduce a bound on the dot product to one on the spread around the centers. -/
theorem abs_dot_le_center_add {c d r : R} (hr : |∑ i ∈ s, (f i - c) * (g i - d)| ≤ r) :
    |∑ i ∈ s, f i * g i| ≤
      |c * (∑ i ∈ s, g i) + d * (∑ i ∈ s, f i) - s.card * c * d| + r := by
  rw [dot_eq_center_add s f g c d]
  exact (abs_add_le _ _).trans (add_le_add_right hr _)

end DotBound
