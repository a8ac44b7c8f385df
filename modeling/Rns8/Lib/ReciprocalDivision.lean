import Mathlib.Data.Nat.ModEq
import Mathlib.Tactic

/-!
# Remainders without division

Two ways to reduce a word by a small modulus. With the reciprocal `2 ^ w / m` the estimated quotient
of a word is at most one too small, so that the estimated remainder is below `2 * m`. By folding, the
high part of a number is replaced by a multiple that is congruent to it.
-/

namespace ReciprocalDivision

/-- The estimated quotient never exceeds the quotient, and misses it by at most one. -/
theorem quotient_bounds {w m v : ℕ} (hm : 0 < m) (hv : v < 2 ^ w) :
    v * (2 ^ w / m) / 2 ^ w ≤ v / m ∧ v / m ≤ v * (2 ^ w / m) / 2 ^ w + 1 := by
  have hw : 0 < 2 ^ w := Nat.two_pow_pos w
  -- the reciprocal is short of `2 ^ w / m` by less than one
  have hle : 2 ^ w / m * m ≤ 2 ^ w := Nat.div_mul_le_self _ _
  have hlt : 2 ^ w < 2 ^ w / m * m + m := by
    have := Nat.div_add_mod (2 ^ w) m
    have := Nat.mod_lt (2 ^ w) hm
    rw [Nat.mul_comm]
    omega
  constructor
  · rw [Nat.le_div_iff_mul_le hm]
    have hq := Nat.div_mul_le_self (v * (2 ^ w / m)) (2 ^ w)
    have hmul : v * (2 ^ w / m) / 2 ^ w * m * 2 ^ w ≤ v * 2 ^ w := by
      calc v * (2 ^ w / m) / 2 ^ w * m * 2 ^ w
          = v * (2 ^ w / m) / 2 ^ w * 2 ^ w * m := by ring
        _ ≤ v * (2 ^ w / m) * m := Nat.mul_le_mul_right m hq
        _ = v * (2 ^ w / m * m) := by ring
        _ ≤ v * 2 ^ w := Nat.mul_le_mul_left v hle
    exact Nat.le_of_mul_le_mul_right hmul hw
  · -- otherwise the estimate misses two moduli, more than the reciprocal can lose
    rw [← Nat.lt_succ_iff, Nat.div_lt_iff_lt_mul hm]
    set q := v * (2 ^ w / m) / 2 ^ w with hq
    have hrest : v * (2 ^ w / m) < (q + 1) * 2 ^ w := by
      rw [hq, Nat.add_mul, Nat.one_mul]
      exact Nat.lt_div_mul_add hw
    have hmul : v * 2 ^ w < (q + 1 + 1) * m * 2 ^ w := by
      calc v * 2 ^ w ≤ v * (2 ^ w / m * m + m) := Nat.mul_le_mul_left v hlt.le
        _ = v * (2 ^ w / m) * m + v * m := by ring
        _ ≤ (q + 1) * 2 ^ w * m + v * m :=
          Nat.add_le_add_right (Nat.mul_le_mul_right m hrest.le) _
        _ < (q + 1) * 2 ^ w * m + 2 ^ w * m :=
          Nat.add_lt_add_left (Nat.mul_lt_mul_of_pos_right hv hm) _
        _ = (q + 1 + 1) * m * 2 ^ w := by ring
    exact Nat.lt_of_mul_lt_mul_right hmul

/-- **The estimated remainder** is the remainder up to one modulus. -/
theorem remainder_lt {w m v : ℕ} (hm : 0 < m) (hv : v < 2 ^ w) :
    v * (2 ^ w / m) / 2 ^ w * m ≤ v ∧ v - v * (2 ^ w / m) / 2 ^ w * m < 2 * m := by
  obtain ⟨hlo, hhi⟩ := quotient_bounds hm hv
  have hdiv := Nat.div_add_mod v m
  have hmod := Nat.mod_lt v hm
  have h1 : v * (2 ^ w / m) / 2 ^ w * m ≤ m * (v / m) := by
    rw [Nat.mul_comm m]
    exact Nat.mul_le_mul_right m hlo
  have h2 : m * (v / m) ≤ v * (2 ^ w / m) / 2 ^ w * m + m := by
    calc m * (v / m) ≤ m * (v * (2 ^ w / m) / 2 ^ w + 1) := Nat.mul_le_mul_left m hhi
      _ = v * (2 ^ w / m) / 2 ^ w * m + m := by ring
  omega

/-- One conditional subtraction. -/
def correct (m r : ℕ) : ℕ := if m ≤ r then r - m else r

/-- Enough corrections leave the remainder. -/
theorem iterate_correct_eq {m n r : ℕ} (h : r < (n + 1) * m) : (correct m)^[n] r = r % m := by
  induction n generalizing r with
  | zero =>
    rw [Nat.zero_add, Nat.one_mul] at h
    exact (Nat.mod_eq_of_lt h).symm
  | succ n ih =>
    rw [Function.iterate_succ_apply, ih]
    · unfold correct
      split
      · next hle => exact (Nat.mod_eq_sub_mod hle).symm
      · rfl
    · unfold correct
      rw [Nat.succ_mul] at h
      split
      · omega
      · next hlt =>
        have := Nat.le_mul_of_pos_left m (show 0 < n + 1 by omega)
        omega

/-- **Folding**: the high part of a number may be replaced by a congruent multiple. -/
theorem fold_modEq {m b c : ℕ} (h : b ≡ c [MOD m]) (v : ℕ) : v % b + c * (v / b) ≡ v [MOD m] := by
  conv_rhs => rw [← Nat.mod_add_div v b]
  exact Nat.ModEq.add_left _ (h.symm.mul_right _)

end ReciprocalDivision
