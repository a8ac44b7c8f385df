import Mathlib.Data.Int.ModEq
import Mathlib.Algebra.BigOperators.GroupWithZero.Finset
import Mathlib.Data.Nat.GCD.BigOperators
import Mathlib.Tactic

/-!
# Integers on a ladder of coprime moduli

An integer is known modulo each of the first `n` moduli `m 0, m 1, …` of a pairwise coprime ladder.
`modEq_prod` glues the congruences, `modEq_of_garner` and `garner_lt` are one step of the mixed-radix
reconstruction, and `centered_emod` says which bound lets the product's residue give an integer back.
-/

namespace ModulusLadder

variable {m : ℕ → ℕ}

/-- Congruences modulo the moduli of a coprime ladder glue to one modulo their product. -/
theorem modEq_prod {n : ℕ} (hcop : ∀ i < n, ∀ j < n, i ≠ j → Nat.Coprime (m i) (m j)) {a b : ℤ}
    (h : ∀ i < n, a ≡ b [ZMOD m i]) : a ≡ b [ZMOD (∏ i ∈ Finset.range n, m i : ℕ)] := by
  induction n with
  | zero => simp [Int.modEq_one]
  | succ n ih =>
    have hlow := ih (fun i hi j hj => hcop i (by omega) j (by omega)) fun i hi => h i (by omega)
    have htop := h n (by omega)
    have hc : Nat.Coprime (∏ i ∈ Finset.range n, m i) (m n) :=
      Nat.Coprime.prod_left fun i hi =>
        hcop i (by have := Finset.mem_range.1 hi; omega) n (by omega)
          (by have := Finset.mem_range.1 hi; omega)
    rw [Finset.prod_range_succ, Nat.cast_mul]
    exact (Int.modEq_and_modEq_iff_modEq_mul (by rwa [Int.natAbs_natCast, Int.natAbs_natCast])).1
      ⟨hlow, htop⟩

/-- **One digit.** Adding the right multiple of the product so far reaches the residue wanted. -/
theorem modEq_of_garner {x P k target inv c : ℤ} (hinv : P * inv ≡ 1 [ZMOD k])
    (hc : c ≡ (target - x) * inv [ZMOD k]) : x + P * c ≡ target [ZMOD k] := by
  calc x + P * c ≡ x + P * ((target - x) * inv) [ZMOD k] := (hc.mul_left P).add_left x
    _ = x + (target - x) * (P * inv) := by ring
    _ ≡ x + (target - x) * 1 [ZMOD k] := (hinv.mul_left _).add_left x
    _ = target := by ring

/-- The digit keeps the reconstructed value below the next product. -/
theorem garner_lt {x P k c : ℤ} (hx : 0 ≤ x) (hxP : x < P) (hc : 0 ≤ c) (hck : c < k) :
    0 ≤ x + P * c ∧ x + P * c < P * k := by
  constructor
  · have : 0 ≤ P * c := Int.mul_nonneg (by omega) hc
    omega
  · have : P * (c + 1) ≤ P * k := Int.mul_le_mul_of_nonneg_left (by omega) (by omega)
    linarith [mul_add P c 1]

/-- The centered representative of a small value's residue is the value. -/
theorem centered_emod {P v : ℤ} (h : 2 * |v| < P) :
    (if (P + 1) / 2 ≤ v % P then v % P - P else v % P) = v := by
  rcases abs_cases v with ⟨hv, hs⟩ | ⟨hv, hs⟩
  · rw [hv] at h
    have : v % P = v := Int.emod_eq_of_lt hs (by omega)
    rw [this]
    split <;> omega
  · rw [hv] at h
    have : v % P = v + P := by
      rw [← Int.add_emod_right]
      exact Int.emod_eq_of_lt (by omega) (by omega)
    rw [this]
    split <;> omega

end ModulusLadder
