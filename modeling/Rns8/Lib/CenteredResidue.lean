import Mathlib.Data.Int.ModEq
import Mathlib.Algebra.BigOperators.Group.Finset.Basic
import Mathlib.Algebra.BigOperators.Ring.Finset

/-!
# Centered residues and residue-wise arithmetic

`Int.bmod x m` is the representative of `x` modulo `m` in the half-open interval centered at `0`.
The lemmas here relate it to `Int.ModEq` and carry it through finite sums of products, which is what
makes a computation on residues agree with the computation on the integers they stand for.
-/

namespace CenteredResidue

open Finset

variable {m : ℕ} {x y : ℤ}

/-- Two integers have one centered residue exactly when they are congruent. -/
theorem bmod_eq_bmod_iff : x.bmod m = y.bmod m ↔ x ≡ y [ZMOD m] := by
  rw [Int.bmod_eq_bmod_iff_bmod_sub_eq_zero, ← Int.dvd_iff_bmod_eq_zero, Int.modEq_iff_dvd,
    dvd_sub_comm]

/-- An integer is congruent to its centered residue. -/
theorem bmod_modEq (x : ℤ) (m : ℕ) : x.bmod m ≡ x [ZMOD m] :=
  bmod_eq_bmod_iff.1 Int.bmod_bmod

/-- A finite sum of congruent terms is congruent. -/
theorem sum_modEq {ι : Type*} {s : Finset ι} {f g : ι → ℤ} (h : ∀ i ∈ s, f i ≡ g i [ZMOD m]) :
    ∑ i ∈ s, f i ≡ ∑ i ∈ s, g i [ZMOD m] := by
  classical
  induction s using Finset.induction_on with
  | empty => exact Int.ModEq.refl 0
  | insert i s hi ih =>
    rw [sum_insert hi, sum_insert hi]
    exact (h i (mem_insert_self i s)).add (ih fun j hj => h j (mem_insert_of_mem hj))

/-- Dot products of residue-wise equal vectors have one residue. -/
theorem dot_modEq {ι : Type*} {s : Finset ι} {a b A B : ι → ℤ}
    (ha : ∀ i ∈ s, a i ≡ A i [ZMOD m]) (hb : ∀ i ∈ s, b i ≡ B i [ZMOD m]) :
    ∑ i ∈ s, a i * b i ≡ ∑ i ∈ s, A i * B i [ZMOD m] :=
  sum_modEq fun i hi => (ha i hi).mul (hb i hi)

/-- The centered residue for an even or odd modulus up to `256` fits a signed byte. -/
theorem bmod_mem_byte (h0 : 0 < m) (h : m ≤ 256) : -2 ^ 7 ≤ x.bmod m ∧ x.bmod m < 2 ^ 7 := by
  have hlo := Int.le_bmod (x := x) h0
  have hhi := Int.bmod_lt (x := x) h0
  omega

end CenteredResidue
