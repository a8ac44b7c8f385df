import Rns8.Lib.CenteredResidue
import Rns8.Core.Types
import Mathlib.Data.Nat.GCD.Basic
import Mathlib.Algebra.BigOperators.GroupWithZero.Finset

/-!
# Residues and the default modulus ladder

The residue functions of `cpu_reference.cpp` and the modulus ladder of `internal.hpp` and
`moduli.cpp`. `centered_residue` (on multiprecision values) and `reduce_to_centered` (on 64-bit
values) both start from the truncated `%` of the language; `centeredResidue_toInt` and
`reduceToCentered_eq` identify them with the centered residue of the mathematical value.
-/

namespace Rns8

open CenteredResidue

/-- `kDefaultModuli`. -/
def kDefaultModuli : List ℕ :=
  [256, 255, 253, 251, 247, 239, 233, 229, 227, 223, 217, 211, 199, 197, 193, 191, 181, 179, 173,
    167, 163, 157, 151, 149, 139, 137, 131, 127]

/-- `kDefaultModuli[p]`, and `0` past the end of the table. The code reads past it only in the
`INPUT_RANGE_AND_K` branch of `validate_gemm_desc` with a `max_prefix` of `29` or more,
which no other check rejects: a read out of bounds, for which `0` is a stand-in. -/
def modulusAt (p : ℕ) : ℕ := kDefaultModuli.getD p 0

/-- `modulus_product`. -/
def modulusProduct (rnsPrefix : ℕ) : ℕ :=
  (List.range rnsPrefix).foldl (fun product i => product * modulusAt i) 1

/-- `canonical_residue`. -/
def canonicalResidue (value : ℤ) (modulus : ℕ) : ℤ :=
  let residue := value.tmod modulus
  if residue < 0 then residue + modulus else residue

/-- `canonical_from_centered`. The result is a `uint32_t`, so that a byte below `-modulus` wraps. -/
def canonicalFromCentered (residue : Int8) (modulus : ℕ) : ℤ :=
  (if residue.toInt < 0 then residue.toInt + modulus else residue.toInt) % 2 ^ 32

/-- `centered_residue`. -/
def centeredResidue (value : ℤ) (modulus : ℕ) : Int8 :=
  let canonical := canonicalResidue value modulus
  let threshold : ℤ := (modulus + 1) / 2
  Int8.ofInt (if threshold ≤ canonical then canonical - modulus else canonical)

/-- `reduce_to_centered`. -/
def reduceToCentered (value : ℤ) (modulus : ℕ) : Int8 :=
  let residue := value.tmod modulus
  let residue := if residue < 0 then residue + modulus else residue
  let threshold : ℤ := (modulus + 1) / 2
  Int8.ofInt (if threshold ≤ residue then residue - modulus else residue)

/-- `default_moduli_pairwise_coprime`. -/
def defaultModuliPairwiseCoprime : Bool :=
  (List.range 28).all fun i => (List.range 28).all fun j =>
    !(decide (i < j)) || Nat.gcd (modulusAt i) (modulusAt j) == 1

/-! ### The ladder -/

theorem modulusAt_bounds {p : ℕ} (hp : p < 28) : 2 ≤ modulusAt p ∧ modulusAt p ≤ 256 := by
  revert p; decide

theorem modulusAt_pos {p : ℕ} (hp : p < 28) : 0 < modulusAt p :=
  lt_of_lt_of_le (by decide) (modulusAt_bounds hp).1

/-- `rns8_validate_default_moduli` succeeds. -/
theorem defaultModuliPairwiseCoprime_eq : defaultModuliPairwiseCoprime = true := by decide

theorem modulusAt_coprime {i j : ℕ} (hi : i < 28) (hj : j < 28) (hij : i ≠ j) :
    Nat.Coprime (modulusAt i) (modulusAt j) := by
  have key : ∀ i < 28, ∀ j < 28, i < j → Nat.gcd (modulusAt i) (modulusAt j) = 1 := by
    intro i hi j hj hlt
    have hall := List.all_eq_true.1 defaultModuliPairwiseCoprime_eq i (List.mem_range.2 hi)
    have hpair := List.all_eq_true.1 hall j (List.mem_range.2 hj)
    simpa [hlt] using hpair
  rcases Nat.lt_or_gt_of_ne hij with h | h
  · exact key i hi j hj h
  · exact (Nat.gcd_comm _ _).trans (key j hj i hi h)

@[simp] theorem modulusProduct_zero : modulusProduct 0 = 1 := rfl

theorem modulusProduct_succ (r : ℕ) :
    modulusProduct (r + 1) = modulusProduct r * modulusAt r := by
  simp [modulusProduct, List.range_succ]

theorem modulusProduct_eq_prod (r : ℕ) :
    modulusProduct r = ∏ i ∈ Finset.range r, modulusAt i := by
  induction r with
  | zero => simp
  | succ r ih => rw [modulusProduct_succ, Finset.prod_range_succ, ih]

theorem modulusProduct_pos {r : ℕ} (hr : r ≤ 28) : 0 < modulusProduct r := by
  rw [modulusProduct_eq_prod, Nat.pos_iff_ne_zero, Finset.prod_ne_zero_iff]
  exact fun i hi => (modulusAt_pos (lt_of_lt_of_le (Finset.mem_range.1 hi) hr)).ne'

/-- The product grows with the prefix. -/
theorem modulusProduct_le {r s : ℕ} (hrs : r ≤ s) (hs : s ≤ 28) :
    modulusProduct r ≤ modulusProduct s := by
  induction s, hrs using Nat.le_induction with
  | base => exact le_refl _
  | succ s _ ih =>
    rw [modulusProduct_succ]
    exact (ih (by omega)).trans (Nat.le_mul_of_pos_right _ (modulusAt_pos (by omega)))

/-! ### Residues -/

theorem canonicalResidue_eq (value : ℤ) {modulus : ℕ} (hm : 0 < modulus) :
    canonicalResidue value modulus = value % modulus := by
  have hpos : (0 : ℤ) < modulus := by exact_mod_cast hm
  have h0 := Int.emod_nonneg value hpos.ne'
  have h1 := Int.emod_lt_of_pos value hpos
  simp only [canonicalResidue, Int.tmod_eq_emod, Int.natAbs_natCast]
  split_ifs <;> omega

/-- Both residue functions select the centered representative of the canonical residue. -/
private theorem centered_eq_bmod (value : ℤ) (modulus : ℕ) :
    (if ((modulus : ℤ) + 1) / 2 ≤ value % modulus then value % modulus - modulus
      else value % modulus) = value.bmod modulus := by
  rw [Int.bmod_def]
  split_ifs <;> omega

theorem centeredResidue_eq (value : ℤ) {modulus : ℕ} (hm : 0 < modulus) :
    centeredResidue value modulus = Int8.ofInt (value.bmod modulus) := by
  simp only [centeredResidue, canonicalResidue_eq value hm, centered_eq_bmod]

/-- `reduce_to_centered` and `centered_residue` are one function of the value. -/
theorem reduceToCentered_eq (value : ℤ) (modulus : ℕ) :
    reduceToCentered value modulus = centeredResidue value modulus := rfl

theorem centeredResidue_toInt (value : ℤ) {modulus : ℕ} (hm : 0 < modulus) (hb : modulus ≤ 256) :
    (centeredResidue value modulus).toInt = value.bmod modulus := by
  obtain ⟨hlo, hhi⟩ := bmod_mem_byte (x := value) hm hb
  rw [centeredResidue_eq value hm, Int8.toInt_ofInt_of_le hlo hhi]

theorem centeredResidue_modEq (value : ℤ) {modulus : ℕ} (hm : 0 < modulus) (hb : modulus ≤ 256) :
    (centeredResidue value modulus).toInt ≡ value [ZMOD modulus] := by
  rw [centeredResidue_toInt value hm hb]
  exact bmod_modEq value modulus

theorem centeredResidue_eq_iff {v w : ℤ} {modulus : ℕ} (hm : 0 < modulus) (hb : modulus ≤ 256) :
    centeredResidue v modulus = centeredResidue w modulus ↔ v ≡ w [ZMOD modulus] := by
  rw [← bmod_eq_bmod_iff, ← Int8.toInt_inj, centeredResidue_toInt v hm hb,
    centeredResidue_toInt w hm hb]

theorem centeredResidue_congr {v w : ℤ} {modulus : ℕ} (hm : 0 < modulus) (hb : modulus ≤ 256)
    (h : v ≡ w [ZMOD modulus]) : centeredResidue v modulus = centeredResidue w modulus :=
  (centeredResidue_eq_iff hm hb).2 h

@[simp] theorem centeredResidue_zero {modulus : ℕ} (hm : 0 < modulus) :
    centeredResidue 0 modulus = 0 := by
  rw [centeredResidue_eq 0 hm, Int.zero_bmod]; rfl

theorem centeredResidue_eq_zero_iff {v : ℤ} {modulus : ℕ} (hm : 0 < modulus) (hb : modulus ≤ 256) :
    centeredResidue v modulus = 0 ↔ (modulus : ℤ) ∣ v := by
  rw [← centeredResidue_zero hm, centeredResidue_eq_iff hm hb, Int.modEq_zero_iff_dvd]

/-- A byte that is not below `-modulus` does not wrap. -/
theorem canonicalFromCentered_of_le {r : Int8} {modulus : ℕ} (hr : -(modulus : ℤ) ≤ r.toInt)
    (hb : modulus ≤ 256) : canonicalFromCentered r modulus =
      if r.toInt < 0 then r.toInt + modulus else r.toInt := by
  have hlt := r.toInt_lt
  unfold canonicalFromCentered
  refine Int.emod_eq_of_lt ?_ ?_ <;> split <;> omega

theorem canonicalFromCentered_modEq {r : Int8} {modulus : ℕ} (hr : -(modulus : ℤ) ≤ r.toInt)
    (hb : modulus ≤ 256) : canonicalFromCentered r modulus ≡ r.toInt [ZMOD modulus] := by
  rw [canonicalFromCentered_of_le hr hb]
  split
  · exact Int.add_modEq_right
  · exact Int.ModEq.refl _

/-- Undoing the centering of a residue gives the canonical residue. -/
theorem canonicalFromCentered_centeredResidue (value : ℤ) {modulus : ℕ} (hm : 0 < modulus)
    (hb : modulus ≤ 256) :
    canonicalFromCentered (centeredResidue value modulus) modulus = value % modulus := by
  have hpos : (0 : ℤ) < modulus := by exact_mod_cast hm
  have h0 := Int.emod_nonneg value hpos.ne'
  have h1 := Int.emod_lt_of_pos value hpos
  have hle : -(modulus : ℤ) ≤ (centeredResidue value modulus).toInt := by
    rw [centeredResidue_toInt value hm hb, Int.bmod_def]
    split_ifs <;> omega
  rw [canonicalFromCentered_of_le hle hb, centeredResidue_toInt value hm hb, Int.bmod_def]
  split_ifs <;> omega

end Rns8
