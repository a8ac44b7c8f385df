import Rns8.Reconstruct.Crt
import Rns8.Lib.WordLimbs

/-!
# Limb exports

`crt.cpp`: the two exact-wide exports on a vector of residues and an output buffer, with the loop
that stores one limb and shifts the value. `writeLimbs_eq_wideLimb` says which words the loop stores,
and the `_eq_store` lemmas that a call stores what the export of its cell returns.
-/

namespace Rns8

open WordLimbs

/-- One pass of the limb loops: the low limb is stored and the value shifted. The value is not
negative here, so the mask is a remainder and the shift a quotient. -/
def writeLimb (s : (ℕ → UInt64) × ℤ) (limb : ℕ) : (ℕ → UInt64) × ℤ :=
  (Function.update s.1 limb (UInt64.ofNat (s.2 % 2 ^ 64).toNat), s.2 / 2 ^ 64)

/-- The limb loops. -/
def writeLimbs (value : ℤ) (limbCount : ℕ) (out : ℕ → UInt64) : ℕ → UInt64 :=
  ((List.range limbCount).foldl writeLimb (out, value)).1

/-- `export_exact_wide_unsigned_limbs` on a vector of residues and an output buffer. -/
def exportExactWideUnsignedLimbsInto (residues : Array Int8) (rnsPrefix : ℕ) (out : ℕ → UInt64)
    (limbCount : ℕ) : Status × (ℕ → UInt64) :=
  if residues.size < rnsPrefix ∨ rnsPrefix = 0 ∨ maxSupportedPrefix < rnsPrefix ∨ limbCount = 0 ∨
      32 < limbCount then (.invalidArgument, out)
  else
    let value := reconstructCanonical (residues.getD · 0) rnsPrefix
    let limit : ℤ := 2 ^ (64 * limbCount)
    if value < 0 ∨ limit ≤ value then (.rangeError, out)
    else (.success, writeLimbs value limbCount out)

/-- `export_exact_wide_signed_limbs` on a vector of residues and an output buffer. -/
def exportExactWideSignedLimbsInto (residues : Array Int8) (rnsPrefix : ℕ) (out : ℕ → UInt64)
    (limbCount : ℕ) : Status × (ℕ → UInt64) :=
  if residues.size < rnsPrefix ∨ rnsPrefix = 0 ∨ maxSupportedPrefix < rnsPrefix ∨ limbCount = 0 ∨
      32 < limbCount then (.invalidArgument, out)
  else
    let product := modulusProduct rnsPrefix
    let value := centeredFromCanonical (reconstructCanonical (residues.getD · 0) rnsPrefix) product
    let bits := 64 * limbCount
    let minValue : ℤ := -2 ^ (bits - 1)
    let maxValue : ℤ := 2 ^ (bits - 1) - 1
    if value < minValue ∨ maxValue < value then (.rangeError, out)
    else
      let value := if value < 0 then value + 2 ^ bits else value
      (.success, writeLimbs value limbCount out)

/-! ### The loop -/

/-- After `n` passes the first `n` words are stored and the value has lost them. -/
theorem writeLimb_foldl (value : ℤ) (n : ℕ) (out : ℕ → UInt64) :
    let s := (List.range n).foldl writeLimb (out, value)
    (∀ i, s.1 i = if i < n then UInt64.ofNat (word 64 value i).toNat else out i) ∧
      s.2 = value / 2 ^ (64 * n) := by
  induction n with
  | zero => simp
  | succ n ih =>
    obtain ⟨hwords, hvalue⟩ := ih
    rw [List.range_succ, List.foldl_append]
    set s := (List.range n).foldl writeLimb (out, value)
    simp only [List.foldl_cons, List.foldl_nil, writeLimb, hvalue]
    refine ⟨fun i => ?_, ?_⟩
    · rcases eq_or_ne i n with rfl | hne
      · rw [Function.update_self, if_pos (Nat.lt_succ_self i)]
        rfl
      · rw [Function.update_of_ne hne, hwords]
        by_cases hi : i < n
        · rw [if_pos hi, if_pos (by omega)]
        · rw [if_neg hi, if_neg (by omega)]
    · rw [Int.ediv_ediv_of_nonneg (by positivity), Nat.mul_succ, pow_add]

theorem writeLimbs_eq (value : ℤ) (n : ℕ) (out : ℕ → UInt64) (i : ℕ) :
    writeLimbs value n out i =
      if i < n then UInt64.ofNat (word 64 value i).toNat else out i :=
  (writeLimb_foldl value n out).1 i

/-! ### Cells -/

/-- The integers of the two's complement range of `limbCount` limbs. -/
def FitsSigned (x : ℤ) (limbCount : ℕ) : Prop :=
  -2 ^ (64 * limbCount - 1) ≤ x ∧ x < 2 ^ (64 * limbCount - 1)

/-- The natural numbers of the unsigned range of `limbCount` limbs. -/
def FitsUnsigned (x : ℤ) (limbCount : ℕ) : Prop := 0 ≤ x ∧ x < 2 ^ (64 * limbCount)

section Cells

variable {residues : ℕ → Int8} {p limbCount : ℕ} {v : ℤ}

theorem toNat_wideLimb {x : ℤ} (h0 : 0 ≤ x) (i : ℕ) : ((wideLimb x i).toNat : ℤ) = word 64 x i := by
  obtain ⟨n, rfl⟩ := Int.eq_ofNat_of_zero_le h0
  rw [wideLimb, UInt64.toNat_ofNat', Int.toNat_natCast, Nat.mod_mod, word]
  push_cast
  rfl

/-- **A signed cell** exports the words of its integer when the limbs hold it. -/
theorem exportExactWideSignedLimbs_of_value (hp : 0 < p ∧ p ≤ maxSupportedPrefix)
    (hlimbs : 0 < limbCount ∧ limbCount ≤ 32)
    (hval : centeredFromCanonical (reconstructCanonical residues p) (modulusProduct p) = v) :
    (FitsSigned v limbCount → ∃ words, exportExactWideSignedLimbs residues p limbCount = .ok words ∧
      ∀ i < limbCount, ((words i).toNat : ℤ) = word 64 v i) ∧
    (¬FitsSigned v limbCount →
      exportExactWideSignedLimbs residues p limbCount = .error .rangeError) := by
  have hargs : ¬(p = 0 ∨ maxSupportedPrefix < p ∨ limbCount = 0 ∨ 32 < limbCount) := by omega
  unfold exportExactWideSignedLimbs
  simp only [if_neg hargs, hval]
  constructor
  · rintro ⟨hlo, hhi⟩
    rw [if_neg (by omega)]
    refine ⟨_, rfl, fun i hi => ?_⟩
    have hbits : 0 < 64 * limbCount := by omega
    have hhalf : (2 : ℤ) * 2 ^ (64 * limbCount - 1) = 2 ^ (64 * limbCount) := by
      rw [← pow_succ', Nat.sub_add_cancel hbits]
    split
    · rw [toNat_wideLimb (by omega), word_add_pow hi]
    · rw [toNat_wideLimb (by omega)]
  · intro hfits
    rw [if_pos]
    unfold FitsSigned at hfits
    omega

/-- **An unsigned cell** exports the words of its integer when the limbs hold it. -/
theorem exportExactWideUnsignedLimbs_of_value (hp : 0 < p ∧ p ≤ maxSupportedPrefix)
    (hlimbs : 0 < limbCount ∧ limbCount ≤ 32) (hval : reconstructCanonical residues p = v) :
    (FitsUnsigned v limbCount → ∃ words,
      exportExactWideUnsignedLimbs residues p limbCount = .ok words ∧
        ∀ i < limbCount, ((words i).toNat : ℤ) = word 64 v i) ∧
    (¬FitsUnsigned v limbCount →
      exportExactWideUnsignedLimbs residues p limbCount = .error .rangeError) := by
  have hargs : ¬(p = 0 ∨ maxSupportedPrefix < p ∨ limbCount = 0 ∨ 32 < limbCount) := by omega
  unfold exportExactWideUnsignedLimbs
  simp only [if_neg hargs, hval]
  constructor
  · rintro ⟨h0, hhi⟩
    rw [if_neg (by omega)]
    exact ⟨_, rfl, fun i _ => toNat_wideLimb h0 i⟩
  · intro hfits
    rw [if_pos]
    unfold FitsUnsigned at hfits
    omega

end Cells

/-! ### The output buffer -/

/-- The words of a cell in the output buffer. -/
def storeWords (limbCount : ℕ) (out : ℕ → UInt64) (cell : Except Status (ℕ → UInt64)) :
    Status × (ℕ → UInt64) :=
  storeResult out (cell.map fun words i => if i < limbCount then words i else out i)

theorem storeWords_of_ne_success {limbCount : ℕ} {out : ℕ → UInt64}
    {cell : Except Status (ℕ → UInt64)} (h : (storeWords limbCount out cell).1 ≠ .success) :
    (storeWords limbCount out cell).2 = out :=
  storeResult_of_ne_success h

/-- The loop stores the limbs of the value. -/
theorem writeLimbs_eq_wideLimb {value : ℤ} (h0 : 0 ≤ value) (n : ℕ) (out : ℕ → UInt64) :
    writeLimbs value n out = fun i => if i < n then wideLimb value i else out i := by
  funext i
  have hword : ((wideLimb value i).toNat : ℤ) = word 64 value i := toNat_wideLimb h0 i
  rw [writeLimbs_eq, ← hword, Int.toNat_natCast, UInt64.ofNat_toNat]

/-- The call stores the words of the cell, which `exportExactWideUnsignedLimbs` returns for a vector
with a residue for every modulus. -/
theorem exportExactWideUnsignedLimbsInto_eq_store (residues : Array Int8) (p limbCount : ℕ)
    (out : ℕ → UInt64) :
    exportExactWideUnsignedLimbsInto residues p out limbCount = storeWords limbCount out
      (if residues.size < p then .error .invalidArgument
      else exportExactWideUnsignedLimbs (residues.getD · 0) p limbCount) := by
  unfold exportExactWideUnsignedLimbsInto exportExactWideUnsignedLimbs
  by_cases hsize : residues.size < p
  · rw [if_pos (Or.inl hsize), if_pos hsize]
    rfl
  rw [if_neg hsize]
  by_cases hargs : p = 0 ∨ maxSupportedPrefix < p ∨ limbCount = 0 ∨ 32 < limbCount
  · rw [if_pos (Or.inr hargs), if_pos hargs]
    rfl
  · rw [if_neg (by omega), if_neg hargs]
    dsimp only
    split
    · rfl
    · rw [writeLimbs_eq_wideLimb (by omega)]
      rfl

/-- The call stores the words of the cell, which `exportExactWideSignedLimbs` returns for a vector
with a residue for every modulus. -/
theorem exportExactWideSignedLimbsInto_eq_store (residues : Array Int8) (p limbCount : ℕ)
    (out : ℕ → UInt64) :
    exportExactWideSignedLimbsInto residues p out limbCount = storeWords limbCount out
      (if residues.size < p then .error .invalidArgument
      else exportExactWideSignedLimbs (residues.getD · 0) p limbCount) := by
  unfold exportExactWideSignedLimbsInto exportExactWideSignedLimbs
  by_cases hsize : residues.size < p
  · rw [if_pos (Or.inl hsize), if_pos hsize]
    rfl
  rw [if_neg hsize]
  by_cases hargs : p = 0 ∨ maxSupportedPrefix < p ∨ limbCount = 0 ∨ 32 < limbCount
  · rw [if_pos (Or.inr hargs), if_pos hargs]
    rfl
  · rw [if_neg (by omega), if_neg hargs]
    have hhalf : (2 : ℤ) * 2 ^ (64 * limbCount - 1) = 2 ^ (64 * limbCount) := by
      rw [← pow_succ', Nat.sub_add_cancel (by omega)]
    dsimp only
    split
    · rfl
    · rw [writeLimbs_eq_wideLimb (by split <;> omega)]
      rfl

/-! ### The integers of a vector of residues -/

/-- The integers with the given residues. -/
def HasResidues (residues : Array Int8) (p : ℕ) (x : ℤ) : Prop :=
  ∀ i < p, x ≡ (residues.getD i 0).toInt [ZMOD modulusAt i]

/-- The canonical value of a vector of residues. -/
structure CanonicalValue (residues : Array Int8) (p : ℕ) (x : ℤ) : Prop where
  residues : HasResidues residues p x
  nonneg : 0 ≤ x
  lt : x < modulusProduct p

/-- The centered value of a vector of residues. -/
structure CenteredValue (residues : Array Int8) (p : ℕ) (x : ℤ) : Prop where
  residues : HasResidues residues p x
  lower : -(modulusProduct p : ℤ) ≤ 2 * x
  upper : 2 * x < modulusProduct p

theorem HasResidues.modEq {residues : Array Int8} {p : ℕ} {x y : ℤ} (hp : p ≤ 28)
    (hx : HasResidues residues p x) (hy : HasResidues residues p y) :
    x ≡ y [ZMOD modulusProduct p] :=
  modEq_modulusProduct hp fun i hi => (hx i hi).trans (hy i hi).symm

theorem canonicalValue_reconstruct (residues : Array Int8) {p : ℕ} (hp : p ≤ maxSupportedPrefix) :
    CanonicalValue residues p (reconstructCanonical (residues.getD · 0) p) := by
  simp only [maxSupportedPrefix] at hp
  obtain ⟨-, hlo, hhi, -⟩ := reconstruct_foldl (residues.getD · 0) (show p ≤ 28 by omega)
  exact ⟨reconstructCanonical_modEq (by omega) (noneWraps_of_le _ (by omega)), hlo, hhi⟩

theorem CanonicalValue.eq_reconstruct {residues : Array Int8} {p : ℕ} {x : ℤ}
    (hp : p ≤ maxSupportedPrefix) (hx : CanonicalValue residues p x) :
    reconstructCanonical (residues.getD · 0) p = x := by
  have hrec := canonicalValue_reconstruct residues hp
  simp only [maxSupportedPrefix] at hp
  have hmod := hrec.residues.modEq (by omega) hx.residues
  rw [Int.ModEq, Int.emod_eq_of_lt hrec.nonneg hrec.lt, Int.emod_eq_of_lt hx.nonneg hx.lt] at hmod
  exact hmod

theorem centeredValue_reconstruct (residues : Array Int8) {p : ℕ} (hp : p ≤ maxSupportedPrefix) :
    CenteredValue residues p
      (centeredFromCanonical (reconstructCanonical (residues.getD · 0) p) (modulusProduct p)) := by
  obtain ⟨hres, hlo, hhi⟩ := canonicalValue_reconstruct residues hp
  unfold centeredFromCanonical
  dsimp only
  split
  · refine ⟨fun i hi => ?_, by omega, by omega⟩
    have hproduct : (modulusProduct p : ℤ) ≡ 0 [ZMOD modulusAt i] :=
      Int.modEq_zero_iff_dvd.2 (modulusAt_dvd_modulusProduct hi)
    simpa using (hres i hi).sub hproduct
  · exact ⟨hres, by omega, by omega⟩

theorem CenteredValue.eq_reconstruct {residues : Array Int8} {p : ℕ} {x : ℤ}
    (hp : p ≤ maxSupportedPrefix) (hx : CenteredValue residues p x) :
    centeredFromCanonical (reconstructCanonical (residues.getD · 0) p) (modulusProduct p) = x := by
  have hrec := centeredValue_reconstruct residues hp
  set y := centeredFromCanonical (reconstructCanonical (residues.getD · 0) p) (modulusProduct p)
  simp only [maxSupportedPrefix] at hp
  obtain ⟨k, hk⟩ := (hrec.residues.modEq (by omega) hx.residues).dvd
  have hlo := hrec.lower
  have hhi := hrec.upper
  have hlo' := hx.lower
  have hhi' := hx.upper
  -- two values of an interval of one period differ by less than a period
  have hzero : k = 0 := by
    have h1 : (modulusProduct p : ℤ) * k < modulusProduct p := by omega
    have h2 : -(modulusProduct p : ℤ) < modulusProduct p * k := by omega
    nlinarith
  rw [hzero, Int.mul_zero] at hk
  omega

end Rns8
