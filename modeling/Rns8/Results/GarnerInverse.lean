import Rns8.Reconstruct.Crt

/-!
# Reconstruction inverts packing

`reconstruct_canonical` returns the value below the product that has the given bytes as its residues,
as long as `canonical_from_centered` wraps none of them; of the 28 moduli only the last one, 127, lets
a byte wrap. The checked exports succeed exactly at the values within the bound and the destination
type, and the residues that packing writes are reconstructed to the packed integer.
-/

namespace Rns8

open CenteredResidue

/-! ### The loop of `mod_inverse` -/

/-- A pass of the loop leaves a smaller remainder. -/
theorem sub_tdiv_mul_bounds {r nextR : ℤ} (hr : 0 ≤ r) (hnext : 0 < nextR) :
    0 ≤ r - r.tdiv nextR * nextR ∧ r - r.tdiv nextR * nextR < nextR := by
  have heq : r - r.tdiv nextR * nextR = r % nextR := by
    rw [Int.tdiv_eq_ediv_of_nonneg hr, Int.emod_def, mul_comm]
  rw [heq]
  exact ⟨Int.emod_nonneg r hnext.ne', Int.emod_lt_of_pos r hnext⟩

/-- **The loop ends.** Once the fuel exceeds `next_r`, more fuel changes nothing. -/
theorem modInverseLoop_fuel {fuel : ℕ} (extra : ℕ) {t nextT r nextR : ℤ} (hr : 0 ≤ r)
    (hnext : 0 ≤ nextR) (hfuel : nextR < fuel) :
    modInverseLoop (fuel + extra) t nextT r nextR = modInverseLoop fuel t nextT r nextR := by
  induction fuel generalizing t nextT r nextR with
  | zero => omega
  | succ fuel ih =>
    rw [Nat.succ_add]
    unfold modInverseLoop
    split
    · rfl
    next hne =>
    have hpos : 0 < nextR := by omega
    obtain ⟨h0, h1⟩ := sub_tdiv_mul_bounds hr hpos
    exact ih hnext h0 (by omega)

/-- The loop returns the greatest common divisor, and its coefficient modulo `m`. -/
theorem modInverseLoop_spec {fuel : ℕ} {a m t nextT r nextR : ℤ} (hr : 0 ≤ r) (hnext : 0 ≤ nextR)
    (hfuel : nextR < fuel) (hmod : r ≡ a * t [ZMOD m]) (hmodNext : nextR ≡ a * nextT [ZMOD m]) :
    (modInverseLoop fuel t nextT r nextR).2 = Int.gcd r nextR ∧
      (modInverseLoop fuel t nextT r nextR).2 ≡
        a * (modInverseLoop fuel t nextT r nextR).1 [ZMOD m] := by
  induction fuel generalizing t nextT r nextR with
  | zero => omega
  | succ fuel ih =>
    unfold modInverseLoop
    split
    · next hzero =>
      subst hzero
      refine ⟨?_, hmod⟩
      rw [Int.gcd_zero_right]
      omega
    next hne =>
    have hpos : 0 < nextR := by omega
    obtain ⟨h0, h1⟩ := sub_tdiv_mul_bounds hr hpos
    have hstep : r - r.tdiv nextR * nextR ≡ a * (t - r.tdiv nextR * nextT) [ZMOD m] := by
      have h := hmod.sub (hmodNext.mul_left (r.tdiv nextR))
      have heq : a * t - r.tdiv nextR * (a * nextT) = a * (t - r.tdiv nextR * nextT) := by ring
      rwa [heq] at h
    obtain ⟨hgcd, hcoef⟩ := ih hnext h0 (by omega) hmodNext hstep
    refine ⟨?_, hcoef⟩
    rw [hgcd, Int.gcd_sub_mul_right_right, Int.gcd_comm]

/-- **`mod_inverse` inverts.** Of a number coprime to the modulus it returns an inverse. -/
theorem modInverse_modEq {a modulus : ℕ} (hm : 0 < modulus) (hcop : Nat.Coprime a modulus) :
    (a : ℤ) * modInverse a modulus ≡ 1 [ZMOD modulus] := by
  have hlt : ((a % modulus : ℕ) : ℤ) < modulus := by exact_mod_cast Nat.mod_lt a hm
  have hself : ((a % modulus : ℕ) : ℤ) ≡ a * 1 [ZMOD modulus] := by
    push_cast
    rw [mul_one]
    exact Int.mod_modEq _ _
  obtain ⟨hgcd, hcoef⟩ := modInverseLoop_spec (Int.natCast_nonneg modulus)
    (Int.natCast_nonneg (a % modulus)) hlt
    (show (modulus : ℤ) ≡ a * 0 [ZMOD modulus] by
      rw [mul_zero]
      exact Int.modEq_zero_iff_dvd.2 dvd_rfl) hself
  have hone : Int.gcd modulus (a % modulus : ℕ) = 1 := by
    rw [Int.gcd_natCast_natCast, Nat.gcd_comm, ← Nat.gcd_rec, Nat.gcd_comm]
    exact hcop
  rw [hgcd, hone] at hcoef
  unfold modInverse
  simp only [hgcd, hone, Nat.cast_one, ne_eq, not_true_eq_false, if_false]
  split
  · rw [mul_add]
    have hzero : (a : ℤ) * modulus ≡ 0 [ZMOD modulus] :=
      Int.modEq_zero_iff_dvd.2 (Dvd.intro_left _ rfl)
    simpa using (hcoef.symm.add hzero)
  · exact hcoef.symm

/-- The product of the moduli before a modulus is coprime to it. -/
theorem modulusProduct_coprime {i : ℕ} (hi : i < 28) : Nat.Coprime (modulusProduct i) (modulusAt i) := by
  rw [modulusProduct_eq_prod]
  refine Nat.Coprime.prod_left fun j hj => ?_
  have hlt := Finset.mem_range.1 hj
  exact modulusAt_coprime (by omega) hi (by omega)

/-! ### The canonical and the centered value -/

/-- `x` is the value below the product of the prefix with the given bytes as its residues. -/
structure Represents (residues : ℕ → Int8) (p : ℕ) (x : ℤ) : Prop where
  nonneg : 0 ≤ x
  lt_product : x < modulusProduct p
  residue : ∀ i < p, x ≡ (residues i).toInt [ZMOD modulusAt i]

/-- No two values below the product have the same residues. -/
theorem Represents.unique {residues : ℕ → Int8} {p : ℕ} (hp : p ≤ 28) {x y : ℤ}
    (hx : Represents residues p x) (hy : Represents residues p y) : y = x := by
  have hmod : y ≡ x [ZMOD modulusProduct p] :=
    modEq_modulusProduct hp fun i hi => (hy.residue i hi).trans (hx.residue i hi).symm
  calc y = y % modulusProduct p := (Int.emod_eq_of_lt hy.nonneg hy.lt_product).symm
    _ = x % modulusProduct p := hmod
    _ = x := Int.emod_eq_of_lt hx.nonneg hx.lt_product

/-- The only byte of the ladder that wraps: `-128` at the last modulus. -/
theorem noneWraps_iff (residues : ℕ → Int8) {p : ℕ} (hp : p ≤ 28) :
    NoneWraps residues p ↔ (p = 28 → residues 27 ≠ -128) := by
  constructor
  · rintro h rfl hbyte
    have hlast := h 27 (by decide)
    rw [hbyte] at hlast
    revert hlast
    decide
  · intro h i hi
    rcases Nat.lt_or_ge i 27 with hlt | hge
    · exact noneWraps_of_le residues (le_refl 27) i hlt
    obtain rfl : i = 27 := by omega
    have hne : (residues 27).toInt ≠ -128 := fun heq =>
      h (by omega) (Int8.toInt_inj.1 (heq.trans (by decide)))
    have hlo := (residues 27).le_toInt
    have hmodulus : modulusAt 27 = 127 := by decide
    rw [hmodulus]
    omega

/-- **Reconstruction is exact when no byte wraps.** -/
theorem reconstructCanonical_represents {residues : ℕ → Int8} {p : ℕ} (hp : p ≤ 28)
    (hbytes : NoneWraps residues p) : Represents residues p (reconstructCanonical residues p) := by
  obtain ⟨-, hlo, hhi, -⟩ := reconstruct_foldl residues hp
  exact ⟨hlo, hhi, reconstructCanonical_modEq hp hbytes⟩

/-- A byte that wraps takes the value of another residue: `-128` that of `15`. -/
theorem not_represents_of_wraps {residues : ℕ → Int8} (hbyte : residues 27 = -128) :
    ¬ Represents residues 28 (reconstructCanonical residues 28) := by
  intro h
  obtain ⟨-, -, -, hres⟩ := reconstruct_foldl residues (le_refl 28)
  have htarget := (hres 27 (by decide)).symm.trans (h.residue 27 (by decide))
  rw [hbyte] at htarget
  revert htarget
  decide

/-- With all 28 moduli, bytes of `-128` are not given back. -/
theorem reconstructCanonical_minus_128 :
    ¬ Represents (fun _ => -128) 28 (reconstructCanonical (fun _ => -128) 28) :=
  not_represents_of_wraps rfl

/-- The centered value lies in the half-open interval around zero and has the canonical value's
residue modulo the product. -/
theorem centeredFromCanonical_spec {x : ℤ} {product : ℕ} (h0 : 0 ≤ x) (hlt : x < product) :
    -(product : ℤ) ≤ 2 * centeredFromCanonical x product ∧
      2 * centeredFromCanonical x product < product ∧
      centeredFromCanonical x product ≡ x [ZMOD product] := by
  unfold centeredFromCanonical
  dsimp only
  split
  · exact ⟨by omega, by omega, Int.modEq_iff_dvd.2 ⟨1, by ring⟩⟩
  · exact ⟨by omega, by omega, Int.ModEq.refl _⟩

/-! ### The checked exports -/

/-- `reconstruct_signed` under an accepted bound. -/
theorem reconstructSignedInto_eq {residues : Array Int8} {p : ℕ} {bound : UInt64} (out : Int64)
    (hcontract : validateBoundContract .boundedI64 .globalMaxAbs bound.toNat p = .success)
    (hsize : p ≤ residues.size) {value : ℤ}
    (hvalue : centeredFromCanonical (reconstructCanonical (residues.getD · 0) p)
      (modulusProduct p) = value) :
    reconstructSignedInto residues p bound out =
      if |value| ≤ bound.toNat ∧ -2 ^ 63 ≤ value ∧ value < 2 ^ 63 then
        (.success, Int64.ofInt value)
      else (.rangeError, out) := by
  rw [reconstructSignedInto_eq_store hsize, reconstructSigned_of_contract hcontract hvalue]
  split <;> rfl

/-- `reconstruct_unsigned` under an accepted bound. -/
theorem reconstructUnsignedInto_eq {residues : Array Int8} {p : ℕ} {bound : UInt64} (out : UInt64)
    (hcontract : validateBoundContract .boundedU64 .globalMaxUnsigned bound.toNat p = .success)
    (hsize : p ≤ residues.size) {value : ℤ}
    (hvalue : reconstructCanonical (residues.getD · 0) p = value) :
    reconstructUnsignedInto residues p bound out =
      if value ≤ bound.toNat ∧ 0 ≤ value ∧ value < 2 ^ 64 then
        (.success, UInt64.ofNat value.toNat)
      else (.rangeError, out) := by
  rw [reconstructUnsignedInto_eq_store hsize, reconstructUnsigned_of_contract hcontract hvalue]
  split <;> rfl

/-! ### Packed residues -/

/-- The residues that packing writes for a value, one for each modulus of the prefix. -/
def packedResidues (value : ℤ) (p : ℕ) : Array Int8 :=
  Array.ofFn fun i : Fin p => centeredResidue value (modulusAt i)

@[simp] theorem packedResidues_size (value : ℤ) (p : ℕ) : (packedResidues value p).size = p := by
  simp [packedResidues]

theorem packedResidues_getD (value : ℤ) {p i : ℕ} (hi : i < p) :
    (packedResidues value p).getD i 0 = centeredResidue value (modulusAt i) := by
  simp [packedResidues, Array.getD, hi]

/-- Packed residues never wrap, and are the residues of the packed value. -/
theorem packedResidues_spec (value : ℤ) {p : ℕ} (hp : p ≤ 28) :
    NoneWraps ((packedResidues value p).getD · 0) p ∧
      ∀ i < p, ((packedResidues value p).getD i 0).toInt ≡ value [ZMOD modulusAt i] := by
  refine ⟨fun i hi => ?_, fun i hi => ?_⟩
  · obtain ⟨hlo, hhi⟩ := modulusAt_bounds (show i < 28 by omega)
    have hpos : 0 < modulusAt i := by omega
    have hlow := Int.le_bmod (x := value) hpos
    simp only [packedResidues_getD value hi, centeredResidue_toInt value hpos hhi]
    omega
  · obtain ⟨hlo, hhi⟩ := modulusAt_bounds (show i < 28 by omega)
    rw [packedResidues_getD value hi]
    exact centeredResidue_modEq value (by omega) hhi

/-- **Packing is inverted.** -/
theorem reconstructCanonical_packed (value : ℤ) {p : ℕ} (hp : p ≤ 28) :
    reconstructCanonical ((packedResidues value p).getD · 0) p = value % modulusProduct p := by
  obtain ⟨hnone, hres⟩ := packedResidues_spec value hp
  exact reconstructCanonical_of_noneWraps hp hnone hres

/-- A value below half the product is reconstructed with its sign. -/
theorem centeredFromCanonical_packed {value : ℤ} {p : ℕ} (hp : p ≤ 28)
    (hv : 2 * |value| < modulusProduct p) :
    centeredFromCanonical (reconstructCanonical ((packedResidues value p).getD · 0) p)
      (modulusProduct p) = value := by
  rw [reconstructCanonical_packed value hp]
  exact ModulusLadder.centered_emod hv

/-- An accepted signed bound is below half the product. -/
theorem signed_contract_fits {bound p : ℕ}
    (hcontract : validateBoundContract .boundedI64 .globalMaxAbs bound p = .success) :
    2 * bound < modulusProduct p := by
  unfold validateBoundContract at hcontract
  simp only at hcontract
  split_ifs at hcontract
  assumption

/-- An accepted unsigned bound is below the product. -/
theorem unsigned_contract_fits {bound p : ℕ}
    (hcontract : validateBoundContract .boundedU64 .globalMaxUnsigned bound p = .success) :
    bound < modulusProduct p := by
  unfold validateBoundContract at hcontract
  simp only at hcontract
  split_ifs at hcontract
  assumption

/-- **Signed round trip.** -/
theorem reconstructSignedInto_packed {value : Int64} {bound : UInt64} {p : ℕ} (out : Int64)
    (hcontract : validateBoundContract .boundedI64 .globalMaxAbs bound.toNat p = .success)
    (hv : |value.toInt| ≤ bound.toNat) :
    reconstructSignedInto (packedResidues value.toInt p) p bound out = (.success, value) := by
  obtain ⟨-, hp⟩ := contract_prefix hcontract
  have hfits := signed_contract_fits hcontract
  have hvalue := centeredFromCanonical_packed (hp.trans (by decide))
    (show 2 * |value.toInt| < modulusProduct p by omega)
  rw [reconstructSignedInto_eq out hcontract (by simp) hvalue,
    if_pos ⟨hv, value.le_toInt, value.toInt_lt⟩, Int64.ofInt_toInt]

/-- **Unsigned round trip.** -/
theorem reconstructUnsignedInto_packed {value bound : UInt64} {p : ℕ} (out : UInt64)
    (hcontract : validateBoundContract .boundedU64 .globalMaxUnsigned bound.toNat p = .success)
    (hv : value ≤ bound) :
    reconstructUnsignedInto (packedResidues value.toNat p) p bound out = (.success, value) := by
  obtain ⟨-, hp⟩ := contract_prefix hcontract
  have hfits := unsigned_contract_fits hcontract
  have hle : value.toNat ≤ bound.toNat := UInt64.le_iff_toNat_le.1 hv
  have hlt := value.toNat_lt
  have hvalue : reconstructCanonical ((packedResidues value.toNat p).getD · 0) p = value.toNat := by
    rw [reconstructCanonical_packed _ (hp.trans (by decide))]
    exact Int.emod_eq_of_lt (by omega) (by omega)
  rw [reconstructUnsignedInto_eq out hcontract (by simp) hvalue, if_pos (by omega), Int.toNat_natCast,
    UInt64.ofNat_toNat]

/-! ### The inverse of packing -/

/-- **Garner reconstruction inverts packing.** The loop of `mod_inverse` ends and finds the inverses
of the ladder; the canonical value of a prefix is the one value below the product with the given
bytes as residues, exactly when no byte is `-128` at the last modulus; the checked exports return the
represented value exactly when it is within the bound and the destination type, and keep the output
otherwise; packed values are given back. -/
theorem garner_inverts_packing :
    (∀ a modulus : ℕ, 0 < modulus →
      (∀ extra, modInverseLoop (modulus + extra) 0 1 modulus (a % modulus : ℕ) =
        modInverseLoop modulus 0 1 modulus (a % modulus : ℕ)) ∧
      (Nat.Coprime a modulus → (a : ℤ) * modInverse a modulus ≡ 1 [ZMOD modulus])) ∧
    (∀ i < 28, Nat.Coprime (modulusProduct i) (modulusAt i) ∧
      0 ≤ modInverse (modulusProduct i % modulusAt i) (modulusAt i) ∧
      modInverse (modulusProduct i % modulusAt i) (modulusAt i) < modulusAt i ∧
      (modulusProduct i : ℤ) * modInverse (modulusProduct i % modulusAt i) (modulusAt i) ≡
        1 [ZMOD modulusAt i]) ∧
    (∀ (residues : ℕ → Int8) (p : ℕ), p ≤ kDefaultModuli.length →
      (Represents residues p (reconstructCanonical residues p) ↔ (p = 28 → residues 27 ≠ -128)) ∧
      ∀ x, Represents residues p x → (p = 28 → residues 27 ≠ -128) →
        x = reconstructCanonical residues p) ∧
    (∀ (residues : Array Int8) (p : ℕ) (bound : UInt64) (out : Int64), p ≤ residues.size →
      validateBoundContract .boundedI64 .globalMaxAbs bound.toNat p = .success →
      ∃ value : ℤ, -(modulusProduct p : ℤ) ≤ 2 * value ∧ 2 * value < modulusProduct p ∧
        (∀ i < p, value ≡ (residues.getD i 0).toInt [ZMOD modulusAt i]) ∧
        reconstructSignedInto residues p bound out =
          if |value| ≤ bound.toNat ∧ -2 ^ 63 ≤ value ∧ value < 2 ^ 63 then
            (.success, Int64.ofInt value)
          else (.rangeError, out)) ∧
    (∀ (residues : Array Int8) (p : ℕ) (bound out : UInt64), p ≤ residues.size →
      validateBoundContract .boundedU64 .globalMaxUnsigned bound.toNat p = .success →
      ∃ value : ℤ, Represents (residues.getD · 0) p value ∧
        reconstructUnsignedInto residues p bound out =
          if value ≤ bound.toNat ∧ 0 ≤ value ∧ value < 2 ^ 64 then
            (.success, UInt64.ofNat value.toNat)
          else (.rangeError, out)) ∧
    (∀ (value : ℤ) (p : ℕ), p ≤ kDefaultModuli.length → 2 * |value| < modulusProduct p →
      centeredFromCanonical (reconstructCanonical ((packedResidues value p).getD · 0) p)
        (modulusProduct p) = value) ∧
    (∀ (value : ℤ) (p : ℕ), p ≤ kDefaultModuli.length → 0 ≤ value → value < modulusProduct p →
      reconstructCanonical ((packedResidues value p).getD · 0) p = value) ∧
    (∀ (value : Int64) (p : ℕ) (bound : UInt64) (out : Int64),
      validateBoundContract .boundedI64 .globalMaxAbs bound.toNat p = .success →
      |value.toInt| ≤ bound.toNat →
      reconstructSignedInto (packedResidues value.toInt p) p bound out = (.success, value)) ∧
    (∀ (value : UInt64) (p : ℕ) (bound out : UInt64),
      validateBoundContract .boundedU64 .globalMaxUnsigned bound.toNat p = .success →
      value ≤ bound →
      reconstructUnsignedInto (packedResidues value.toNat p) p bound out = (.success, value)) := by
  refine ⟨fun a modulus hm => ⟨fun extra => ?_, modInverse_modEq hm⟩, fun i hi => ?_, fun residues p hp => ⟨⟨fun h => ?_, fun h => ?_⟩,
    fun x hx h => ?_⟩, fun residues p bound out hsize hcontract => ?_,
    fun residues p bound out hsize hcontract => ?_, fun value p hp hv =>
      centeredFromCanonical_packed hp hv, fun value p hp h0 hlt => ?_,
    fun value p bound out hcontract hv => reconstructSignedInto_packed out hcontract hv,
    fun value p bound out hcontract hv => reconstructUnsignedInto_packed out hcontract hv⟩
  -- the loop of the inverse, and its values on the ladder
  · exact modInverseLoop_fuel extra (Int.natCast_nonneg _) (Int.natCast_nonneg _)
      (by exact_mod_cast Nat.mod_lt a hm)
  · have hrange : ∀ i < 28, 0 ≤ modInverse (modulusProduct i % modulusAt i) (modulusAt i) ∧
        modInverse (modulusProduct i % modulusAt i) (modulusAt i) < modulusAt i := by decide +kernel
    exact ⟨modulusProduct_coprime hi, (hrange i hi).1, (hrange i hi).2, modulusProduct_modEq_one hi⟩
  -- only the byte `-128` at the last modulus is no centered residue
  · rintro rfl hbyte
    exact not_represents_of_wraps hbyte h
  · exact reconstructCanonical_represents hp ((noneWraps_iff residues hp).2 h)
  · exact (reconstructCanonical_represents hp ((noneWraps_iff residues hp).2 h)).unique hp hx
  -- an accepted bound needs less than the product of 27 moduli, where no byte wraps
  · obtain ⟨-, hp⟩ := contract_prefix hcontract
    have hp27 : p ≤ 27 := hp.trans (by decide)
    have hrep := reconstructCanonical_represents (by omega)
      (noneWraps_of_le (residues.getD · 0) hp27)
    obtain ⟨hlo, hhi, hmod⟩ := centeredFromCanonical_spec hrep.nonneg hrep.lt_product
    refine ⟨_, hlo, hhi, fun i hi => ?_, reconstructSignedInto_eq out hcontract hsize rfl⟩
    exact (hmod.of_dvd (modulusAt_dvd_modulusProduct hi)).trans (hrep.residue i hi)
  · obtain ⟨-, hp⟩ := contract_prefix hcontract
    have hp27 : p ≤ 27 := hp.trans (by decide)
    exact ⟨_, reconstructCanonical_represents (by omega)
      (noneWraps_of_le (residues.getD · 0) hp27), reconstructUnsignedInto_eq out hcontract hsize rfl⟩
  -- a packed value in the canonical range is its own remainder
  · rw [reconstructCanonical_packed value hp]
    exact Int.emod_eq_of_lt h0 hlt

/-- `-5` packed under the bound `100` and given back. -/
theorem garner_inverts_minus_five :
    reconstructSignedInto (packedResidues (-5) 1) 1 100 0 = (.success, -5) :=
  garner_inverts_packing.2.2.2.2.2.2.2.1 (-5) 1 100 0 (by decide) (by decide)

end Rns8
