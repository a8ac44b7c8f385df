import Rns8.Core.Residue
import Rns8.Plan.Validate
import Rns8.Lib.ModulusLadder

/-!
# Reconstruction

`crt.cpp`: the mixed-radix reconstruction of an integer from its residues and the four export
functions on top of it. `reconstructCanonical_eq` says that the residues of an integer give back the
integer modulo the product of the prefix; the range checks of the exports then decide exactly.
-/

namespace Rns8

open CenteredResidue

/-- The `while (next_r != 0)` loop of `mod_inverse`; `next_r` decreases, so `modulus` passes are
enough. -/
def modInverseLoop : ℕ → ℤ → ℤ → ℤ → ℤ → ℤ × ℤ
  | 0, t, _, r, _ => (t, r)
  | fuel + 1, t, nextT, r, nextR =>
    if nextR = 0 then (t, r)
    else
      let quotient := r.tdiv nextR
      modInverseLoop fuel nextT (t - quotient * nextT) nextR (r - quotient * nextR)

/-- `mod_inverse`. -/
def modInverse (a modulus : ℕ) : ℤ :=
  let (t, r) := modInverseLoop modulus 0 1 modulus (a % modulus : ℕ)
  if r ≠ 1 then 0 else if t < 0 then t + modulus else t

/-- One pass of the loop of `reconstruct_canonical` over `x` and `product`. -/
def reconstructStep (residues : ℕ → Int8) (s : ℤ × ℕ) (i : ℕ) : ℤ × ℕ :=
  let modulus := modulusAt i
  let target := canonicalFromCentered (residues i) modulus
  let xMod := canonicalResidue s.1 modulus
  let productMod := s.2 % modulus
  let inverse := modInverse productMod modulus
  let delta := target - xMod
  let deltaMod := canonicalResidue delta modulus
  let coefficient := (deltaMod * inverse).tmod modulus
  (s.1 + s.2 * coefficient, s.2 * modulus)

/-- `reconstruct_canonical`. -/
def reconstructCanonical (residues : ℕ → Int8) (rnsPrefix : ℕ) : ℤ :=
  ((List.range rnsPrefix).foldl (reconstructStep residues) (0, 1)).1

/-- `centered_from_canonical`. -/
def centeredFromCanonical (value : ℤ) (product : ℕ) : ℤ :=
  let threshold : ℤ := (product + 1) / 2
  if threshold ≤ value then value - product else value

/-- `fits_uint64`. -/
def fitsUint64 (value : ℤ) : Bool := decide (0 ≤ value) && decide (value ≤ 2 ^ 64 - 1)

/-- `fits_int64`. -/
def fitsInt64 (value : ℤ) : Bool := decide (-2 ^ 63 ≤ value) && decide (value ≤ 2 ^ 63 - 1)

/-- `reconstruct_unsigned`. The residues come from `gather_cell_residues` with the same prefix, so
that their number needs no check. -/
def reconstructUnsigned (residues : ℕ → Int8) (rnsPrefix bound : ℕ) : Except Status UInt64 :=
  if rnsPrefix = 0 ∨ maxSupportedPrefix < rnsPrefix then .error .invalidArgument
  else
    let rangeStatus := validateBoundContract .boundedU64 .globalMaxUnsigned bound rnsPrefix
    if rangeStatus ≠ .success then .error rangeStatus
    else
      let value := reconstructCanonical residues rnsPrefix
      if !fitsUint64 value || decide ((bound : ℤ) < value) then .error .rangeError
      else .ok (UInt64.ofNat value.toNat)

/-- `reconstruct_signed`. -/
def reconstructSigned (residues : ℕ → Int8) (rnsPrefix bound : ℕ) : Except Status Int64 :=
  if rnsPrefix = 0 ∨ maxSupportedPrefix < rnsPrefix then .error .invalidArgument
  else
    let rangeStatus := validateBoundContract .boundedI64 .globalMaxAbs bound rnsPrefix
    if rangeStatus ≠ .success then .error rangeStatus
    else
      let product := modulusProduct rnsPrefix
      let value := centeredFromCanonical (reconstructCanonical residues rnsPrefix) product
      if !fitsInt64 value || decide ((bound : ℤ) < |value|) then .error .rangeError
      else .ok (Int64.ofInt value)

/-- `reconstruct_unsigned` on a vector of residues and the output parameter, which only the last
statement assigns. -/
def reconstructUnsignedInto (residues : Array Int8) (rnsPrefix : ℕ) (bound out : UInt64) :
    Status × UInt64 :=
  if rnsPrefix = 0 ∨ maxSupportedPrefix < rnsPrefix ∨ residues.size < rnsPrefix then
    (.invalidArgument, out)
  else
    let rangeStatus := validateBoundContract .boundedU64 .globalMaxUnsigned bound.toNat rnsPrefix
    if rangeStatus ≠ .success then (rangeStatus, out)
    else
      let value := reconstructCanonical (residues.getD · 0) rnsPrefix
      if !fitsUint64 value || decide ((bound.toNat : ℤ) < value) then (.rangeError, out)
      else (.success, UInt64.ofNat value.toNat)

/-- `reconstruct_signed` on a vector of residues and the output parameter. -/
def reconstructSignedInto (residues : Array Int8) (rnsPrefix : ℕ) (bound : UInt64) (out : Int64) :
    Status × Int64 :=
  if rnsPrefix = 0 ∨ maxSupportedPrefix < rnsPrefix ∨ residues.size < rnsPrefix then
    (.invalidArgument, out)
  else
    let rangeStatus := validateBoundContract .boundedI64 .globalMaxAbs bound.toNat rnsPrefix
    if rangeStatus ≠ .success then (rangeStatus, out)
    else
      let product := modulusProduct rnsPrefix
      let value := centeredFromCanonical (reconstructCanonical (residues.getD · 0) rnsPrefix) product
      if !fitsInt64 value || decide ((bound.toNat : ℤ) < |value|) then (.rangeError, out)
      else (.success, Int64.ofInt value)

/-- Limb `i` of `value`, after `i` passes of `value >>= 64`. -/
def wideLimb (value : ℤ) (i : ℕ) : UInt64 := UInt64.ofNat (value.toNat / 2 ^ (64 * i) % 2 ^ 64)

/-- `export_exact_wide_unsigned_limbs`. -/
def exportExactWideUnsignedLimbs (residues : ℕ → Int8) (rnsPrefix limbCount : ℕ) :
    Except Status (ℕ → UInt64) :=
  if rnsPrefix = 0 ∨ maxSupportedPrefix < rnsPrefix ∨ limbCount = 0 ∨ 32 < limbCount then
    .error .invalidArgument
  else
    let value := reconstructCanonical residues rnsPrefix
    if value < 0 ∨ 2 ^ (64 * limbCount) ≤ value then .error .rangeError
    else .ok (wideLimb value)

/-- `export_exact_wide_signed_limbs`. -/
def exportExactWideSignedLimbs (residues : ℕ → Int8) (rnsPrefix limbCount : ℕ) :
    Except Status (ℕ → UInt64) :=
  if rnsPrefix = 0 ∨ maxSupportedPrefix < rnsPrefix ∨ limbCount = 0 ∨ 32 < limbCount then
    .error .invalidArgument
  else
    let product := modulusProduct rnsPrefix
    let value := centeredFromCanonical (reconstructCanonical residues rnsPrefix) product
    let bits := 64 * limbCount
    if value < -2 ^ (bits - 1) ∨ 2 ^ (bits - 1) - 1 < value then .error .rangeError
    else .ok (wideLimb (if value < 0 then value + 2 ^ bits else value))

/-! ### The loop -/

/-- The inverses of the ladder: at each modulus, the product of the moduli before it has an inverse,
and `mod_inverse` finds it. -/
theorem modInverse_modulusProduct : ∀ i < 28,
    modulusProduct i % modulusAt i * modInverse (modulusProduct i % modulusAt i) (modulusAt i) %
      modulusAt i = 1 := by
  decide +kernel

theorem modulusProduct_modEq_one {i : ℕ} (hi : i < 28) :
    (modulusProduct i : ℤ) * modInverse (modulusProduct i % modulusAt i) (modulusAt i) ≡
      1 [ZMOD modulusAt i] := by
  have h := modInverse_modulusProduct i hi
  have hm := (modulusAt_bounds hi).1
  have hone : (1 : ℤ) % modulusAt i = 1 := Int.emod_eq_of_lt (by omega) (by exact_mod_cast hm)
  have hmod : (modulusProduct i : ℤ) ≡ (modulusProduct i % modulusAt i : ℕ) [ZMOD modulusAt i] := by
    push_cast
    exact (Int.mod_modEq _ _).symm
  refine (hmod.mul_right _).trans ?_
  rw [Int.ModEq, hone]
  exact h

/-- The moduli of a prefix divide its product. -/
theorem modulusAt_dvd_modulusProduct {i p : ℕ} (hi : i < p) :
    (modulusAt i : ℤ) ∣ modulusProduct p := by
  rw [modulusProduct_eq_prod]
  exact_mod_cast Finset.dvd_prod_of_mem _ (Finset.mem_range.2 hi)

/-- **The reconstruction loop.** After `p` passes the value has the targets of the first `p` residues
and lies below the product of their moduli. -/
theorem reconstruct_foldl (residues : ℕ → Int8) {p : ℕ} (hp : p ≤ 28) :
    let s := (List.range p).foldl (reconstructStep residues) (0, 1)
    s.2 = modulusProduct p ∧ 0 ≤ s.1 ∧ s.1 < modulusProduct p ∧
      ∀ i < p, s.1 ≡ canonicalFromCentered (residues i) (modulusAt i) [ZMOD modulusAt i] := by
  induction p with
  | zero => simp
  | succ p ih =>
    obtain ⟨hprod, hlo, hhi, hres⟩ := ih (by omega)
    have hm : 0 < modulusAt p := modulusAt_pos (by omega)
    have hmZ : (0 : ℤ) < modulusAt p := by exact_mod_cast hm
    rw [List.range_succ, List.foldl_append]
    set s := (List.range p).foldl (reconstructStep residues) (0, 1)
    simp only [List.foldl_cons, List.foldl_nil, reconstructStep, hprod, canonicalResidue_eq _ hm]
    set inverse := modInverse (modulusProduct p % modulusAt p) (modulusAt p) with hinv
    set target := canonicalFromCentered (residues p) (modulusAt p) with htarget
    set delta := (target - s.1 % modulusAt p) % modulusAt p with hdelta
    have hpos : 0 ≤ inverse := by
      rw [hinv]
      have key : ∀ i < 28, 0 ≤ modInverse (modulusProduct i % modulusAt i) (modulusAt i) := by
        decide +kernel
      exact key p (by omega)
    -- the source's remainder truncates, which on a value that is not negative is the same
    have hcoef : (delta * inverse).tmod (modulusAt p) = delta * inverse % modulusAt p :=
      Int.tmod_eq_emod_of_nonneg (Int.mul_nonneg (Int.emod_nonneg _ hmZ.ne') hpos)
    rw [hcoef]
    have hc0 := Int.emod_nonneg (delta * inverse) hmZ.ne'
    have hc1 := Int.emod_lt_of_pos (delta * inverse) hmZ
    obtain ⟨h1, h2⟩ := ModulusLadder.garner_lt hlo hhi hc0 hc1
    refine ⟨(modulusProduct_succ p).symm, h1, by rw [modulusProduct_succ]; exact_mod_cast h2,
      fun i hi => ?_⟩
    rcases Nat.lt_or_ge i p with hip | hip
    · -- the earlier moduli divide the product the digit is multiplied with
      refine Int.ModEq.trans ?_ (hres i hip)
      have hdvd := modulusAt_dvd_modulusProduct hip
      have hzero : (modulusProduct p : ℤ) * (delta * inverse % modulusAt p) ≡
          0 [ZMOD modulusAt i] :=
        (Int.modEq_zero_iff_dvd.2 (hdvd.mul_right _))
      simpa using hzero.add_left s.1
    · obtain rfl : i = p := by omega
      -- at the new modulus the digit makes up the difference to the target
      have hd : delta ≡ target - s.1 [ZMOD modulusAt i] :=
        (Int.mod_modEq _ _).trans ((Int.mod_modEq _ _).sub_left _)
      have hc : delta * inverse % modulusAt i ≡ (target - s.1) * inverse [ZMOD modulusAt i] :=
        (Int.mod_modEq _ _).trans (hd.mul_right _)
      exact ModulusLadder.modEq_of_garner (modulusProduct_modEq_one (by omega)) hc

/-- Integers with the same residues agree modulo the product of the ladder. -/
theorem modEq_modulusProduct {p : ℕ} (hp : p ≤ 28) {a b : ℤ}
    (h : ∀ i < p, a ≡ b [ZMOD modulusAt i]) : a ≡ b [ZMOD modulusProduct p] := by
  rw [modulusProduct_eq_prod]
  exact ModulusLadder.modEq_prod
    (fun i hi j hj hij => modulusAt_coprime (by omega) (by omega) hij) h

/-- The bytes that `canonical_from_centered` turns into residues without wrapping. -/
def NoneWraps (residues : ℕ → Int8) (p : ℕ) : Prop :=
  ∀ i < p, -(modulusAt i : ℤ) ≤ (residues i).toInt

instance (residues : ℕ → Int8) (p : ℕ) : Decidable (NoneWraps residues p) :=
  inferInstanceAs (Decidable (∀ i < p, _))

/-- The first 27 moduli are at least 131. -/
theorem noneWraps_of_le (residues : ℕ → Int8) {p : ℕ} (hp : p ≤ 27) : NoneWraps residues p := by
  intro i hi
  have hmodulus : ∀ i < 27, 128 ≤ modulusAt i := by decide
  have hlo := (residues i).le_toInt
  have := hmodulus i (by omega)
  omega

/-- The reconstructed value has every byte that does not wrap as its residue. -/
theorem reconstructCanonical_modEq {residues : ℕ → Int8} {p : ℕ} (hp : p ≤ 28)
    (hbytes : NoneWraps residues p) :
    ∀ i < p, reconstructCanonical residues p ≡ (residues i).toInt [ZMOD modulusAt i] := by
  obtain ⟨-, -, -, hres⟩ := reconstruct_foldl residues hp
  intro i hi
  exact (hres i hi).trans
    (canonicalFromCentered_modEq (hbytes i hi) (modulusAt_bounds (by omega)).2)

/-- **Reconstruction.** The residues of an integer give it back modulo the product. -/
theorem reconstructCanonical_of_noneWraps {residues : ℕ → Int8} {p : ℕ} (hp : p ≤ 28)
    (hbytes : NoneWraps residues p) {v : ℤ}
    (h : ∀ i < p, (residues i).toInt ≡ v [ZMOD modulusAt i]) :
    reconstructCanonical residues p = v % modulusProduct p := by
  obtain ⟨-, hlo, hhi, -⟩ := reconstruct_foldl residues hp
  have hmod : reconstructCanonical residues p ≡ v [ZMOD modulusProduct p] :=
    modEq_modulusProduct hp fun i hi =>
      (reconstructCanonical_modEq hp hbytes i hi).trans (h i hi)
  rw [← hmod]
  exact (Int.emod_eq_of_lt hlo hhi).symm

theorem reconstructCanonical_eq {residues : ℕ → Int8} {p : ℕ} (hp : p ≤ 27) {v : ℤ}
    (h : ∀ i < p, (residues i).toInt ≡ v [ZMOD modulusAt i]) :
    reconstructCanonical residues p = v % modulusProduct p :=
  reconstructCanonical_of_noneWraps (by omega) (noneWraps_of_le residues hp) h

/-- The centered value of the residues of an integer below half the product is the integer. -/
theorem centeredFromCanonical_reconstruct {residues : ℕ → Int8} {p : ℕ} (hp : p ≤ 27) {v : ℤ}
    (h : ∀ i < p, (residues i).toInt ≡ v [ZMOD modulusAt i]) (hv : 2 * |v| < modulusProduct p) :
    centeredFromCanonical (reconstructCanonical residues p) (modulusProduct p) = v := by
  rw [reconstructCanonical_eq hp h]
  exact ModulusLadder.centered_emod hv

/-! ### The checked exports -/

/-- A prefix that a bound contract accepts is not refused by the exports. -/
theorem contract_prefix {semantics : Semantics} {kind : BoundKind} {bound p : ℕ}
    (hcontract : validateBoundContract semantics kind bound p = .success) :
    p ≠ 0 ∧ p ≤ maxSupportedPrefix := by
  unfold validateBoundContract at hcontract
  split at hcontract
  · cases hcontract
  split at hcontract
  · cases hcontract
  · omega

theorem signed_rejected_iff (value bound : ℤ) :
    (!fitsInt64 value || decide (bound < |value|)) = true ↔
      ¬ (|value| ≤ bound ∧ -2 ^ 63 ≤ value ∧ value < 2 ^ 63) := by
  simp only [fitsInt64, Bool.or_eq_true, Bool.not_eq_true', Bool.and_eq_false_iff,
    decide_eq_false_iff_not, decide_eq_true_eq]
  omega

theorem unsigned_rejected_iff (value bound : ℤ) :
    (!fitsUint64 value || decide (bound < value)) = true ↔
      ¬ (value ≤ bound ∧ 0 ≤ value ∧ value < 2 ^ 64) := by
  simp only [fitsUint64, Bool.or_eq_true, Bool.not_eq_true', Bool.and_eq_false_iff,
    decide_eq_false_iff_not, decide_eq_true_eq]
  omega

section Exports

variable {residues : ℕ → Int8} {p bound : ℕ} {v : ℤ}

/-- **Signed export** under an accepted bound. -/
theorem reconstructSigned_of_contract
    (hcontract : validateBoundContract .boundedI64 .globalMaxAbs bound p = .success)
    (hv : centeredFromCanonical (reconstructCanonical residues p) (modulusProduct p) = v) :
    reconstructSigned residues p bound =
      if |v| ≤ bound ∧ -2 ^ 63 ≤ v ∧ v < 2 ^ 63 then .ok (Int64.ofInt v)
      else .error .rangeError := by
  obtain ⟨hp0, hp⟩ := contract_prefix hcontract
  unfold reconstructSigned
  rw [if_neg (by omega)]
  simp only [hcontract, ne_eq, not_true_eq_false, if_false, hv, signed_rejected_iff, ite_not]

/-- **Unsigned export** under an accepted bound. -/
theorem reconstructUnsigned_of_contract
    (hcontract : validateBoundContract .boundedU64 .globalMaxUnsigned bound p = .success)
    (hv : reconstructCanonical residues p = v) :
    reconstructUnsigned residues p bound =
      if v ≤ bound ∧ 0 ≤ v ∧ v < 2 ^ 64 then .ok (UInt64.ofNat v.toNat)
      else .error .rangeError := by
  obtain ⟨hp0, hp⟩ := contract_prefix hcontract
  unfold reconstructUnsigned
  rw [if_neg (by omega)]
  simp only [hcontract, ne_eq, not_true_eq_false, if_false, hv, unsigned_rejected_iff, ite_not]

/-- A signed value within a bound that the prefix carries is exported exactly, unless it is `2 ^ 63`,
the one value within a bound that the destination cannot hold. -/
theorem reconstructSigned_eq (hp0 : 0 < p) (hp : p ≤ maxSupportedPrefix) (hb : bound ≤ 2 ^ 63)
    (hfit : 2 * bound < modulusProduct p) (h : ∀ i < p, (residues i).toInt ≡ v [ZMOD modulusAt i])
    (hv : |v| ≤ bound) :
    reconstructSigned residues p bound =
      if v < 2 ^ 63 then .ok (Int64.ofInt v) else .error .rangeError := by
  have hval : centeredFromCanonical (reconstructCanonical residues p) (modulusProduct p) = v := by
    refine centeredFromCanonical_reconstruct (by simp only [maxSupportedPrefix] at hp; omega) h ?_
    have : (2 * bound : ℤ) < modulusProduct p := by exact_mod_cast hfit
    omega
  have hcontract : validateBoundContract .boundedI64 .globalMaxAbs bound p = .success := by
    have hb' : ¬ 2 ^ 63 < bound := not_lt.2 hb
    simp only [validateBoundContract, knownSemantics, hp0.ne', not_lt.2 hp, hb', hfit, or_self,
      if_false, if_true]
    rfl
  have hb' : (bound : ℤ) ≤ 2 ^ 63 := by exact_mod_cast hb
  have hlo : -2 ^ 63 ≤ v := by
    have := abs_le.1 hv
    omega
  rw [reconstructSigned_of_contract hcontract hval]
  exact if_congr ⟨fun hfits => hfits.2.2, fun hlt => ⟨hv, hlo, hlt⟩⟩ rfl rfl

/-- An unsigned value within a bound that the prefix carries, and in the range of the destination, is
exported exactly. -/
theorem reconstructUnsigned_of_fits (hp0 : 0 < p) (hp : p ≤ maxSupportedPrefix)
    (hfit : bound < modulusProduct p) (h : ∀ i < p, (residues i).toInt ≡ v [ZMOD modulusAt i])
    (hv0 : 0 ≤ v) (hv : v ≤ bound) (hlt : v < 2 ^ 64) :
    reconstructUnsigned residues p bound = .ok (UInt64.ofNat v.toNat) := by
  have hval : reconstructCanonical residues p = v := by
    rw [reconstructCanonical_eq (hp.trans (by decide)) h]
    exact Int.emod_eq_of_lt hv0 (by omega)
  have hcontract : validateBoundContract .boundedU64 .globalMaxUnsigned bound p = .success := by
    simp [validateBoundContract, knownSemantics, hp0.ne', not_lt.2 hp, hfit]
  rw [reconstructUnsigned_of_contract hcontract hval]
  exact if_pos ⟨hv, hv0, hlt⟩

end Exports

/-! ### The output parameter -/

/-- What a call does to its output parameter: a value is stored, a failure leaves it. -/
def storeResult {α : Type} (out : α) : Except Status α → Status × α
  | .ok value => (.success, value)
  | .error status => (status, out)

theorem storeResult_of_ne_success {α : Type} {out : α} {result : Except Status α}
    (h : (storeResult out result).1 ≠ .success) : (storeResult out result).2 = out := by
  cases result with
  | ok value => exact absurd rfl h
  | error status => rfl

/-- On a vector with a residue for every modulus, the call stores what `reconstructSigned` returns. -/
theorem reconstructSignedInto_eq_store {residues : Array Int8} {p : ℕ} (hsize : p ≤ residues.size)
    (bound : UInt64) (out : Int64) :
    reconstructSignedInto residues p bound out =
      storeResult out (reconstructSigned (residues.getD · 0) p bound.toNat) := by
  unfold reconstructSignedInto reconstructSigned
  by_cases hp : p = 0 ∨ maxSupportedPrefix < p
  · rw [if_pos (by omega), if_pos hp]
    rfl
  · rw [if_neg (by omega), if_neg hp]
    dsimp only
    split_ifs <;> rfl

/-- On a vector with a residue for every modulus, the call stores what `reconstructUnsigned`
returns. -/
theorem reconstructUnsignedInto_eq_store {residues : Array Int8} {p : ℕ}
    (hsize : p ≤ residues.size) (bound out : UInt64) :
    reconstructUnsignedInto residues p bound out =
      storeResult out (reconstructUnsigned (residues.getD · 0) p bound.toNat) := by
  unfold reconstructUnsignedInto reconstructUnsigned
  by_cases hp : p = 0 ∨ maxSupportedPrefix < p
  · rw [if_pos (by omega), if_pos hp]
    rfl
  · rw [if_neg (by omega), if_neg hp]
    dsimp only
    split_ifs <;> rfl

end Rns8
