import Rns8.Hip.U192
import Rns8.Reconstruct.Crt

/-!
# Reconstruction on the device

The three mixed-radix reconstructions of `hip_direct_device_common.cuh` on 192-bit numbers: over the
moduli one by one, with the prefix as an argument or as a template parameter, and over pairs of
moduli. All of them repeat one pass, `garnerPass`; `garnerPasses_spec` carries it through a ladder of
moduli whose product stays below `2 ^ 192`, and the uniqueness of a value below the product gives the
host's `reconstruct_canonical`.
-/

namespace Rns8

/-! ### The routines -/

/-- `rns8_default_moduli_device`. -/
def defaultModuliDevice : List ℕ :=
  [256, 255, 253, 251, 247, 239, 233, 229, 227, 223, 217, 211, 199, 197, 193, 191, 181, 179, 173,
    167, 163, 157, 151, 149, 139, 137, 131, 127]

/-- The modulus of the table, as the `uint32_t` that the routines compute with. -/
def modulusDevice (i : ℕ) : UInt32 := UInt32.ofNat (defaultModuliDevice.getD i 0)

/-- `rns8_canonical_from_centered_device`. -/
def canonicalFromCenteredDevice (residue : Int8) (modulus : UInt32) : UInt32 :=
  UInt32.ofInt (canonicalFromCentered residue modulus.toNat)

/-- `rns8_mod_inverse_device`: the 64-bit loop of the host's `mod_inverse`. -/
def modInverseDevice (a modulus : UInt32) : UInt32 :=
  UInt32.ofInt (modInverse a.toNat modulus.toNat)

/-- The mixed-radix digit that takes `start` to `target` when it is multiplied with a number whose
inverse is `inverse`. -/
def mixedRadixDigit (modulus target start inverse : UInt32) : UInt32 :=
  let deltaMod := canonicalResidue (target.toNat - start.toNat) modulus.toNat
  UInt32.ofNat (deltaMod.toNat * inverse.toNat % modulus.toNat)

/-- `coefficient` of a pass over `x` and `product`. -/
def garnerCoefficient (modulus target : UInt32) (s : U192 × U192) : UInt32 :=
  mixedRadixDigit modulus target (u192ModU32 s.1 modulus)
    (modInverseDevice (u192ModU32 s.2 modulus) modulus)

/-- One pass of the reconstruction loops over `x` and `product`. -/
def garnerPass (modulus target : UInt32) (s : U192 × U192) : U192 × U192 :=
  (u192Add s.1 (u192MulU32 s.2 (garnerCoefficient modulus target s)), u192MulU32 s.2 modulus)

/-- The first `n` passes of a reconstruction loop. -/
def garnerPasses (modulus target : ℕ → UInt32) (n : ℕ) : U192 × U192 :=
  (List.range n).foldl (fun s i => garnerPass (modulus i) (target i) s)
    (u192FromU64 0, u192FromU64 1)

/-- `residues[i * elements + cell]`, as a canonical residue. -/
def residueTarget (residues : ℕ → Int8) (cell elements i : ℕ) : UInt32 :=
  canonicalFromCenteredDevice (residues (i * elements + cell)) (modulusDevice i)

/-- `rns8_reconstruct_canonical_wide_device`. -/
def reconstructCanonicalWide (residues : ℕ → Int8) (cell elements rnsPrefix : ℕ) : U192 × U192 :=
  garnerPasses modulusDevice (residueTarget residues cell elements) rnsPrefix

/-- `rns8_reconstruct_canonical_wide_fixed_prefix_device<Prefix>`: the same loop, unrolled. -/
def reconstructCanonicalWideFixedPrefix (rnsPrefix : ℕ) (residues : ℕ → Int8)
    (cell elements : ℕ) : U192 × U192 :=
  garnerPasses modulusDevice (residueTarget residues cell elements) rnsPrefix

/-- `pair_moduli[pair]`. -/
def pairModulus (pair : ℕ) : UInt32 := modulusDevice (pair * 2) * modulusDevice (pair * 2 + 1)

/-- `pair_values[pair]`. -/
def pairValue (residues : ℕ → Int8) (cell elements pair : ℕ) : UInt32 :=
  let lhsModulus := modulusDevice (pair * 2)
  let rhsModulus := modulusDevice (pair * 2 + 1)
  let lhsTarget := residueTarget residues cell elements (pair * 2)
  let rhsTarget := residueTarget residues cell elements (pair * 2 + 1)
  lhsTarget + lhsModulus * mixedRadixDigit rhsModulus rhsTarget (lhsTarget % rhsModulus)
    (modInverseDevice (lhsModulus % rhsModulus) rhsModulus)

/-- `rns8_reconstruct_canonical_wide_tree_pairs_fixed_prefix_device<Prefix>`, which exists for the
prefixes `18` and `20`. -/
def reconstructCanonicalWideTreePairs (rnsPrefix : ℕ) (residues : ℕ → Int8)
    (cell elements : ℕ) : U192 × U192 :=
  garnerPasses pairModulus (pairValue residues cell elements) (rnsPrefix / 2)

/-- No intermediate of the pass exceeds 192 bits. -/
def PassFits (modulus target : UInt32) (s : U192 × U192) : Prop :=
  s.2.toNat * (garnerCoefficient modulus target s).toNat < 2 ^ 192 ∧
    s.1.toNat + s.2.toNat * (garnerCoefficient modulus target s).toNat < 2 ^ 192 ∧
    s.2.toNat * modulus.toNat < 2 ^ 192

/-! ### One pass -/

theorem defaultModuliDevice_eq : defaultModuliDevice = kDefaultModuli := rfl

theorem modulusDevice_toNat {i : ℕ} (hi : i < 28) : (modulusDevice i).toNat = modulusAt i := by
  have hb := (modulusAt_bounds hi).2
  rw [modulusDevice, defaultModuliDevice_eq, UInt32.toNat_ofNat']
  exact Nat.mod_eq_of_lt (by rw [modulusAt] at hb; omega)

theorem toNat_u32_ofInt {x : ℤ} (h0 : 0 ≤ x) (h : x < 2 ^ 32) : (UInt32.ofInt x).toNat = x := by
  obtain ⟨n, rfl⟩ := Int.eq_ofNat_of_zero_le h0
  have hn : n < 2 ^ 32 := by exact_mod_cast h
  rw [UInt32.ofInt, UInt32.toNat_ofNat']
  omega

/-- The device's inverse is the host's, which never leaves the range of the modulus here. -/
theorem modInverseDevice_toNat (a modulus : UInt32)
    (h0 : 0 ≤ modInverse a.toNat modulus.toNat)
    (h : modInverse a.toNat modulus.toNat < 2 ^ 32) :
    ((modInverseDevice a modulus).toNat : ℤ) = modInverse a.toNat modulus.toNat :=
  toNat_u32_ofInt h0 h

/-- The digit is below the modulus and congruent to the difference times the inverse. -/
theorem mixedRadixDigit_spec {modulus : UInt32} (target start inverse : UInt32) (hm : 0 < modulus.toNat) :
    (mixedRadixDigit modulus target start inverse).toNat < modulus.toNat ∧
      ((mixedRadixDigit modulus target start inverse).toNat : ℤ) ≡
        (target.toNat - start.toNat) * inverse.toNat [ZMOD modulus.toNat] := by
  have hmZ : (0 : ℤ) < modulus.toNat := by exact_mod_cast hm
  have hlt := modulus.toNat_lt
  have hdelta := Int.emod_nonneg ((target.toNat : ℤ) - start.toNat) hmZ.ne'
  have hval : (mixedRadixDigit modulus target start inverse).toNat =
      (((target.toNat : ℤ) - start.toNat) % modulus.toNat).toNat * inverse.toNat %
        modulus.toNat := by
    rw [mixedRadixDigit, canonicalResidue_eq _ hm, UInt32.toNat_ofNat']
    exact Nat.mod_eq_of_lt ((Nat.mod_lt _ hm).trans hlt)
  refine ⟨by rw [hval]; exact Nat.mod_lt _ hm, ?_⟩
  rw [hval]
  push_cast
  rw [Int.toNat_of_nonneg hdelta]
  exact (Int.mod_modEq _ _).trans ((Int.mod_modEq _ _).mul_right _)

/-- **One pass.** The value keeps its residue modulo the product so far, takes the residue wanted
modulo the new modulus and stays below the new product; nothing wraps. -/
theorem garnerPass_spec {modulus : UInt32} (target : UInt32) (s : U192 × U192) (hm : 0 < modulus.toNat)
    (hx : s.1.toNat < s.2.toNat) (hfit : s.2.toNat * modulus.toNat < 2 ^ 192)
    (hinv0 : 0 ≤ modInverse (s.2.toNat % modulus.toNat) modulus.toNat)
    (hinv1 : modInverse (s.2.toNat % modulus.toNat) modulus.toNat < 2 ^ 32)
    (hinv : (s.2.toNat : ℤ) * modInverse (s.2.toNat % modulus.toNat) modulus.toNat ≡
      1 [ZMOD modulus.toNat]) :
    PassFits modulus target s ∧
      (garnerPass modulus target s).2.toNat = s.2.toNat * modulus.toNat ∧
      (garnerPass modulus target s).1.toNat < s.2.toNat * modulus.toNat ∧
      ((garnerPass modulus target s).1.toNat : ℤ) ≡ s.1.toNat [ZMOD s.2.toNat] ∧
      ((garnerPass modulus target s).1.toNat : ℤ) ≡ target.toNat [ZMOD modulus.toNat] := by
  obtain ⟨x, product⟩ := s
  simp only at *
  set c := garnerCoefficient modulus target (x, product) with hc
  rw [← U192.toNat_modU32 product hm] at hinv0 hinv1 hinv
  obtain ⟨hclt, hcmod⟩ := mixedRadixDigit_spec target (u192ModU32 x modulus)
    (modInverseDevice (u192ModU32 product modulus) modulus) hm
  rw [modInverseDevice_toNat _ _ hinv0 hinv1, U192.toNat_modU32 x hm] at hcmod
  change c.toNat < modulus.toNat at hclt
  -- the digit is below the modulus, so the sum stays below the next product
  have hstep : product.toNat * c.toNat + product.toNat ≤ product.toNat * modulus.toNat := by
    rw [← Nat.mul_succ]
    exact Nat.mul_le_mul_left _ hclt
  have hfits : PassFits modulus target (x, product) := 
    ⟨by simp only [← hc]; omega, by simp only [← hc]; omega, hfit⟩
  have hmul : (u192MulU32 product c).toNat = product.toNat * c.toNat := by
    rw [U192.toNat_mulU32, Nat.mod_eq_of_lt hfits.1]
  have hval : (garnerPass modulus target (x, product)).1.toNat =
      x.toNat + product.toNat * c.toNat := by
    rw [garnerPass, U192.toNat_add, ← hc, hmul, Nat.mod_eq_of_lt hfits.2.1]
  have hprod : (garnerPass modulus target (x, product)).2.toNat =
      product.toNat * modulus.toNat := by
    rw [garnerPass, U192.toNat_mulU32, Nat.mod_eq_of_lt hfit]
  refine ⟨hfits, hprod, by rw [hval]; omega, ?_, ?_⟩
  · rw [hval]
    push_cast
    exact Int.modEq_iff_dvd.2 ⟨-c.toNat, by ring⟩
  · rw [hval]
    push_cast
    refine ModulusLadder.modEq_of_garner hinv (hcmod.trans ?_)
    push_cast
    exact ((Int.mod_modEq _ _).sub_left _).mul_right _

/-! ### The loop over a ladder -/

/-- What a ladder of moduli must satisfy for the passes to reconstruct: no modulus is zero, the
products stay below 192 bits, and the inverse of each product is found. -/
structure GarnerLadder (modulus : ℕ → UInt32) (product : ℕ → ℕ) (n : ℕ) : Prop where
  product_zero : product 0 = 1
  product_succ : ∀ i < n, product (i + 1) = product i * (modulus i).toNat
  product_lt : ∀ i < n, product (i + 1) < 2 ^ 192
  pos : ∀ i < n, 0 < (modulus i).toNat
  inverse_nonneg : ∀ i < n, 0 ≤ modInverse (product i % (modulus i).toNat) (modulus i).toNat
  inverse_lt : ∀ i < n, modInverse (product i % (modulus i).toNat) (modulus i).toNat < 2 ^ 32
  inverse : ∀ i < n, (product i : ℤ) *
    modInverse (product i % (modulus i).toNat) (modulus i).toNat ≡ 1 [ZMOD (modulus i).toNat]

theorem garnerPasses_succ (modulus target : ℕ → UInt32) (n : ℕ) :
    garnerPasses modulus target (n + 1) =
      garnerPass (modulus n) (target n) (garnerPasses modulus target n) := by
  rw [garnerPasses, List.range_succ, List.foldl_append]
  rfl

/-- **The loop.** After the passes of a ladder the value lies below the product and has every
residue wanted, and no pass exceeded 192 bits. -/
theorem garnerPasses_spec {modulus : ℕ → UInt32} (target : ℕ → UInt32) {product : ℕ → ℕ} {n : ℕ}
    (h : GarnerLadder modulus product n) {k : ℕ} (hk : k ≤ n) :
    (garnerPasses modulus target k).2.toNat = product k ∧
      (garnerPasses modulus target k).1.toNat < product k ∧
      (∀ i < k, ((garnerPasses modulus target k).1.toNat : ℤ) ≡
        (target i).toNat [ZMOD (modulus i).toNat]) ∧
      ∀ i < k, PassFits (modulus i) (target i) (garnerPasses modulus target i) := by
  induction k with
  | zero => simp [garnerPasses, h.product_zero]
  | succ k ih =>
    obtain ⟨hprod, hlt, hres, hfits⟩ := ih (by omega)
    have hkn : k < n := by omega
    have hnext := h.product_succ k hkn
    rw [garnerPasses_succ]
    -- one pass: the digit brings in the new modulus and leaves the residues before
    obtain ⟨hfit, h2, h1, hold, hnew⟩ := garnerPass_spec (target k)
      (garnerPasses modulus target k) (h.pos k hkn) (by rw [hprod]; exact hlt)
      (by rw [hprod, ← hnext]; exact h.product_lt k hkn)
      (by rw [hprod]; exact h.inverse_nonneg k hkn) (by rw [hprod]; exact h.inverse_lt k hkn)
      (by rw [hprod]; exact h.inverse k hkn)
    rw [hprod] at h1 h2 hold
    refine ⟨h2.trans hnext.symm, by rw [hnext]; exact h1, fun i hi => ?_, fun i hi => ?_⟩
    · rcases Nat.lt_or_ge i k with hik | hik
      · -- the modulus divides the product that the digit is multiplied with
        refine Int.ModEq.trans (hold.of_dvd ?_) (hres i hik)
        have hdvd : ∀ j, i < j → j ≤ k → (modulus i).toNat ∣ product j := by
          intro j hij hjk
          induction j, hij using Nat.le_induction with
          | base => rw [h.product_succ i (by omega)]; exact Nat.dvd_mul_left _ _
          | succ j _ ihj =>
            rw [h.product_succ j (by omega)]
            exact (ihj (by omega)).mul_right _
        exact_mod_cast hdvd k hik (le_refl k)
      · obtain rfl : i = k := by omega
        exact hnew
    · rcases Nat.lt_or_ge i k with hik | hik
      · exact hfits i hik
      · obtain rfl : i = k := by omega
        exact hfit

/-! ### The ladders of the three routines -/

theorem modulusProduct_lt_192 {p : ℕ} (hp : p ≤ maxSupportedPrefix) : modulusProduct p < 2 ^ 192 :=
  (modulusProduct_le hp (by decide)).trans_lt (by decide +kernel)

/-- The moduli one by one. -/
theorem modulusDevice_ladder {p : ℕ} (hp : p ≤ maxSupportedPrefix) :
    GarnerLadder modulusDevice modulusProduct p := by
  have hlt : ∀ i < p, i < 20 := fun i hi => lt_of_lt_of_le hi hp
  have hdev : ∀ i < p, (modulusDevice i).toNat = modulusAt i := fun i hi =>
    modulusDevice_toNat (by have := hlt i hi; omega)
  have hinv : ∀ i < 20, 0 ≤ modInverse (modulusProduct i % modulusAt i) (modulusAt i) ∧
      modInverse (modulusProduct i % modulusAt i) (modulusAt i) < 2 ^ 32 := by decide +kernel
  refine ⟨rfl, fun i hi => ?_, fun i hi => modulusProduct_lt_192 ?_, fun i hi => ?_, fun i hi => ?_,
    fun i hi => ?_, fun i hi => ?_⟩
  · rw [hdev i hi, modulusProduct_succ]
  · simp only [maxSupportedPrefix]; have := hlt i hi; omega
  · rw [hdev i hi]; exact modulusAt_pos (by have := hlt i hi; omega)
  · rw [hdev i hi]; exact (hinv i (hlt i hi)).1
  · rw [hdev i hi]; exact (hinv i (hlt i hi)).2
  · rw [hdev i hi]; exact modulusProduct_modEq_one (by have := hlt i hi; omega)

theorem pairModulus_toNat {i : ℕ} (hi : i < 10) :
    (pairModulus i).toNat = modulusAt (i * 2) * modulusAt (i * 2 + 1) := by
  have h1 := modulusAt_bounds (p := i * 2) (by omega)
  have h2 := modulusAt_bounds (p := i * 2 + 1) (by omega)
  rw [pairModulus, UInt32.toNat_mul, modulusDevice_toNat (by omega), modulusDevice_toNat (by omega)]
  refine Nat.mod_eq_of_lt ((Nat.mul_le_mul h1.2 h2.2).trans_lt (by norm_num))

/-- The inverses over pairs of moduli. -/
theorem modInverse_pairs : ∀ i < 10,
    0 ≤ modInverse (modulusProduct (2 * i) % (pairModulus i).toNat) (pairModulus i).toNat ∧
      modInverse (modulusProduct (2 * i) % (pairModulus i).toNat) (pairModulus i).toNat < 2 ^ 32 ∧
      (modulusProduct (2 * i) : ℤ) *
        modInverse (modulusProduct (2 * i) % (pairModulus i).toNat) (pairModulus i).toNat %
          (pairModulus i).toNat = 1 % (pairModulus i).toNat := by
  decide +kernel

/-- The moduli in pairs. -/
theorem pairModulus_ladder {n : ℕ} (hn : n ≤ 10) :
    GarnerLadder pairModulus (fun i => modulusProduct (2 * i)) n := by
  have hlt : ∀ i < n, i < 10 := fun i hi => lt_of_lt_of_le hi hn
  refine ⟨rfl, fun i hi => ?_, fun i hi => modulusProduct_lt_192 ?_, fun i hi => ?_, fun i hi => ?_,
    fun i hi => ?_, fun i hi => ?_⟩
  · rw [pairModulus_toNat (hlt i hi), Nat.mul_succ, modulusProduct_succ, modulusProduct_succ,
      Nat.mul_assoc, Nat.mul_comm 2 i]
  · simp only [maxSupportedPrefix]; have := hlt i hi; omega
  · have h := hlt i hi
    rw [pairModulus_toNat h]
    exact Nat.mul_pos (modulusAt_pos (by omega)) (modulusAt_pos (by omega))
  · exact (modInverse_pairs i (hlt i hi)).1
  · exact (modInverse_pairs i (hlt i hi)).2.1
  · exact (modInverse_pairs i (hlt i hi)).2.2

/-! ### Refinement of the host reconstruction -/

theorem modulusAt_supported_bounds {i : ℕ} (hi : i < maxSupportedPrefix) :
    128 ≤ modulusAt i ∧ modulusAt i ≤ 256 := by
  have key : ∀ i < 20, 128 ≤ modulusAt i ∧ modulusAt i ≤ 256 := by decide
  exact key i hi

/-- A residue byte becomes a canonical residue, whatever byte it is. -/
theorem residueTarget_spec (residues : ℕ → Int8) (cell elements : ℕ) {i : ℕ}
    (hi : i < maxSupportedPrefix) :
    (residueTarget residues cell elements i).toNat < 256 ∧
      ((residueTarget residues cell elements i).toNat : ℤ) ≡
        (residues (i * elements + cell)).toInt [ZMOD modulusAt i] := by
  have hi28 : i < 28 := lt_of_lt_of_le hi (by decide)
  obtain ⟨hlo, hhi⟩ := modulusAt_supported_bounds hi
  have h1 := (residues (i * elements + cell)).le_toInt
  have h2 := (residues (i * elements + cell)).toInt_lt
  have hrange : 0 ≤ canonicalFromCentered (residues (i * elements + cell)) (modulusAt i) ∧
      canonicalFromCentered (residues (i * elements + cell)) (modulusAt i) < 256 := by
    rw [canonicalFromCentered_of_le (by omega) (by omega)]
    split_ifs <;> omega
  have hval : ((residueTarget residues cell elements i).toNat : ℤ) =
      canonicalFromCentered (residues (i * elements + cell)) (modulusAt i) := by
    rw [residueTarget, canonicalFromCenteredDevice, modulusDevice_toNat hi28]
    exact toNat_u32_ofInt hrange.1 (by omega)
  refine ⟨by have := hrange.2; omega, ?_⟩
  rw [hval]
  exact canonicalFromCentered_modEq (by omega) (by omega)

/-- Two moduli of a pair: their inverse is found. -/
theorem modInverse_inside_pair : ∀ i < 10,
    0 ≤ modInverse (modulusAt (i * 2) % modulusAt (i * 2 + 1)) (modulusAt (i * 2 + 1)) ∧
      modInverse (modulusAt (i * 2) % modulusAt (i * 2 + 1)) (modulusAt (i * 2 + 1)) < 2 ^ 32 ∧
      (modulusAt (i * 2) : ℤ) *
        modInverse (modulusAt (i * 2) % modulusAt (i * 2 + 1)) (modulusAt (i * 2 + 1)) %
          modulusAt (i * 2 + 1) = 1 % modulusAt (i * 2 + 1) := by
  decide +kernel

/-- The value of a pair has the residues of both moduli. -/
theorem pairValue_modEq (residues : ℕ → Int8) (cell elements : ℕ) {i : ℕ} (hi : i < 10) :
    ((pairValue residues cell elements i).toNat : ℤ) ≡
        (residues (i * 2 * elements + cell)).toInt [ZMOD modulusAt (i * 2)] ∧
      ((pairValue residues cell elements i).toNat : ℤ) ≡
        (residues ((i * 2 + 1) * elements + cell)).toInt [ZMOD modulusAt (i * 2 + 1)] := by
  have hl : i * 2 < maxSupportedPrefix := by simp only [maxSupportedPrefix]; omega
  have hr : i * 2 + 1 < maxSupportedPrefix := by simp only [maxSupportedPrefix]; omega
  obtain ⟨hllt, hlmod⟩ := residueTarget_spec residues cell elements hl
  obtain ⟨-, hrmod⟩ := residueTarget_spec residues cell elements hr
  have hldev := modulusDevice_toNat (i := i * 2) (by omega)
  have hrdev := modulusDevice_toNat (i := i * 2 + 1) (by omega)
  have hlb := modulusAt_supported_bounds hl
  have hrb := modulusAt_supported_bounds hr
  obtain ⟨h0, h1, hinv⟩ := modInverse_inside_pair i hi
  set lhsTarget := residueTarget residues cell elements (i * 2) with hlt
  set rhsTarget := residueTarget residues cell elements (i * 2 + 1) with hrt
  have hmodlt : ∀ a b : UInt32, (a % b).toNat = a.toNat % b.toNat := fun a b => UInt32.toNat_mod a b
  set inverse := modInverseDevice (modulusDevice (i * 2) % modulusDevice (i * 2 + 1))
    (modulusDevice (i * 2 + 1)) with hinvdef
  have hinvNat : (inverse.toNat : ℤ) =
      modInverse (modulusAt (i * 2) % modulusAt (i * 2 + 1)) (modulusAt (i * 2 + 1)) := by
    have h := modInverseDevice_toNat (modulusDevice (i * 2) % modulusDevice (i * 2 + 1))
      (modulusDevice (i * 2 + 1)) (by rw [hmodlt, hldev, hrdev]; exact h0)
      (by rw [hmodlt, hldev, hrdev]; exact h1)
    rwa [hmodlt, hldev, hrdev] at h
  obtain ⟨hdlt, hdmod⟩ := mixedRadixDigit_spec rhsTarget
    (lhsTarget % modulusDevice (i * 2 + 1)) inverse
    (show 0 < (modulusDevice (i * 2 + 1)).toNat by rw [hrdev]; omega)
  set digit := mixedRadixDigit (modulusDevice (i * 2 + 1)) rhsTarget
    (lhsTarget % modulusDevice (i * 2 + 1)) inverse with hdigit
  rw [hmodlt, hrdev] at hdmod
  rw [hrdev] at hdlt
  -- the 32-bit arithmetic of the pair does not wrap
  have hmul : modulusAt (i * 2) * digit.toNat ≤ 256 * 256 := Nat.mul_le_mul hlb.2 (by omega)
  have hval : (pairValue residues cell elements i).toNat =
      lhsTarget.toNat + modulusAt (i * 2) * digit.toNat := by
    simp only [pairValue, ← hlt, ← hrt, ← hinvdef, ← hdigit]
    rw [UInt32.toNat_add, UInt32.toNat_mul, hldev, Nat.mod_eq_of_lt (a := modulusAt (i * 2) * _)
      (by omega), Nat.mod_eq_of_lt (by omega)]
  rw [hval]
  push_cast
  constructor
  · refine Int.ModEq.trans (Int.modEq_iff_dvd.2 ⟨-digit.toNat, by ring⟩) hlmod
  · have hinverse : (modulusAt (i * 2) : ℤ) * inverse.toNat ≡ 1 [ZMOD modulusAt (i * 2 + 1)] := by
      rw [hinvNat]
      exact hinv
    refine Int.ModEq.trans (ModulusLadder.modEq_of_garner hinverse (hdmod.trans ?_)) hrmod
    push_cast
    exact ((Int.mod_modEq _ _).sub_left _).mul_right _

/-- The residues of a cell, as the host gathers them. -/
def deviceCellResidues (residues : ℕ → Int8) (cell elements : ℕ) : ℕ → Int8 :=
  fun i => residues (i * elements + cell)

section Refinement

variable (residues : ℕ → Int8) (cell elements : ℕ) {p : ℕ}

/-- A pair of 192-bit numbers holds what the host reconstructs. -/
def Reconstructs (p : ℕ) (s : U192 × U192) : Prop :=
  (s.1.toNat : ℤ) = reconstructCanonical (deviceCellResidues residues cell elements) p ∧
    s.2.toNat = modulusProduct p

/-- A value below the product with the right residues is the host's. -/
theorem reconstructs_of_modEq (hp : p ≤ maxSupportedPrefix) {s : U192 × U192}
    (h2 : s.2.toNat = modulusProduct p) (h1 : s.1.toNat < modulusProduct p)
    (hres : ∀ i < p, (s.1.toNat : ℤ) ≡ (residues (i * elements + cell)).toInt
      [ZMOD modulusAt i]) : Reconstructs residues cell elements p s := by
  refine ⟨?_, h2⟩
  have hcanonical : reconstructCanonical (deviceCellResidues residues cell elements) p =
      (s.1.toNat : ℤ) % modulusProduct p :=
    reconstructCanonical_eq (hp.trans (by decide)) fun i hi => (hres i hi).symm
  rw [hcanonical]
  exact (Int.emod_eq_of_lt (by omega) (by exact_mod_cast h1)).symm

theorem reconstructCanonicalWide_spec (hp : p ≤ maxSupportedPrefix) :
    Reconstructs residues cell elements p
        (reconstructCanonicalWide residues cell elements p) ∧
      ∀ i < p, PassFits (modulusDevice i) (residueTarget residues cell elements i)
        (reconstructCanonicalWide residues cell elements i) := by
  obtain ⟨h2, h1, hres, hfits⟩ := garnerPasses_spec
    (residueTarget residues cell elements) (modulusDevice_ladder hp) (le_refl p)
  refine ⟨reconstructs_of_modEq residues cell elements hp h2 h1 fun i hi => ?_, hfits⟩
  have hi20 := lt_of_lt_of_le hi hp
  have h := hres i hi
  rw [modulusDevice_toNat (lt_of_lt_of_le hi20 (by decide))] at h
  exact h.trans (residueTarget_spec residues cell elements hi20).2

theorem reconstructCanonicalWideTreePairs_spec (hp : p ≤ maxSupportedPrefix) (heven : p % 2 = 0) :
    Reconstructs residues cell elements p
        (reconstructCanonicalWideTreePairs p residues cell elements) ∧
      ∀ i < p / 2, PassFits (pairModulus i) (pairValue residues cell elements i)
        (reconstructCanonicalWideTreePairs (i * 2) residues cell elements) := by
  have hp20 : p ≤ 20 := hp
  have hhalf : 2 * (p / 2) = p := by omega
  obtain ⟨h2, h1, hres, hfits⟩ := garnerPasses_spec
    (pairValue residues cell elements) (pairModulus_ladder (n := p / 2) (by omega))
    (le_refl (p / 2))
  simp only [hhalf] at h1 h2
  refine ⟨reconstructs_of_modEq residues cell elements hp h2 h1 fun i hi => ?_, fun i hi => ?_⟩
  · have h := hres (i / 2) (by omega)
    have hi10 : i / 2 < 10 := by omega
    rw [pairModulus_toNat hi10] at h
    push_cast at h
    obtain ⟨hl, hr⟩ := pairValue_modEq residues cell elements hi10
    rcases Nat.mod_two_eq_zero_or_one i with hpar | hpar
    · have hi2 : i / 2 * 2 = i := by omega
      rw [hi2] at h hl
      exact (h.of_mul_right _).trans hl
    · have hi2 : i / 2 * 2 + 1 = i := by omega
      rw [hi2] at h hr
      exact (h.of_mul_left _).trans hr
  · rw [reconstructCanonicalWideTreePairs, Nat.mul_div_cancel _ (by norm_num)]
    exact hfits i hi

end Refinement

end Rns8
