import Rns8.Core.Residue
import Rns8.Lib.ReciprocalDivision

/-!
# The device residue reducers

`finite_u8_reducer.hpp`: the reduction of a 32-bit accumulator to a centered byte on machine words,
without division. Every reducer goes through the magnitude of the value, a remainder by reciprocal or
by folding, the sign and the centering; `reduceToCenteredI32_eq` and its siblings say that the byte is
that of the CPU reference `reduce_to_centered`.
-/

namespace Rns8

open ReciprocalDivision

/-! ### The source -/

/-- `static_cast<uint32_t>` of a comparison. -/
def bitU32 (b : Bool) : UInt32 := if b then 1 else 0

/-- `modulus_reciprocal_u32`. -/
def modulusReciprocalU32 (modulus : UInt32) : UInt32 :=
  (((1 : UInt64) <<< 32) / modulus.toUInt64).toUInt32

/-- `static_byte_modulus_supported`. -/
def staticByteModuli : List UInt32 :=
  [256, 255, 253, 251, 247, 243, 241, 239, 233, 229, 227, 223, 217, 211, 199, 197, 193, 191, 181, 179,
    173, 167, 163, 157, 151, 149, 139, 137, 131, 127]

/-- `abs_i32_to_u32`. -/
def absI32ToU32 (value : Int32) : UInt32 :=
  if value < 0 then (-value.toInt64).toUInt64.toUInt32 else value.toUInt32

/-- `residue -= modulus & (0u - (residue >= bound))`. -/
def subtractIf (residue modulus bound : UInt32) : UInt32 :=
  residue - (modulus &&& (0 - bitU32 (bound ≤ residue)))

/-- `reduce_u32_small_modulus`. -/
def reduceU32SmallModulus (value modulus reciprocal : UInt32) : UInt32 :=
  let quotient := ((value.toUInt64 * reciprocal.toUInt64) >>> 32).toUInt32
  let residue := value - quotient * modulus
  let residue := subtractIf residue modulus modulus
  subtractIf residue modulus modulus

/-- `value & 0xffu`. -/
def lowByte (value : UInt32) : UInt32 := value &&& 0xff

/-- `reduce_u32_mod255`. -/
def reduceU32Mod255 (value : UInt32) : UInt32 :=
  let residue := lowByte value + lowByte (value >>> 8) + lowByte (value >>> 16) +
    lowByte (value >>> 24)
  let residue := lowByte residue + (residue >>> 8)
  subtractIf residue 255 255

/-- `reduce_u32_mod251`. -/
def reduceU32Mod251 (value : UInt32) : UInt32 :=
  let residue := lowByte value + (5 : UInt32) * lowByte (value >>> 8) +
    (25 : UInt32) * lowByte (value >>> 16) + (125 : UInt32) * lowByte (value >>> 24)
  let residue := lowByte residue + (5 : UInt32) * (residue >>> 8)
  let residue := subtractIf residue 251 251
  let residue := subtractIf residue 251 251
  let residue := subtractIf residue 251 251
  subtractIf residue 251 251

/-- `reduce_u32`. -/
def reduceU32 (value modulus reciprocal : UInt32) : UInt32 :=
  if modulus = 256 then lowByte value
  else if modulus = 255 then reduceU32Mod255 value
  else if modulus = 251 then reduceU32Mod251 value
  else reduceU32SmallModulus value modulus reciprocal

/-- `reduce_u32_fixed<Modulus>`. -/
def reduceU32Fixed (modulus value : UInt32) : UInt32 :=
  if modulus = 256 then lowByte value
  else if modulus = 255 then reduceU32Mod255 value
  else if modulus = 251 then reduceU32Mod251 value
  else reduceU32SmallModulus value modulus (modulusReciprocalU32 modulus)

/-- `center_unsigned_residue`. -/
def centerUnsignedResidue (residue modulus : UInt32) : Int8 :=
  let threshold := (modulus + 1) / 2
  (subtractIf residue modulus threshold).toInt32.toInt8

/-- The sign of the value on the residue of its magnitude, with the masks of the reducers. -/
def signResidue (value : Int32) (residue modulus : UInt32) : UInt32 :=
  let negativeNonzero := bitU32 (value < 0) &&& bitU32 (residue ≠ 0)
  let negativeMask := 0 - negativeNonzero
  (residue &&& ~~~negativeMask) ||| ((modulus - residue) &&& negativeMask)

/-- `reduce_to_centered_mod256_i32`. -/
def reduceToCenteredMod256I32 (value : Int32) : Int8 := (value &&& 0xff).toInt8

/-- `reduce_to_centered_mod255_i32`. -/
def reduceToCenteredMod255I32 (value : Int32) : Int8 :=
  let residue := reduceU32Mod255 (absI32ToU32 value)
  centerUnsignedResidue (signResidue value residue 255) 255

/-- `reduce_to_centered_mod251_i32`. -/
def reduceToCenteredMod251I32 (value : Int32) : Int8 :=
  let residue := reduceU32Mod251 (absI32ToU32 value)
  centerUnsignedResidue (signResidue value residue 251) 251

/-- `reduce_to_centered_i32`. -/
def reduceToCenteredI32 (value : Int32) (modulus reciprocal : UInt32) : Int8 :=
  if modulus = 256 then reduceToCenteredMod256I32 value
  else if modulus = 255 then reduceToCenteredMod255I32 value
  else if modulus = 251 then reduceToCenteredMod251I32 value
  else
    let residue := reduceU32SmallModulus (absI32ToU32 value) modulus reciprocal
    centerUnsignedResidue (signResidue value residue modulus) modulus

/-- `reduce_to_centered_accelerator_i32`. -/
def reduceToCenteredAcceleratorI32 (value : Int32) (modulus reciprocal : UInt32) : Int8 :=
  if modulus = 256 then reduceToCenteredMod256I32 value
  else if modulus = 255 then reduceToCenteredMod255I32 value
  else if modulus = 251 then reduceToCenteredMod251I32 value
  else
    let residue := reduceU32SmallModulus (absI32ToU32 value) modulus reciprocal
    centerUnsignedResidue (signResidue value residue modulus) modulus

/-- `reduce_to_centered_ck_i32`. -/
def reduceToCenteredCkI32 (value : Int32) (modulus reciprocal : UInt32) : Int8 :=
  reduceToCenteredAcceleratorI32 value modulus reciprocal

/-- `reduce_to_centered_fixed_i32<Modulus>`. -/
def reduceToCenteredFixedI32 (modulus : UInt32) (value : Int32) : Int8 :=
  if modulus = 256 then reduceToCenteredMod256I32 value
  else if modulus = 255 then reduceToCenteredMod255I32 value
  else if modulus = 251 then reduceToCenteredMod251I32 value
  else
    let residue := reduceU32Fixed modulus (absI32ToU32 value)
    centerUnsignedResidue (signResidue value residue modulus) modulus

/-- `reduce_to_centered_static_byte_modulus_i32`. -/
def reduceToCenteredStaticByteModulusI32 (value : Int32) (modulus : UInt32) : Int8 :=
  if modulus ∈ staticByteModuli then reduceToCenteredFixedI32 modulus value else 0

/-! ### The words -/

private theorem toNat_toUInt64_of_nonneg {x : Int64} (h : 0 ≤ x.toInt) :
    (x.toUInt64.toNat : ℤ) = x.toInt := by
  have hbits : x.toInt = if 2 * x.toBitVec.toNat < 2 ^ 64 then (x.toBitVec.toNat : ℤ) else
      x.toBitVec.toNat - (2 ^ 64 : ℕ) := BitVec.toInt_eq_toNat_cond x.toBitVec
  have hlt := x.toBitVec.isLt
  change (x.toBitVec.toNat : ℤ) = x.toInt
  split at hbits <;> omega

private theorem toNat_toUInt32_of_nonneg {x : Int32} (h : 0 ≤ x.toInt) :
    (x.toUInt32.toNat : ℤ) = x.toInt := by
  have hbits : x.toInt = if 2 * x.toBitVec.toNat < 2 ^ 32 then (x.toBitVec.toNat : ℤ) else
      x.toBitVec.toNat - (2 ^ 32 : ℕ) := BitVec.toInt_eq_toNat_cond x.toBitVec
  have hlt := x.toBitVec.isLt
  change (x.toBitVec.toNat : ℤ) = x.toInt
  split at hbits <;> omega

theorem absI32ToU32_toNat (value : Int32) : (absI32ToU32 value).toNat = value.toInt.natAbs := by
  have hlo := value.le_toInt
  have hhi := value.toInt_lt
  unfold absI32ToU32
  split
  · next hneg =>
    have hneg : value.toInt < 0 := by simpa [Int32.lt_iff_toInt_lt] using hneg
    have hword : (-value.toInt64).toInt = -value.toInt := by
      rw [Int64.toInt_neg, Int32.toInt_toInt64, Int.bmod_eq_of_le] <;> omega
    have hpos : (-value.toInt64).toUInt64.toNat = value.toInt.natAbs := by
      have h64 := toNat_toUInt64_of_nonneg (by rw [hword]; omega)
      rw [hword] at h64
      omega
    rw [UInt64.toNat_toUInt32, hpos]
    omega
  · next hpos =>
    have hpos : 0 ≤ value.toInt := by simpa [Int32.lt_iff_toInt_lt] using hpos
    have h32 := toNat_toUInt32_of_nonneg hpos
    omega

/-- The mask of a bit. -/
theorem and_mask (word : UInt32) (b : Bool) : word &&& (0 - bitU32 b) = if b then word else 0 := by
  cases b
  · exact UInt32.and_zero
  · have hmask : (0 - bitU32 true : UInt32) = ~~~0 := by decide
    rw [hmask, if_pos rfl]
    exact UInt32.and_neg_one

/-- A masked subtraction is a conditional one. -/
theorem subtractIf_eq (residue modulus bound : UInt32) :
    subtractIf residue modulus bound = if bound ≤ residue then residue - modulus else residue := by
  unfold subtractIf
  rw [and_mask]
  by_cases h : bound ≤ residue
  · rw [if_pos (by simpa using h), if_pos h]
  · rw [if_neg (by simpa using h), if_neg h, UInt32.sub_zero]

theorem subtractIf_toNat (residue modulus : UInt32) :
    (subtractIf residue modulus modulus).toNat = correct modulus.toNat residue.toNat := by
  rw [subtractIf_eq]
  unfold correct
  split
  · next h =>
    rw [if_pos (UInt32.le_iff_toNat_le.1 h), UInt32.toNat_sub_of_le _ _ h]
  · next h => rw [if_neg fun h' => h (UInt32.le_iff_toNat_le.2 h')]

theorem modulusReciprocalU32_toNat {modulus : UInt32} (hm : 2 ≤ modulus.toNat) :
    (modulusReciprocalU32 modulus).toNat = 2 ^ 32 / modulus.toNat := by
  have hone : ((1 : UInt64) <<< 32).toNat = 2 ^ 32 := by decide
  have hle : 2 ^ 32 / modulus.toNat ≤ 2 ^ 32 / 2 := Nat.div_le_div_left hm (by decide)
  unfold modulusReciprocalU32
  rw [UInt64.toNat_toUInt32, UInt64.toNat_div, hone, UInt32.toNat_toUInt64, Nat.mod_eq_of_lt]
  omega

/-- **The reciprocal reducer needs no more than its two corrections.** -/
theorem reduceU32SmallModulus_toNat (value : UInt32) {modulus : UInt32} (hm : 2 ≤ modulus.toNat) :
    (reduceU32SmallModulus value modulus (modulusReciprocalU32 modulus)).toNat =
      value.toNat % modulus.toNat := by
  have hv : value.toNat < 2 ^ 32 := value.toNat_lt
  have hr : (modulusReciprocalU32 modulus).toNat = 2 ^ 32 / modulus.toNat :=
    modulusReciprocalU32_toNat hm
  have hrlt := (modulusReciprocalU32 modulus).toNat_lt
  obtain ⟨hle, hlt⟩ := remainder_lt (show 0 < modulus.toNat by omega) hv
  set quotient := value.toNat * (2 ^ 32 / modulus.toNat) / 2 ^ 32 with hq
  -- the product of two words fits in 64 bits, so the quotient is the estimate
  have hquotient : ((value.toUInt64 * (modulusReciprocalU32 modulus).toUInt64) >>> 32).toUInt32.toNat =
      quotient := by
    have hmul : value.toNat * (2 ^ 32 / modulus.toNat) < 2 ^ 64 := by
      rw [← hr]
      calc value.toNat * (modulusReciprocalU32 modulus).toNat
          ≤ value.toNat * 2 ^ 32 := Nat.mul_le_mul_left _ hrlt.le
        _ < 2 ^ 32 * 2 ^ 32 := Nat.mul_lt_mul_of_pos_right hv (by decide)
    have hqlt : quotient < 2 ^ 32 := by
      rw [hq, Nat.div_lt_iff_lt_mul (by decide)]
      exact hmul
    rw [UInt64.toNat_toUInt32, UInt64.toNat_shiftRight, UInt64.toNat_mul, UInt32.toNat_toUInt64,
      UInt32.toNat_toUInt64, hr, Nat.mod_eq_of_lt hmul, Nat.shiftRight_eq_div_pow]
    exact Nat.mod_eq_of_lt hqlt
  have hprod : (((value.toUInt64 * (modulusReciprocalU32 modulus).toUInt64) >>> 32).toUInt32 *
      modulus).toNat = quotient * modulus.toNat := by
    rw [UInt32.toNat_mul, hquotient]
    exact Nat.mod_eq_of_lt (by omega)
  unfold reduceU32SmallModulus
  dsimp only
  -- the estimate is short by at most two, and two corrections follow
  rw [subtractIf_toNat, subtractIf_toNat, UInt32.toNat_sub_of_le _ _ (by
    rw [UInt32.le_iff_toNat_le, hprod]
    exact hle), hprod]
  have hiter := iterate_correct_eq (m := modulus.toNat) (n := 2)
    (r := value.toNat - quotient * modulus.toNat) (by omega)
  rw [Function.iterate_succ_apply, Function.iterate_one] at hiter
  rw [hiter, Nat.mul_comm]
  exact Nat.sub_mul_mod (by rwa [Nat.mul_comm] at hle)

theorem lowByte_toNat (value : UInt32) : (lowByte value).toNat = value.toNat % 256 := by
  rw [lowByte, UInt32.toNat_and]
  exact Nat.and_two_pow_sub_one_eq_mod _ 8

/-- The bytes of a word. -/
private theorem exists_bytes (value : UInt32) : ∃ b0 b1 b2 b3 : ℕ,
    (b0 < 256 ∧ b1 < 256 ∧ b2 < 256 ∧ b3 < 256) ∧
      value.toNat = b0 + 256 * b1 + 65536 * b2 + 16777216 * b3 ∧ (lowByte value).toNat = b0 ∧
      (lowByte (value >>> 8)).toNat = b1 ∧ (lowByte (value >>> 16)).toNat = b2 ∧
      (lowByte (value >>> 24)).toNat = b3 := by
  have hv : value.toNat < 2 ^ 32 := value.toNat_lt
  have hshift : ∀ k : UInt32, k.toNat < 32 → (lowByte (value >>> k)).toNat =
      value.toNat / 2 ^ k.toNat % 256 := by
    intro k hk
    rw [lowByte_toNat, UInt32.toNat_shiftRight, Nat.shiftRight_eq_div_pow, Nat.mod_eq_of_lt hk]
  refine ⟨_, _, _, _, ?_, ?_, lowByte_toNat value, hshift 8 (by decide), hshift 16 (by decide),
    hshift 24 (by decide)⟩
  · exact ⟨Nat.mod_lt _ (by decide), Nat.mod_lt _ (by decide), Nat.mod_lt _ (by decide),
      Nat.mod_lt _ (by decide)⟩
  · simp only [UInt32.reduceToNat]
    omega

theorem reduceU32Mod255_toNat (value : UInt32) : (reduceU32Mod255 value).toNat = value.toNat % 255 := by
  obtain ⟨b0, b1, b2, b3, hlt, hv, h0, h1, h2, h3⟩ := exists_bytes value
  unfold reduceU32Mod255
  dsimp only
  set folded := lowByte value + lowByte (value >>> 8) + lowByte (value >>> 16) +
    lowByte (value >>> 24) with hfolded
  have hsum : folded.toNat = b0 + b1 + b2 + b3 := by
    rw [hfolded, UInt32.toNat_add, UInt32.toNat_add, UInt32.toNat_add, h0, h1, h2, h3]
    omega
  have hhigh : (folded >>> 8).toNat = folded.toNat / 256 := by
    rw [UInt32.toNat_shiftRight, Nat.shiftRight_eq_div_pow]
    rfl
  have htwice : (lowByte folded + folded >>> 8).toNat = folded.toNat % 256 + folded.toNat / 256 := by
    rw [UInt32.toNat_add, lowByte_toNat, hhigh]
    omega
  have hiter := iterate_correct_eq (m := 255) (n := 1) (r := folded.toNat % 256 + folded.toNat / 256)
    (by omega)
  have hfold := fold_modEq (show 256 ≡ 1 [MOD 255] from rfl) folded.toNat
  rw [Function.iterate_one] at hiter
  rw [Nat.one_mul] at hfold
  rw [subtractIf_toNat, htwice]
  refine hiter.trans (hfold.trans ?_)
  rw [hsum, hv, Nat.ModEq]
  omega

theorem reduceU32Mod251_toNat (value : UInt32) : (reduceU32Mod251 value).toNat = value.toNat % 251 := by
  obtain ⟨b0, b1, b2, b3, hlt, hv, h0, h1, h2, h3⟩ := exists_bytes value
  unfold reduceU32Mod251
  dsimp only
  set folded := lowByte value + (5 : UInt32) * lowByte (value >>> 8) +
    (25 : UInt32) * lowByte (value >>> 16) + (125 : UInt32) * lowByte (value >>> 24) with hfolded
  have h5 : (5 : UInt32).toNat = 5 := rfl
  have h25 : (25 : UInt32).toNat = 25 := rfl
  have h125 : (125 : UInt32).toNat = 125 := rfl
  have hsum : folded.toNat = b0 + 5 * b1 + 25 * b2 + 125 * b3 := by
    rw [hfolded, UInt32.toNat_add, UInt32.toNat_add, UInt32.toNat_add, UInt32.toNat_mul,
      UInt32.toNat_mul, UInt32.toNat_mul, h0, h1, h2, h3, h5, h25, h125]
    omega
  have hhigh : (folded >>> 8).toNat = folded.toNat / 256 := by
    rw [UInt32.toNat_shiftRight, Nat.shiftRight_eq_div_pow]
    rfl
  have htwice : (lowByte folded + (5 : UInt32) * (folded >>> 8)).toNat =
      folded.toNat % 256 + 5 * (folded.toNat / 256) := by
    rw [UInt32.toNat_add, UInt32.toNat_mul, lowByte_toNat, hhigh, h5]
    omega
  have hiter := iterate_correct_eq (m := 251) (n := 4)
    (r := folded.toNat % 256 + 5 * (folded.toNat / 256)) (by omega)
  have hfold := fold_modEq (show 256 ≡ 5 [MOD 251] from rfl) folded.toNat
  rw [subtractIf_toNat, subtractIf_toNat, subtractIf_toNat, subtractIf_toNat, htwice]
  refine hiter.trans (hfold.trans ?_)
  rw [hsum, hv, Nat.ModEq]
  omega

/-! ### Sign and centering -/

theorem signResidue_eq (value : Int32) (residue modulus : UInt32) :
    signResidue value residue modulus =
      if value < 0 ∧ residue ≠ 0 then modulus - residue else residue := by
  have hbits : ∀ a b : Bool, bitU32 a &&& bitU32 b = bitU32 (a && b) := by decide
  have hnot : (~~~(0 - bitU32 true) : UInt32) = 0 ∧ (~~~(0 - bitU32 false) : UInt32) = ~~~0 := by
    decide
  unfold signResidue
  dsimp only
  rw [hbits, ← Bool.decide_and, and_mask]
  by_cases h : value < 0 ∧ residue ≠ 0
  · rw [decide_eq_true h, hnot.1, if_pos rfl, if_pos h, UInt32.and_zero, UInt32.zero_or]
  · rw [decide_eq_false h, hnot.2, if_neg h, if_neg Bool.false_ne_true, UInt32.or_zero]
    exact UInt32.and_neg_one

private theorem toInt_toInt32 (x : UInt32) : x.toInt32.toInt = (x.toNat : ℤ).bmod (2 ^ 32) :=
  BitVec.toInt_eq_toNat_bmod x.toBitVec

private theorem toInt_eq_bmod (x : Int32) : x.toInt = (x.toUInt32.toNat : ℤ).bmod (2 ^ 32) :=
  BitVec.toInt_eq_toNat_bmod x.toBitVec

/-- The centered byte of a canonical residue. -/
theorem centerUnsignedResidue_toInt {residue modulus : UInt32} (hm : 2 ≤ modulus.toNat)
    (hb : modulus.toNat ≤ 256) (hr : residue.toNat < modulus.toNat) :
    (centerUnsignedResidue residue modulus).toInt = (residue.toNat : ℤ).bmod modulus.toNat := by
  have hthreshold : ((modulus + 1) / 2).toNat = (modulus.toNat + 1) / 2 := by
    have hone : (1 : UInt32).toNat = 1 := rfl
    have htwo : (2 : UInt32).toNat = 2 := rfl
    rw [UInt32.toNat_div, UInt32.toNat_add, hone, htwo]
    omega
  obtain ⟨hlo, hhi⟩ := CenteredResidue.bmod_mem_byte (x := (residue.toNat : ℤ))
    (show 0 < modulus.toNat by omega) hb
  unfold centerUnsignedResidue
  dsimp only
  rw [subtractIf_eq, Int32.toInt_toInt8, toInt_toInt32]
  -- the wrap of the subtraction is undone by the signed reading
  suffices hword : (((if (modulus + 1) / 2 ≤ residue then residue - modulus else residue).toNat :
      ℤ)).bmod (2 ^ 32) = (residue.toNat : ℤ).bmod modulus.toNat by
    rw [hword]
    exact Int.bmod_eq_of_le (by omega) (by omega)
  rw [Int.bmod_def (residue.toNat : ℤ), Int.emod_eq_of_lt (by omega) (by omega)]
  split
  · next h =>
    have h := UInt32.le_iff_toNat_le.1 h
    rw [hthreshold] at h
    rw [if_neg (by omega), UInt32.toNat_sub, Int.bmod_def]
    split <;> omega
  · next h =>
    have h : ¬ (modulus.toNat + 1) / 2 ≤ residue.toNat := fun h' =>
      h (UInt32.le_iff_toNat_le.2 (by rw [hthreshold]; exact h'))
    rw [if_pos (by omega)]
    exact Int.bmod_eq_of_le (by omega) (by omega)

/-- **Every reducer**: with the remainder of the magnitude, sign and centering give the byte of the
CPU reference. -/
theorem centerUnsignedResidue_signResidue {value : Int32} {residue modulus : UInt32}
    (hm : 2 ≤ modulus.toNat) (hb : modulus.toNat ≤ 256)
    (hr : residue.toNat = value.toInt.natAbs % modulus.toNat) :
    centerUnsignedResidue (signResidue value residue modulus) modulus =
      reduceToCentered value.toInt modulus.toNat := by
  have hlt : residue.toNat < modulus.toNat := hr ▸ Nat.mod_lt _ (by omega)
  have hzero : residue ≠ 0 ↔ residue.toNat ≠ 0 := by
    rw [ne_eq, ← UInt32.toNat_inj]
    rfl
  have hneg : value < 0 ↔ value.toInt < 0 := by rw [Int32.lt_iff_toInt_lt]; rfl
  -- the residue of the magnitude, negated when the value is negative
  have hsign : ((signResidue value residue modulus).toNat : ℤ) = value.toInt % modulus.toNat := by
    have habs : (value.toInt.natAbs : ℤ) % modulus.toNat = residue.toNat := by
      rw [hr]
      push_cast
      rfl
    rw [signResidue_eq]
    split
    · next h =>
      rw [hneg, hzero] at h
      rw [UInt32.toNat_sub_of_le _ _ (UInt32.le_iff_toNat_le.2 hlt.le)]
      rw [show (value.toInt.natAbs : ℤ) = -value.toInt by omega, Int.neg_emod] at habs
      split at habs <;> omega
    · next h =>
      rw [hneg, hzero] at h
      rcases lt_or_ge value.toInt 0 with hv | hv
      · have h0 : residue.toNat = 0 := by
          by_contra h0
          exact h ⟨hv, h0⟩
        rw [h0, show (value.toInt.natAbs : ℤ) = -value.toInt by omega] at habs
        have hdvd := Int.dvd_neg.1 (Int.dvd_of_emod_eq_zero habs)
        rw [h0, Int.emod_eq_zero_of_dvd hdvd]
        rfl
      · rw [show (value.toInt.natAbs : ℤ) = value.toInt by omega] at habs
        exact habs.symm
  have hsignlt : (signResidue value residue modulus).toNat < modulus.toNat := by
    have := Int.emod_lt_of_pos value.toInt (show (0 : ℤ) < modulus.toNat by omega)
    omega
  rw [← Int8.toInt_inj, centerUnsignedResidue_toInt hm hb hsignlt, hsign, reduceToCentered_eq,
    centeredResidue_toInt _ (by omega) hb, Int.emod_bmod]

/-! ### The reducers -/

/-- The moduli of the device code: those of the ladder and of the finite rings. -/
def DeviceModulus (modulus : UInt32) : Prop := 2 ≤ modulus.toNat ∧ modulus.toNat ≤ 256

theorem reduceToCenteredMod256I32_eq (value : Int32) :
    reduceToCenteredMod256I32 value = reduceToCentered value.toInt 256 := by
  rw [← Int8.toInt_inj, reduceToCentered_eq, centeredResidue_toInt _ (by decide) (by decide)]
  unfold reduceToCenteredMod256I32
  rw [Int32.toInt_toInt8, toInt_eq_bmod (value &&& 0xff), toInt_eq_bmod value,
    CenteredResidue.bmod_eq_bmod_iff (m := 256)]
  have hmask : (value &&& 0xff).toUInt32.toNat = value.toUInt32.toNat % 256 := lowByte_toNat _
  have hword : ∀ x : ℤ, x.bmod (2 ^ 32) ≡ x [ZMOD 256] := fun x =>
    (CenteredResidue.bmod_modEq x (2 ^ 32)).of_dvd (by decide)
  refine (hword _).trans (Int.ModEq.trans ?_ (hword _).symm)
  rw [hmask]
  push_cast
  exact Int.mod_modEq _ _

theorem reduceToCenteredMod255I32_eq (value : Int32) :
    reduceToCenteredMod255I32 value = reduceToCentered value.toInt 255 :=
  @centerUnsignedResidue_signResidue value _ 255 (by decide) (by decide)
    ((reduceU32Mod255_toNat _).trans (by rw [absI32ToU32_toNat]; rfl))

theorem reduceToCenteredMod251I32_eq (value : Int32) :
    reduceToCenteredMod251I32 value = reduceToCentered value.toInt 251 :=
  @centerUnsignedResidue_signResidue value _ 251 (by decide) (by decide)
    ((reduceU32Mod251_toNat _).trans (by rw [absI32ToU32_toNat]; rfl))

/-- **The runtime reducer is the CPU reference.** -/
theorem reduceToCenteredI32_eq (value : Int32) {modulus : UInt32} (h : DeviceModulus modulus) :
    reduceToCenteredI32 value modulus (modulusReciprocalU32 modulus) =
      reduceToCentered value.toInt modulus.toNat := by
  unfold reduceToCenteredI32
  split
  · next h256 => rw [h256]; exact reduceToCenteredMod256I32_eq value
  · split
    · next h255 => rw [h255]; exact reduceToCenteredMod255I32_eq value
    · split
      · next h251 => rw [h251]; exact reduceToCenteredMod251I32_eq value
      · refine centerUnsignedResidue_signResidue h.1 h.2 ?_
        rw [reduceU32SmallModulus_toNat _ h.1, absI32ToU32_toNat]

/-- The remainder of a template is that of its modulus. -/
theorem reduceU32Fixed_toNat (value : UInt32) {modulus : UInt32} (h : DeviceModulus modulus) :
    (reduceU32Fixed modulus value).toNat = value.toNat % modulus.toNat := by
  unfold reduceU32Fixed
  split
  · next h256 => rw [h256]; exact lowByte_toNat value
  · split
    · next h255 => rw [h255]; exact reduceU32Mod255_toNat value
    · split
      · next h251 => rw [h251]; exact reduceU32Mod251_toNat value
      · exact reduceU32SmallModulus_toNat value h.1

theorem reduceU32_toNat (value : UInt32) {modulus : UInt32} (h : DeviceModulus modulus) :
    (reduceU32 value modulus (modulusReciprocalU32 modulus)).toNat = value.toNat % modulus.toNat :=
  reduceU32Fixed_toNat value h

/-- **The templates are the CPU reference.** -/
theorem reduceToCenteredFixedI32_eq (value : Int32) {modulus : UInt32} (h : DeviceModulus modulus) :
    reduceToCenteredFixedI32 modulus value = reduceToCentered value.toInt modulus.toNat := by
  unfold reduceToCenteredFixedI32
  split
  · next h256 => rw [h256]; exact reduceToCenteredMod256I32_eq value
  · split
    · next h255 => rw [h255]; exact reduceToCenteredMod255I32_eq value
    · split
      · next h251 => rw [h251]; exact reduceToCenteredMod251I32_eq value
      · refine centerUnsignedResidue_signResidue h.1 h.2 ?_
        rw [reduceU32Fixed_toNat _ h, absI32ToU32_toNat]

theorem staticByteModuli_deviceModulus {modulus : UInt32} (h : modulus ∈ staticByteModuli) :
    DeviceModulus modulus := by
  have key : (staticByteModuli.all fun m => decide (2 ≤ m.toNat ∧ m.toNat ≤ 256)) = true := by decide
  have hm := List.all_eq_true.1 key modulus h
  rw [decide_eq_true_eq] at hm
  exact hm

end Rns8
