import Mathlib.Tactic

/-!
# 192-bit numbers of the device

`rns8_u192_device` of `hip_direct_device_common.cuh`: three 64-bit limbs with carries written out by
hand. Every operation is identified with the operation on the natural number `U192.toNat`, modulo
`2 ^ 192` where it can wrap.
-/

namespace Rns8

/-- `rns8_u192_device`. -/
structure U192 where
  limb0 : UInt64
  limb1 : UInt64
  limb2 : UInt64
  deriving DecidableEq, Repr

/-- The number that the limbs stand for. -/
def U192.toNat (x : U192) : ℕ := x.limb0.toNat + 2 ^ 64 * x.limb1.toNat + 2 ^ 128 * x.limb2.toNat

/-- `rns8_u192_from_u64_device`. -/
def u192FromU64 (value : UInt64) : U192 := ⟨value, 0, 0⟩

/-- `rns8_u192_compare_device`. -/
def u192Compare (a b : U192) : ℤ :=
  if a.limb2 ≠ b.limb2 then if b.limb2 < a.limb2 then 1 else -1
  else if a.limb1 ≠ b.limb1 then if b.limb1 < a.limb1 then 1 else -1
  else if a.limb0 ≠ b.limb0 then if b.limb0 < a.limb0 then 1 else -1
  else 0

/-- `rns8_u192_add_device`. -/
def u192Add (a b : U192) : U192 :=
  let limb0 := a.limb0 + b.limb0
  let carry0 : UInt64 := if limb0 < a.limb0 then 1 else 0
  let limb1 := a.limb1 + b.limb1 + carry0
  let carry1 : UInt64 := if limb1 < a.limb1 ∨ (carry0 ≠ 0 ∧ limb1 = a.limb1) then 1 else 0
  ⟨limb0, limb1, a.limb2 + b.limb2 + carry1⟩

/-- `rns8_u192_sub_device`. -/
def u192Sub (a b : U192) : U192 :=
  let borrow0 : UInt64 := if a.limb0 < b.limb0 then 1 else 0
  let borrow1 : UInt64 := if a.limb1 < b.limb1 ∨ (borrow0 ≠ 0 ∧ a.limb1 = b.limb1) then 1 else 0
  ⟨a.limb0 - b.limb0, a.limb1 - b.limb1 - borrow0, a.limb2 - b.limb2 - borrow1⟩

/-- `rns8_u192_mul_u32_device`; the 128-bit accumulator holds at most `2 ^ 96`. -/
def u192MulU32 (value : U192) (multiplier : UInt32) : U192 :=
  let acc := value.limb0.toNat * multiplier.toNat
  let limb0 := UInt64.ofNat acc
  let carry := UInt64.ofNat (acc >>> 64)
  let acc := value.limb1.toNat * multiplier.toNat + carry.toNat
  let limb1 := UInt64.ofNat acc
  let carry := UInt64.ofNat (acc >>> 64)
  let acc := value.limb2.toNat * multiplier.toNat + carry.toNat
  ⟨limb0, limb1, UInt64.ofNat acc⟩

/-- `rns8_u192_mod_u32_device`; the 128-bit remainder stays below `2 ^ 96`. -/
def u192ModU32 (value : U192) (modulus : UInt32) : UInt32 :=
  let rem := (0 <<< 64 ||| value.limb2.toNat) % modulus.toNat
  let rem := (rem <<< 64 ||| value.limb1.toNat) % modulus.toNat
  let rem := (rem <<< 64 ||| value.limb0.toNat) % modulus.toNat
  UInt32.ofNat rem

/-- `rns8_u192_shr1_device`. -/
def u192Shr1 (value : U192) : U192 :=
  ⟨(value.limb0 >>> 1) ||| (value.limb1 <<< 63), (value.limb1 >>> 1) ||| (value.limb2 <<< 63),
    value.limb2 >>> 1⟩

/-- `rns8_u192_centered_is_negative_device`. -/
def u192CenteredIsNegative (value product : U192) : Bool :=
  let threshold := u192Shr1 product
  let threshold :=
    if product.limb0 &&& 1 ≠ 0 then u192Add threshold (u192FromU64 1) else threshold
  decide (0 ≤ u192Compare value threshold)

/-- `rns8_u192_gt_u64_device`. -/
def u192GtU64 (value : U192) (limit : UInt64) : Bool :=
  decide (value.limb2 ≠ 0) || decide (value.limb1 ≠ 0) || decide (limit < value.limb0)

/-- `rns8_u192_limb_device`. -/
def u192Limb (value : U192) (limb : ℕ) : UInt64 :=
  if limb = 0 then value.limb0 else if limb = 1 then value.limb1
  else if limb = 2 then value.limb2 else 0

/-! ### The numbers behind the operations -/

namespace U192

theorem toNat_lt (x : U192) : x.toNat < 2 ^ 192 := by
  have h0 := x.limb0.toNat_lt
  have h1 := x.limb1.toNat_lt
  have h2 := x.limb2.toNat_lt
  simp only [toNat]
  omega

@[simp] theorem toNat_fromU64 (v : UInt64) : (u192FromU64 v).toNat = v.toNat := by
  simp [toNat, u192FromU64]

theorem toNat_add (a b : U192) : (u192Add a b).toNat = (a.toNat + b.toNat) % 2 ^ 192 := by
  obtain ⟨a0, a1, a2⟩ := a
  obtain ⟨b0, b1, b2⟩ := b
  have ha0 := a0.toNat_lt; have ha1 := a1.toNat_lt; have ha2 := a2.toNat_lt
  have hb0 := b0.toNat_lt; have hb1 := b1.toNat_lt; have hb2 := b2.toNat_lt
  simp only [toNat, u192Add, UInt64.lt_iff_toNat_lt, ← UInt64.toNat_inj, UInt64.toNat_add]
  split_ifs <;> simp_all <;> omega

/-- Subtraction is exact when it does not go below zero. -/
theorem toNat_sub {a b : U192} (h : b.toNat ≤ a.toNat) :
    (u192Sub a b).toNat = a.toNat - b.toNat := by
  obtain ⟨a0, a1, a2⟩ := a
  obtain ⟨b0, b1, b2⟩ := b
  have ha0 := a0.toNat_lt; have ha1 := a1.toNat_lt; have ha2 := a2.toNat_lt
  have hb0 := b0.toNat_lt; have hb1 := b1.toNat_lt; have hb2 := b2.toNat_lt
  simp only [toNat] at h
  simp only [toNat, u192Sub, UInt64.lt_iff_toNat_lt, ← UInt64.toNat_inj, UInt64.toNat_sub]
  split_ifs <;> simp_all <;> omega

theorem toNat_mulU32 (v : U192) (m : UInt32) :
    (u192MulU32 v m).toNat = v.toNat * m.toNat % 2 ^ 192 := by
  obtain ⟨v0, v1, v2⟩ := v
  have hm := m.toNat_lt
  -- each partial product fits the accumulator with the carry coming in
  have bound : ∀ w : UInt64, w.toNat * m.toNat ≤ (2 ^ 64 - 1) * (2 ^ 32 - 1) := fun w =>
    Nat.mul_le_mul (by have := w.toNat_lt; omega) (by omega)
  have h0 := bound v0; have h1 := bound v1; have h2 := bound v2
  simp only [toNat, u192MulU32, UInt64.toNat_ofNat', Nat.shiftRight_eq_div_pow, Nat.add_mul,
    Nat.mul_assoc]
  generalize v0.toNat * m.toNat = p0 at *
  generalize v1.toNat * m.toNat = p1 at *
  generalize v2.toNat * m.toNat = p2 at *
  omega

theorem toNat_modU32 (v : U192) {m : UInt32} (hm : 0 < m.toNat) :
    (u192ModU32 v m).toNat = v.toNat % m.toNat := by
  obtain ⟨v0, v1, v2⟩ := v
  have hlt := m.toNat_lt
  have push : ∀ (r : ℕ) (w : UInt64), (r <<< 64 ||| w.toNat) = 2 ^ 64 * r + w.toNat := fun r w => by
    rw [← Nat.shiftLeft_add_eq_or_of_lt w.toNat_lt, Nat.shiftLeft_eq, Nat.mul_comm]
  have hrem : ∀ r w : ℕ, (2 ^ 64 * (r % m.toNat) + w) % m.toNat = (2 ^ 64 * r + w) % m.toNat :=
    fun r w => ((Nat.mod_modEq r m.toNat).mul_left _).add_right w
  simp only [u192ModU32, push, hrem, UInt32.toNat_ofNat', toNat]
  rw [Nat.mod_eq_of_lt ((Nat.mod_lt _ hm).trans hlt)]
  congr 1
  ring

theorem toNat_shr1 (v : U192) : (u192Shr1 v).toNat = v.toNat / 2 := by
  obtain ⟨v0, v1, v2⟩ := v
  have h0 := v0.toNat_lt; have h1 := v1.toNat_lt; have h2 := v2.toNat_lt
  -- the bit that crosses a limb boundary lands above the shifted limb
  have carry : ∀ lo hi : UInt64, ((lo >>> 1) ||| (hi <<< 63)).toNat =
      lo.toNat / 2 + 2 ^ 63 * (hi.toNat % 2) := fun lo hi => by
    have hlo : lo.toNat / 2 < 2 ^ 63 := by have := lo.toNat_lt; omega
    have hmod : hi.toNat * 2 ^ 63 % 2 ^ 64 = hi.toNat % 2 * 2 ^ 63 := by omega
    rw [UInt64.toNat_or, UInt64.toNat_shiftRight, UInt64.toNat_shiftLeft]
    simp only [UInt64.reduceToNat, Nat.shiftRight_eq_div_pow, Nat.shiftLeft_eq]
    norm_num only
    rw [show (18446744073709551616 : ℕ) = 2 ^ 64 by norm_num,
      show (9223372036854775808 : ℕ) = 2 ^ 63 by norm_num, hmod, Nat.or_comm, ← Nat.shiftLeft_eq,
      ← Nat.shiftLeft_add_eq_or_of_lt hlo, Nat.shiftLeft_eq]
    ring
  have htop : (v2 >>> 1).toNat = v2.toNat / 2 := by
    rw [UInt64.toNat_shiftRight]; simp [Nat.shiftRight_eq_div_pow]
  simp only [toNat, u192Shr1, carry, htop]
  omega

theorem compare_nonneg (a b : U192) : 0 ≤ u192Compare a b ↔ b.toNat ≤ a.toNat := by
  obtain ⟨a0, a1, a2⟩ := a
  obtain ⟨b0, b1, b2⟩ := b
  have ha0 := a0.toNat_lt; have ha1 := a1.toNat_lt; have ha2 := a2.toNat_lt
  have hb0 := b0.toNat_lt; have hb1 := b1.toNat_lt; have hb2 := b2.toNat_lt
  simp only [toNat, u192Compare, UInt64.lt_iff_toNat_lt, ne_eq, ← UInt64.toNat_inj]
  split_ifs <;> simp <;> omega

theorem gtU64_iff (v : U192) (limit : UInt64) :
    u192GtU64 v limit = true ↔ limit.toNat < v.toNat := by
  obtain ⟨v0, v1, v2⟩ := v
  have hl := limit.toNat_lt; have h0 := v0.toNat_lt
  simp only [u192GtU64, Bool.or_eq_true, decide_eq_true_eq, ne_eq, ← UInt64.toNat_inj,
    UInt64.lt_iff_toNat_lt, toNat, UInt64.toNat_zero]
  omega

/-- The comparison with half the product, rounded up. -/
theorem centeredIsNegative_iff (v product : U192) :
    u192CenteredIsNegative v product = true ↔ (product.toNat + 1) / 2 ≤ v.toNat := by
  have hodd : (product.limb0 &&& 1 ≠ 0) ↔ product.toNat % 2 = 1 := by
    rw [ne_eq, ← UInt64.toNat_inj, UInt64.toNat_and]
    simp only [UInt64.reduceToNat, Nat.and_one_is_mod, toNat, UInt64.toNat_zero]
    omega
  have hlt := product.toNat_lt
  have hthreshold : (if product.limb0 &&& 1 ≠ 0 then
      u192Add (u192Shr1 product) (u192FromU64 1) else u192Shr1 product).toNat =
      (product.toNat + 1) / 2 := by
    split
    · next h =>
      rw [toNat_add, toNat_shr1, toNat_fromU64, UInt64.toNat_one]
      have := hodd.1 h
      omega
    · next h =>
      rw [toNat_shr1]
      have := mt hodd.2 h
      omega
  simp only [u192CenteredIsNegative, decide_eq_true_eq, compare_nonneg, hthreshold]

/-- Limb `i` is digit `i` to the base `2 ^ 64`. -/
theorem toNat_limb (v : U192) (i : ℕ) :
    (u192Limb v i).toNat = v.toNat / 2 ^ (64 * i) % 2 ^ 64 := by
  obtain ⟨v0, v1, v2⟩ := v
  have h0 := v0.toNat_lt; have h1 := v1.toNat_lt; have h2 := v2.toNat_lt
  rcases i with _ | _ | _ | i
  · simp only [u192Limb, toNat, if_true, Nat.mul_zero, pow_zero, Nat.div_one]
    omega
  · simp only [u192Limb, toNat]
    norm_num
    omega
  · simp only [u192Limb, toNat]
    norm_num
    omega
  · have hbig : (2 : ℕ) ^ 192 ≤ 2 ^ (64 * (i + 3)) := Nat.pow_le_pow_right (by norm_num) (by omega)
    have hlt := (toNat_lt ⟨v0, v1, v2⟩).trans_le hbig
    rw [Nat.div_eq_of_lt hlt]
    simp [u192Limb]

end U192

end Rns8
