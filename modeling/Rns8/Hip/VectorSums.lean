import Mathlib.Tactic

/-!
# The 192-bit sums of the vector ALU

The accumulation helpers of `vector_alu_kernels.hip`: `UInt192` with carries written out by hand, and
sums kept as a sign and a magnitude. Below `2 ^ 192` every helper computes on the integer that its
operands stand for, and the two stores accept exactly the values of their element type.
-/

namespace Rns8

/-- `UInt192`. -/
structure UInt192 where
  lo : UInt64
  mid : UInt64
  hi : UInt64
  deriving DecidableEq, Repr

/-- The number that the words stand for. -/
def UInt192.toNat (x : UInt192) : ℕ := x.lo.toNat + 2 ^ 64 * x.mid.toNat + 2 ^ 128 * x.hi.toNat

/-- `zero192`. -/
def zero192 : UInt192 := ⟨0, 0, 0⟩

/-- `is_zero`. -/
def isZero (value : UInt192) : Bool :=
  decide (value.lo = 0) && decide (value.mid = 0) && decide (value.hi = 0)

/-- `product_u64_u64`; `product` is the 128-bit product. -/
def productU64U64 (a b : UInt64) : UInt192 :=
  let product := a.toNat * b.toNat
  ⟨UInt64.ofNat product, UInt64.ofNat (product >>> 64), 0⟩

/-- `add_assign`, as the new value of `acc`. -/
def addAssign (acc value : UInt192) : UInt192 :=
  let lo := acc.lo + value.lo
  let carry0 : UInt64 := if lo < acc.lo then 1 else 0
  let midAfterValue := acc.mid + value.mid
  let carry1 : UInt64 := if midAfterValue < acc.mid then 1 else 0
  let mid := midAfterValue + carry0
  let carry2 : UInt64 := if mid < midAfterValue then 1 else 0
  ⟨lo, mid, acc.hi + (value.hi + carry1 + carry2)⟩

/-- `compare`. -/
def compare192 (lhs rhs : UInt192) : ℤ :=
  if lhs.hi ≠ rhs.hi then if lhs.hi < rhs.hi then -1 else 1
  else if lhs.mid ≠ rhs.mid then if lhs.mid < rhs.mid then -1 else 1
  else if lhs.lo ≠ rhs.lo then if lhs.lo < rhs.lo then -1 else 1
  else 0

/-- `subtract`. -/
def subtract192 (lhs rhs : UInt192) : UInt192 :=
  let borrow0 : UInt64 := if lhs.lo < rhs.lo then 1 else 0
  let rhsMid := rhs.mid + borrow0
  let borrowMidOverflow : UInt64 := if rhsMid < rhs.mid then 1 else 0
  let borrow1 : UInt64 := if lhs.mid < rhsMid then 1 else 0
  ⟨lhs.lo - rhs.lo, lhs.mid - rhsMid, lhs.hi - rhs.hi - borrowMidOverflow - borrow1⟩

/-- `abs_i64_to_u64`. -/
def absI64ToU64 (value : Int64) : UInt64 :=
  let bits := value.toUInt64
  if value < 0 then ~~~bits + 1 else bits

/-- The pair `negative`, `magnitude` of the signed kernels. -/
structure SignedSum where
  negative : Bool
  magnitude : UInt192
  deriving DecidableEq, Repr

/-- `add_signed_product`, as the new value of its first two arguments. -/
def addSignedProduct (sum : SignedSum) (productNegative : Bool) (product : UInt192) : SignedSum :=
  if isZero product then sum
  else if isZero sum.magnitude then ⟨productNegative, product⟩
  else if sum.negative = productNegative then ⟨sum.negative, addAssign sum.magnitude product⟩
  else
    let cmp := compare192 sum.magnitude product
    if cmp = 0 then ⟨false, zero192⟩
    else if cmp > 0 then ⟨sum.negative, subtract192 sum.magnitude product⟩
    else ⟨productNegative, subtract192 product sum.magnitude⟩

/-- `int64_min_abs`. -/
def int64MinAbs : UInt64 := (1 : UInt64) <<< 63

/-- The epilogue of the signed kernels: whether the status is raised, and the value stored. -/
def storeI64 (sum : SignedSum) : Bool × Int64 :=
  if !sum.negative then
    if sum.magnitude.hi ≠ 0 ∨ sum.magnitude.mid ≠ 0 ∨ sum.magnitude.lo > Int64.maxValue.toUInt64 then
      (true, 0)
    else (false, sum.magnitude.lo.toInt64)
  else
    if sum.magnitude.hi ≠ 0 ∨ sum.magnitude.mid ≠ 0 ∨ sum.magnitude.lo > int64MinAbs then (true, 0)
    else if sum.magnitude.lo = int64MinAbs then (false, Int64.minValue)
    else (false, -sum.magnitude.lo.toInt64)

/-- The epilogue of the unsigned kernels. -/
def storeU64 (sum : UInt192) : Bool × UInt64 :=
  (decide (sum.hi ≠ 0 ∨ sum.mid ≠ 0), sum.lo)

/-! ### The numbers behind the helpers -/

namespace UInt192

theorem toNat_lt (x : UInt192) : x.toNat < 2 ^ 192 := by
  have h0 := x.lo.toNat_lt
  have h1 := x.mid.toNat_lt
  have h2 := x.hi.toNat_lt
  simp only [toNat]
  omega

@[simp] theorem toNat_zero192 : zero192.toNat = 0 := rfl

theorem isZero_iff (x : UInt192) : isZero x = true ↔ x.toNat = 0 := by
  simp only [isZero, Bool.and_eq_true, decide_eq_true_eq, ← UInt64.toNat_inj, UInt64.toNat_zero, toNat]
  omega

theorem toNat_product (a b : UInt64) : (productU64U64 a b).toNat = a.toNat * b.toNat := by
  have hlt : a.toNat * b.toNat < 2 ^ 64 * 2 ^ 64 := Nat.mul_lt_mul'' a.toNat_lt b.toNat_lt
  simp only [toNat, productU64U64, UInt64.toNat_ofNat', Nat.shiftRight_eq_div_pow, UInt64.toNat_zero]
  omega

theorem toNat_addAssign (a b : UInt192) : (addAssign a b).toNat = (a.toNat + b.toNat) % 2 ^ 192 := by
  obtain ⟨a0, a1, a2⟩ := a
  obtain ⟨b0, b1, b2⟩ := b
  have ha0 := a0.toNat_lt; have ha1 := a1.toNat_lt; have ha2 := a2.toNat_lt
  have hb0 := b0.toNat_lt; have hb1 := b1.toNat_lt; have hb2 := b2.toNat_lt
  simp only [toNat, addAssign, UInt64.lt_iff_toNat_lt, UInt64.toNat_add]
  split_ifs <;> simp_all <;> omega

/-- Subtraction is exact when it does not go below zero. -/
theorem toNat_subtract {a b : UInt192} (h : b.toNat ≤ a.toNat) :
    (subtract192 a b).toNat = a.toNat - b.toNat := by
  obtain ⟨a0, a1, a2⟩ := a
  obtain ⟨b0, b1, b2⟩ := b
  have ha0 := a0.toNat_lt; have ha1 := a1.toNat_lt; have ha2 := a2.toNat_lt
  have hb0 := b0.toNat_lt; have hb1 := b1.toNat_lt; have hb2 := b2.toNat_lt
  simp only [toNat] at h
  simp only [toNat, subtract192, UInt64.lt_iff_toNat_lt, UInt64.toNat_add, UInt64.toNat_sub]
  split_ifs <;> simp_all <;> omega

theorem compare_eq_zero (a b : UInt192) : compare192 a b = 0 ↔ a.toNat = b.toNat := by
  obtain ⟨a0, a1, a2⟩ := a
  obtain ⟨b0, b1, b2⟩ := b
  have ha0 := a0.toNat_lt; have ha1 := a1.toNat_lt; have ha2 := a2.toNat_lt
  have hb0 := b0.toNat_lt; have hb1 := b1.toNat_lt; have hb2 := b2.toNat_lt
  simp only [toNat, compare192, UInt64.lt_iff_toNat_lt, ne_eq, ← UInt64.toNat_inj]
  split_ifs <;> simp <;> omega

theorem compare_pos (a b : UInt192) : compare192 a b > 0 ↔ b.toNat < a.toNat := by
  obtain ⟨a0, a1, a2⟩ := a
  obtain ⟨b0, b1, b2⟩ := b
  have ha0 := a0.toNat_lt; have ha1 := a1.toNat_lt; have ha2 := a2.toNat_lt
  have hb0 := b0.toNat_lt; have hb1 := b1.toNat_lt; have hb2 := b2.toNat_lt
  simp only [toNat, compare192, UInt64.lt_iff_toNat_lt, ne_eq, ← UInt64.toNat_inj]
  split_ifs <;> simp <;> omega

end UInt192

/-- The magnitude of a signed word; `-2 ^ 63` has one too. -/
theorem absI64ToU64_toNat (value : Int64) : ((absI64ToU64 value).toNat : ℤ) = |value.toInt| := by
  have hlt := value.toInt_lt
  have hle := value.le_toInt
  have hbits : (value.toUInt64.toNat : ℤ) = if value.toInt < 0 then value.toInt + 2 ^ 64 else value.toInt := by
    have h := BitVec.toInt_eq_toNat_cond value.toBitVec
    have hn := value.toUInt64.toNat_lt
    change value.toInt = (if 2 * value.toUInt64.toNat < 2 ^ 64 then _ else _) at h
    change value.toInt = (if 2 * value.toUInt64.toNat < 2 ^ 64 then (value.toUInt64.toNat : ℤ)
      else (value.toUInt64.toNat : ℤ) - (2 ^ 64 : ℕ)) at h
    split at h <;> split <;> omega
  unfold absI64ToU64
  by_cases hneg : value < 0
  · have hneg' : value.toInt < 0 := by simpa [Int64.lt_iff_toInt_lt] using hneg
    rw [if_pos hneg'] at hbits
    simp only [hneg, if_true, abs_of_neg hneg', UInt64.toNat_add, UInt64.toNat_not, UInt64.toNat_one]
    have hn := value.toUInt64.toNat_lt
    simp only [UInt64.size]
    omega
  · have hneg' : ¬ value.toInt < 0 := by simpa [Int64.lt_iff_toInt_lt] using hneg
    rw [if_neg hneg'] at hbits
    simp only [hneg, if_false, abs_of_nonneg (not_lt.1 hneg'), hbits]

/-- The integer that a sign and a magnitude stand for. -/
def SignedSum.toInt (s : SignedSum) : ℤ :=
  if s.negative then -(s.magnitude.toNat : ℤ) else s.magnitude.toNat

theorem SignedSum.abs_toInt (s : SignedSum) : |s.toInt| = s.magnitude.toNat := by
  unfold SignedSum.toInt
  split <;> simp

/-- **Signed addition is exact** while the magnitudes leave room; cancelling terms may pass through
any magnitude. -/
theorem addSignedProduct_toInt (sum : SignedSum) (productNegative : Bool) (product : UInt192)
    (h : |sum.toInt| + product.toNat < 2 ^ 192) :
    (addSignedProduct sum productNegative product).toInt =
      sum.toInt + (⟨productNegative, product⟩ : SignedSum).toInt := by
  rw [sum.abs_toInt] at h
  obtain ⟨negative, magnitude⟩ := sum
  unfold addSignedProduct
  -- the branches of the source: no product, no sum, equal signs, then the larger magnitude
  by_cases hp : isZero product
  · have := (UInt192.isZero_iff product).1 hp
    simp [hp, SignedSum.toInt, this]
  by_cases hm : isZero magnitude
  · have := (UInt192.isZero_iff magnitude).1 hm
    simp [hp, hm, SignedSum.toInt, this]
  by_cases hsign : negative = productNegative
  · have hadd : (addAssign magnitude product).toNat = magnitude.toNat + product.toNat := by
      rw [UInt192.toNat_addAssign, Nat.mod_eq_of_lt (by simp only at h; omega)]
    subst hsign
    cases negative <;> simp [hp, hm, SignedSum.toInt, hadd]
    omega
  by_cases hzero : compare192 magnitude product = 0
  · have := (UInt192.compare_eq_zero magnitude product).1 hzero
    cases negative <;> cases productNegative <;> simp_all [SignedSum.toInt]
  by_cases hpos : compare192 magnitude product > 0
  · have hlt := (UInt192.compare_pos magnitude product).1 hpos
    have hsub := UInt192.toNat_subtract (a := magnitude) (b := product) hlt.le
    cases negative <;> cases productNegative <;>
      simp_all [SignedSum.toInt] <;> omega
  · have hlt : magnitude.toNat ≤ product.toNat := by
      have := mt (UInt192.compare_pos magnitude product).2 hpos
      omega
    have hsub := UInt192.toNat_subtract (a := product) (b := magnitude) hlt
    simp only [hp, hm, hsign, hzero, hpos, if_false, Bool.false_eq_true]
    cases negative <;> cases productNegative <;>
      simp_all [SignedSum.toInt] <;> omega

/-! ### The stores -/

/-- The word below `2 ^ 63` read as a signed word. -/
theorem toInt64_toInt {w : UInt64} (h : w.toNat < 2 ^ 63) : w.toInt64.toInt = w.toNat := by
  have hc := BitVec.toInt_eq_toNat_cond w.toBitVec
  change w.toInt64.toInt = (if 2 * w.toNat < 2 ^ 64 then (w.toNat : ℤ)
    else (w.toNat : ℤ) - (2 ^ 64 : ℕ)) at hc
  rw [hc, if_pos (by omega)]

theorem int64_eq_ofInt {x : Int64} {d : ℤ} (h : x.toInt = d) : x = Int64.ofInt d := by
  rw [← h, Int64.ofInt_toInt]

/-- The range test of the stores, for a limit of one word. -/
theorem UInt192.exceeds_iff (x : UInt192) (limit : UInt64) :
    (x.hi ≠ 0 ∨ x.mid ≠ 0 ∨ x.lo > limit) ↔ limit.toNat < x.toNat := by
  have hl := limit.toNat_lt
  have h0 := x.lo.toNat_lt
  simp only [toNat, gt_iff_lt, UInt64.lt_iff_toNat_lt, ne_eq, ← UInt64.toNat_inj, UInt64.toNat_zero]
  omega

/-- A number of one word is its low word. -/
theorem UInt192.toNat_eq_lo {x : UInt192} (h : x.toNat < 2 ^ 64) : x.toNat = x.lo.toNat := by
  have h0 := x.lo.toNat_lt
  simp only [toNat] at h ⊢
  omega

/-- **The signed store** takes exactly the values of `int64_t`, `-2 ^ 63` among them. -/
theorem storeI64_eq (s : SignedSum) : storeI64 s =
    if -2 ^ 63 ≤ s.toInt ∧ s.toInt < 2 ^ 63 then (false, Int64.ofInt s.toInt) else (true, 0) := by
  obtain ⟨negative, magnitude⟩ := s
  have hmax : Int64.maxValue.toUInt64.toNat = 2 ^ 63 - 1 := by decide +kernel
  have hmin : int64MinAbs.toNat = 2 ^ 63 := by decide +kernel
  cases negative with
  | false =>
    have hval : SignedSum.toInt ⟨false, magnitude⟩ = magnitude.toNat := rfl
    simp only [storeI64, Bool.not_false, if_true, magnitude.exceeds_iff, hmax, hval]
    by_cases hover : 2 ^ 63 - 1 < magnitude.toNat
    · rw [if_pos hover, if_neg (by omega)]
    · rw [if_neg hover, if_pos (by omega)]
      have hlo := magnitude.toNat_eq_lo (by omega)
      rw [int64_eq_ofInt (toInt64_toInt (w := magnitude.lo) (by omega)), hlo]
  | true =>
    have hval : SignedSum.toInt ⟨true, magnitude⟩ = -magnitude.toNat := rfl
    simp only [storeI64, Bool.not_true, Bool.false_eq_true, if_false, magnitude.exceeds_iff, hmin, hval]
    by_cases hover : 2 ^ 63 < magnitude.toNat
    · rw [if_pos hover, if_neg (by omega)]
    · have hrange : -2 ^ 63 ≤ -(magnitude.toNat : ℤ) ∧ -(magnitude.toNat : ℤ) < 2 ^ 63 := by omega
      rw [if_neg hover, if_pos hrange]
      have hlo := magnitude.toNat_eq_lo (by omega)
      -- the least `int64_t` has no negation in its type
      by_cases hedge : magnitude.lo = int64MinAbs
      · rw [if_pos hedge, hlo, hedge, hmin]
        decide +kernel
      · have hlo63 : magnitude.lo.toNat < 2 ^ 63 := by
          rw [← UInt64.toNat_inj, hmin] at hedge
          omega
        have hneg : (-magnitude.lo.toInt64).toInt = -(magnitude.lo.toNat : ℤ) := by
          rw [Int64.toInt_neg, toInt64_toInt hlo63]
          exact Int.bmod_eq_of_le (by omega) (by omega)
        rw [if_neg hedge, int64_eq_ofInt hneg, hlo]

/-- **The unsigned store** keeps the low word and reports what does not fit it. -/
theorem storeU64_eq (x : UInt192) :
    storeU64 x = (decide (2 ^ 64 ≤ x.toNat), UInt64.ofNat x.toNat) := by
  obtain ⟨lo, mid, hi⟩ := x
  have h0 := lo.toNat_lt
  have hlow : lo = UInt64.ofNat (⟨lo, mid, hi⟩ : UInt192).toNat := by
    rw [← UInt64.toNat_inj, UInt64.toNat_ofNat']
    simp only [UInt192.toNat]
    omega
  have hflag : (hi ≠ 0 ∨ mid ≠ 0) ↔ 2 ^ 64 ≤ (⟨lo, mid, hi⟩ : UInt192).toNat := by
    simp only [UInt192.toNat, ne_eq, ← UInt64.toNat_inj, UInt64.toNat_zero]
    omega
  simp only [storeU64, ← hlow, hflag]

end Rns8
