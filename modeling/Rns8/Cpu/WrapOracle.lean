import Rns8.Lib.ByteLimbs
import Rns8.Lib.DigitColumns
import Rns8.Lib.LoopFold

/-!
# The byte-plane oracle of the wrapping GEMM

`wrap64_reference.cpp`. The oracle multiplies signed bytes, corrects the products to those of the
unsigned bytes, collects the 36 products below the eighth diagonal and carries the diagonals into the
bytes of a word.
-/

namespace Rns8

open ByteLimbs DigitColumns LoopFold

/-! ### Byte products -/

/-- `wrap64_signed_i8_lane_value`. -/
def wrap64SignedI8LaneValue (value : UInt8) : Int32 :=
  if value < 128 then Int32.ofNat value.toNat else Int32.ofNat value.toNat - 256

/-- `wrap64_signed_i8_product_correction`. -/
def wrap64SignedI8ProductCorrection (a b : UInt8) : Int32 :=
  let aHigh := Int32.ofNat (a >>> 7).toNat
  let bHigh := Int32.ofNat (b >>> 7).toNat
  aHigh * Int32.ofNat b.toNat * 256 + bHigh * Int32.ofNat a.toNat * 256 -
    (aHigh &&& bHigh) * 65536

/-- `wrap64_unsigned_byte_product_from_signed_i8`. -/
def wrap64UnsignedByteProductFromSignedI8 (a b : UInt8) : UInt32 :=
  (wrap64SignedI8LaneValue a * wrap64SignedI8LaneValue b +
    wrap64SignedI8ProductCorrection a b).toUInt32

/-- `wrap64_byte_limb_product`. -/
def wrap64ByteLimbProduct (a b : UInt64) : UInt64 := a * b

/-! ### Diagonals -/

/-- `accumulate_wrap64_low_diagonals_from_limbs`, and the loops over `a_limb` and `b_limb` of
`wrap64_low_diagonal_byte_pair_gemm_cell`. -/
def accumulateWrap64LowDiagonalsFromLimbs (aLimbs bLimbs : ℕ → UInt8) (diagonals : ℕ → ℕ) : ℕ → ℕ :=
  (List.range 8).foldl (fun diagonals aLimb =>
    (List.range (8 - aLimb)).foldl (fun diagonals bLimb =>
      Function.update diagonals (aLimb + bLimb) (diagonals (aLimb + bLimb) +
        (wrap64UnsignedByteProductFromSignedI8 (aLimbs aLimb) (bLimbs bLimb)).toNat)) diagonals)
    diagonals

/-- `wrap64_low64_from_diagonals`: the word and the carry of each pass. -/
def wrap64Low64FromDiagonals (diagonals : ℕ → ℕ) : UInt64 :=
  ((List.range 8).foldl (fun (out, carry) diagonal =>
    let column := diagonals diagonal + carry
    (out ||| (UInt64.ofNat (column % 256) <<< UInt64.ofNat (8 * diagonal)), column / 256))
    ((0 : UInt64), 0)).1

/-- `wrap64_low_diagonal_byte_pair_gemm_cell`. -/
def wrap64LowDiagonalBytePairGemmCell (A : ℕ → UInt64) (lda : ℕ) (B : ℕ → UInt64) (ldb row col k : ℕ) :
    UInt64 :=
  wrap64Low64FromDiagonals ((List.range k).foldl (fun diagonals kk =>
    accumulateWrap64LowDiagonalsFromLimbs (limb (A (row * lda + kk))) (limb (B (kk * ldb + col)))
      diagonals) fun _ => 0)

/-- `wrap64_byte_limb_gemm_cell`. -/
def wrap64ByteLimbGemmCell (A : ℕ → UInt64) (lda : ℕ) (B : ℕ → UInt64) (ldb row col k : ℕ) : UInt64 :=
  (List.range k).foldl (fun acc kk =>
    acc + wrap64ByteLimbProduct (A (row * lda + kk)) (B (kk * ldb + col))) 0

/-! ### What the oracle computes -/

private theorem shiftRight_seven (a : UInt8) : (a >>> 7).toNat = if a < 128 then 0 else 1 := by
  have ha := a.toNat_lt
  have h : (a >>> 7).toNat = a.toNat / 128 := by
    rw [UInt8.toNat_shiftRight]
    exact Nat.shiftRight_eq_div_pow a.toNat 7
  rw [h]
  split
  · next hlt =>
    have := UInt8.lt_iff_toNat_lt.1 hlt
    exact Nat.div_eq_of_lt this
  · next hge =>
    have : ¬ a.toNat < 128 := fun hlt => hge (UInt8.lt_iff_toNat_lt.2 hlt)
    omega

/-- **The corrected product** of signed bytes is that of the unsigned bytes. -/
theorem wrap64UnsignedByteProductFromSignedI8_toNat (a b : UInt8) :
    (wrap64UnsignedByteProductFromSignedI8 a b).toNat = a.toNat * b.toNat := by
  have hmul : a.toNat * b.toNat < 2 ^ 32 := by
    have ha := a.toNat_lt
    have hb := b.toNat_lt
    nlinarith
  have hproduct : wrap64SignedI8LaneValue a * wrap64SignedI8LaneValue b +
      wrap64SignedI8ProductCorrection a b = Int32.ofNat a.toNat * Int32.ofNat b.toNat := by
    unfold wrap64SignedI8LaneValue wrap64SignedI8ProductCorrection
    simp only [shiftRight_seven]
    have hzero : Int32.ofNat 0 = 0 := rfl
    have hone : Int32.ofNat 1 = 1 := rfl
    have hand00 : (0 &&& 0 : Int32) = 0 := by decide
    have hand01 : (0 &&& 1 : Int32) = 0 := by decide
    have hand10 : (1 &&& 0 : Int32) = 0 := by decide
    have hand11 : (1 &&& 1 : Int32) = 1 := by decide
    split_ifs <;> simp only [hzero, hone, hand00, hand01, hand10, hand11] <;> grind
  rw [wrap64UnsignedByteProductFromSignedI8, hproduct, ← Int32.ofNat_mul, Int32.toUInt32_ofNat',
    UInt32.toNat_ofNat', Nat.mod_eq_of_lt hmul]
/-- The column of the byte products of two words. -/
theorem column_eq_limbs (x y : UInt64) {d : ℕ} (hd : d < 8) :
    column 256 x.toNat y.toNat d =
      ∑ i ∈ Finset.range (d + 1), (limb x i).toNat * (limb y (d - i)).toNat := by
  refine Finset.sum_congr rfl fun i hi => ?_
  have hi := Finset.mem_range.1 hi
  rw [limb_toNat x (by omega), limb_toNat y (by omega), digit, digit, pow_mul, pow_mul]
  norm_num

/-- **One pass over the byte pairs** adds the columns of the byte products. -/
theorem accumulateWrap64LowDiagonalsFromLimbs_apply (a b : ℕ → UInt8) (diagonals : ℕ → ℕ) {d : ℕ}
    (hd : d < 8) : accumulateWrap64LowDiagonalsFromLimbs a b diagonals d =
      diagonals d + ∑ i ∈ Finset.range (d + 1), (a i).toNat * (b (d - i)).toNat := by
  -- a limb of `a` meets diagonal `d` in one limb of `b`, if any
  have hinner : ∀ diagonals : ℕ → ℕ, ∀ aLimb < 8,
      (List.range (8 - aLimb)).foldl (fun diagonals bLimb =>
        Function.update diagonals (aLimb + bLimb) (diagonals (aLimb + bLimb) +
          (wrap64UnsignedByteProductFromSignedI8 (a aLimb) (b bLimb)).toNat)) diagonals d =
      diagonals d + if aLimb < d + 1 then (a aLimb).toNat * (b (d - aLimb)).toNat else 0 := by
    intro diagonals aLimb hlimb
    refine (foldl_range_read_add (fun diagonals : ℕ → ℕ => diagonals d)
      (fun bLimb => if bLimb = d - aLimb ∧ aLimb < d + 1 then
        (a aLimb).toNat * (b (d - aLimb)).toNat else 0) _ ?_ diagonals).trans ?_
    rotate_left
    · congr 1
      by_cases hle : aLimb < d + 1
      · simp only [hle, and_true, if_true]
        rw [Finset.sum_ite_eq', if_pos (Finset.mem_range.2 (by omega))]
      · simp [hle]
    · intro diagonals bLimb hb
      rw [wrap64UnsignedByteProductFromSignedI8_toNat]
      by_cases hdiag : aLimb + bLimb = d
      · subst hdiag
        rw [Function.update_self, if_pos (by omega), Nat.add_sub_cancel_left]
      · rw [Function.update_of_ne (Ne.symm hdiag), if_neg (by omega), Nat.add_zero]
  unfold accumulateWrap64LowDiagonalsFromLimbs
  refine (foldl_range_read_add (fun diagonals : ℕ → ℕ => diagonals d) _ 8 hinner diagonals).trans ?_
  congr 1
  rw [Finset.sum_ite, Finset.sum_const_zero, Nat.add_zero]
  refine Finset.sum_congr (Finset.ext fun i => ?_) fun _ _ => rfl
  rw [Finset.mem_filter, Finset.mem_range, Finset.mem_range]
  omega

/-- **The carry chain** leaves the low word of the number that the diagonals make up. -/
theorem wrap64Low64FromDiagonals_eq (diagonals : ℕ → ℕ) :
    wrap64Low64FromDiagonals diagonals =
      UInt64.ofNat (∑ d ∈ Finset.range 8, diagonals d * 256 ^ d) := by
  have hstate : ∀ n, (List.range n).foldl (fun (s : UInt64 × ℕ) diagonal =>
      (s.1 ||| (UInt64.ofNat ((diagonals diagonal + s.2) % 256) <<< UInt64.ofNat (8 * diagonal)),
        (diagonals diagonal + s.2) / 256)) ((0 : UInt64), 0) =
      (loadFirst (fun d => UInt8.ofNat (carried 256 diagonals d)) n, carry 256 diagonals n) := by
    intro n
    induction n with
    | zero => rfl
    | succ n ih =>
      rw [List.range_succ, List.foldl_append, ih]
      refine Prod.ext ?_ rfl
      change _ ||| _ = _ ||| _
      congr 2
      rw [← UInt64.toNat_inj, UInt8.toNat_toUInt64, UInt8.toNat_ofNat', UInt64.toNat_ofNat']
      change (carried 256 diagonals n) % 2 ^ 64 = carried 256 diagonals n % 2 ^ 8
      have hlt := carried_lt (show 0 < 256 by decide) diagonals n
      omega
  have hword : (wrap64Low64FromDiagonals diagonals).toNat =
      ∑ d ∈ Finset.range 8, carried 256 diagonals d * 256 ^ d := by
    unfold wrap64Low64FromDiagonals
    rw [hstate 8, loadFirst_toNat _ (le_refl 8)]
    refine Finset.sum_congr rfl fun d _ => ?_
    have hlt := carried_lt (show 0 < 256 by decide) diagonals d
    rw [UInt8.toNat_ofNat', Nat.mod_eq_of_lt hlt]
  rw [← UInt64.toNat_inj, hword, sum_carried_eq (by decide), UInt64.toNat_ofNat']
  norm_num

/-- The sum that every wrapping GEMM computes. -/
def wrapDot (k : ℕ) (u v : ℕ → UInt64) : UInt64 :=
  UInt64.ofNat (∑ kk ∈ Finset.range k, (u kk).toNat * (v kk).toNat)

/-- The columns of a dot product make up its low word. -/
theorem sum_columns_word (k : ℕ) (u v : ℕ → UInt64) :
    UInt64.ofNat (∑ d ∈ Finset.range 8,
      (∑ kk ∈ Finset.range k, column 256 (u kk).toNat (v kk).toNat d) * 256 ^ d) = wrapDot k u v := by
  have hmod := sum_columns_modEq 256 8 k (fun kk => (u kk).toNat) fun kk => (v kk).toNat
  rw [wrapDot, ← UInt64.toNat_inj, UInt64.toNat_ofNat', UInt64.toNat_ofNat']
  exact hmod

/-- **The oracle computes the sum of products** modulo `2 ^ 64`. -/
theorem wrap64LowDiagonalBytePairGemmCell_eq (A : ℕ → UInt64) (lda : ℕ) (B : ℕ → UInt64)
    (ldb row col k : ℕ) : wrap64LowDiagonalBytePairGemmCell A lda B ldb row col k =
      wrapDot k (fun kk => A (row * lda + kk)) fun kk => B (kk * ldb + col) := by
  rw [wrap64LowDiagonalBytePairGemmCell, wrap64Low64FromDiagonals_eq, ← sum_columns_word]
  congr 1
  refine Finset.sum_congr rfl fun d hd => ?_
  have hd := Finset.mem_range.1 hd
  have hpass : ∀ diagonals : ℕ → ℕ, ∀ kk < k,
      accumulateWrap64LowDiagonalsFromLimbs (limb (A (row * lda + kk))) (limb (B (kk * ldb + col)))
        diagonals d = diagonals d +
          column 256 (A (row * lda + kk)).toNat (B (kk * ldb + col)).toNat d := fun diagonals kk _ => by
    rw [accumulateWrap64LowDiagonalsFromLimbs_apply _ _ _ hd, column_eq_limbs _ _ hd]
  exact congrArg (· * 256 ^ d) ((foldl_range_read_add (fun diagonals : ℕ → ℕ => diagonals d) _ k hpass
    fun _ => 0).trans
    (Nat.zero_add _))

theorem wrap64ByteLimbGemmCell_eq (A : ℕ → UInt64) (lda : ℕ) (B : ℕ → UInt64) (ldb row col k : ℕ) :
    wrap64ByteLimbGemmCell A lda B ldb row col k =
      wrapDot k (fun kk => A (row * lda + kk)) fun kk => B (kk * ldb + col) := by
  unfold wrap64ByteLimbGemmCell wrapDot
  induction k with
  | zero => rfl
  | succ k ih =>
    rw [List.range_succ, List.foldl_append, ih, Finset.sum_range_succ, UInt64.ofNat_add,
      UInt64.ofNat_mul, UInt64.ofNat_toNat, UInt64.ofNat_toNat]
    rfl

end Rns8
