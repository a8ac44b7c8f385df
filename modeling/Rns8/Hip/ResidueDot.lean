import Rns8.Hip.KBlocks
import Rns8.Hip.Reducer

/-!
# The blocked residue dot product

`residue_dot.hpp`: the dot product of two residue vectors in blocks of `kResidueDotKBlock` positions,
accumulated in an `int32_t` and reduced after each block. The block is short enough for the
accumulator, and the reduced partial product is carried into the next block.
-/

namespace Rns8

open Finset

/-- `kResidueDotKBlock`. -/
def kResidueDotKBlock : ℕ := safeInt32KBlock

/-- `accumulator += a[i] * b[i * b_stride]`. -/
def residueDotStep (a b : ℤ → Int8) (bStride : ℤ) (accumulator : Int32) (i : ℕ) : Int32 :=
  accumulator + (a i).toInt32 * (b (i * bStride)).toInt32

/-- The inner loop of `centered_residue_dot` over the first `n` positions of a block. -/
def residueDotBlock (a b : ℤ → Int8) (bStride : ℤ) (offset n : ℕ) : Int32 :=
  (List.range' offset n).foldl (residueDotStep a b bStride) 0

/-- One pass of the outer loop: the block's accumulator takes in the reduced value. -/
def residueDotPass (a b : ℤ → Int8) (bStride : ℤ) (modulus reciprocal : UInt32) (reduced : Int8)
    (r : KBlock) : Int8 :=
  reduceToCenteredI32 (residueDotBlock a b bStride r.kOffset r.kBlock + reduced.toInt32) modulus
    reciprocal

/-- `centered_residue_dot`. -/
def centeredResidueDot (a b : ℤ → Int8) (k : ℕ) (bStride : ℤ) (modulus : UInt32) : Int8 :=
  (kBlocks k).foldl (residueDotPass a b bStride modulus (modulusReciprocalU32 modulus)) 0

/-- The exact dot product of positions `offset` to `offset + n`. -/
def exactDot (a b : ℤ → Int8) (bStride : ℤ) (offset n : ℕ) : ℤ :=
  ∑ i ∈ range n, (a (offset + i : ℕ)).toInt * (b ((offset + i : ℕ) * bStride)).toInt

section Dot

variable (a b : ℤ → Int8) (bStride : ℤ) (offset : ℕ)

theorem exactDot_succ (n : ℕ) : exactDot a b bStride offset (n + 1) = exactDot a b bStride offset n +
    (a (offset + n : ℕ)).toInt * (b ((offset + n : ℕ) * bStride)).toInt :=
  sum_range_succ _ _

/-- A product of two bytes. -/
theorem abs_byte_mul_le (x y : Int8) : |x.toInt * y.toInt| ≤ 128 * 128 := by
  have hx : |x.toInt| ≤ 128 := abs_le.2 ⟨by have := x.le_toInt; omega, by have := x.toInt_lt; omega⟩
  have hy : |y.toInt| ≤ 128 := abs_le.2 ⟨by have := y.le_toInt; omega, by have := y.toInt_lt; omega⟩
  rw [abs_mul]
  exact mul_le_mul hx hy (abs_nonneg _) (by norm_num)

theorem abs_exactDot_le (n : ℕ) : |exactDot a b bStride offset n| ≤ n * (128 * 128) := by
  induction n with
  | zero => simp [exactDot]
  | succ n ih =>
    rw [exactDot_succ]
    have h := abs_byte_mul_le (a (offset + n : ℕ)) (b ((offset + n : ℕ) * bStride))
    calc |exactDot a b bStride offset n + _| ≤ |exactDot a b bStride offset n| + _ := abs_add_le _ _
      _ ≤ n * (128 * 128) + 128 * 128 := add_le_add ih h
      _ = ((n + 1 : ℕ) : ℤ) * (128 * 128) := by push_cast; ring

/-- Two words whose sum is small add exactly. -/
theorem int32_toInt_add {x y : Int32} (hlo : -2 ^ 31 ≤ x.toInt + y.toInt)
    (hhi : x.toInt + y.toInt < 2 ^ 31) : (x + y).toInt = x.toInt + y.toInt := by
  rw [Int32.toInt_add]
  exact Int.bmod_eq_of_le (by omega) (by omega)

/-- **No accumulator of a block overflows**: after every pass it holds the exact partial product. -/
theorem residueDotBlock_toInt {n : ℕ} (hn : n ≤ kResidueDotKBlock) :
    (residueDotBlock a b bStride offset n).toInt = exactDot a b bStride offset n := by
  simp only [kResidueDotKBlock, safeInt32KBlock] at hn
  induction n with
  | zero => rfl
  | succ n ih =>
    have hbound := abs_le.1 (abs_exactDot_le a b bStride offset (n + 1))
    have hmul : ((a (offset + n : ℕ)).toInt32 * (b ((offset + n : ℕ) * bStride)).toInt32).toInt =
        (a (offset + n : ℕ)).toInt * (b ((offset + n : ℕ) * bStride)).toInt := by
      have h := abs_le.1 (abs_byte_mul_le (a (offset + n : ℕ)) (b ((offset + n : ℕ) * bStride)))
      rw [Int32.toInt_mul, Int8.toInt_toInt32, Int8.toInt_toInt32]
      exact Int.bmod_eq_of_le (by omega) (by omega)
    rw [exactDot_succ] at hbound ⊢
    unfold residueDotBlock at ih ⊢
    rw [List.range'_concat, List.foldl_append, List.foldl_cons, List.foldl_nil, residueDotStep,
      Nat.one_mul, int32_toInt_add, ih (by omega), hmul]
    · rw [ih (by omega), hmul]
      omega
    · rw [ih (by omega), hmul]
      omega

/-- The carried residue fits next to a full block. -/
theorem residueDotBlock_add_toInt {n : ℕ} (hn : n ≤ kResidueDotKBlock) (reduced : Int8) :
    (residueDotBlock a b bStride offset n + reduced.toInt32).toInt =
      exactDot a b bStride offset n + reduced.toInt := by
  have hbound := abs_le.1 (abs_exactDot_le a b bStride offset n)
  have hlo := reduced.le_toInt
  have hhi := reduced.toInt_lt
  have hdot := residueDotBlock_toInt a b bStride offset hn
  simp only [kResidueDotKBlock, safeInt32KBlock] at hn
  rw [int32_toInt_add, hdot, Int8.toInt_toInt32] <;> rw [hdot, Int8.toInt_toInt32] <;> omega

/-- **The blocked dot product is the centered residue of the exact one.** -/
theorem centeredResidueDot_eq {modulus : UInt32} (h : DeviceModulus modulus) (k : ℕ) :
    centeredResidueDot a b k bStride modulus =
      reduceToCentered (exactDot a b bStride 0 k) modulus.toNat := by
  have hpos : 0 < modulus.toNat := by have := h.1; omega
  refine kBlocks_invariant (fun n reduced => reduced =
    reduceToCentered (exactDot a b bStride 0 n) modulus.toNat) (fun reduced r hr hreduced => ?_) ?_
  · have hsplit : exactDot a b bStride 0 (r.kOffset + r.kBlock) =
        exactDot a b bStride 0 r.kOffset + exactDot a b bStride r.kOffset r.kBlock := by
      unfold exactDot
      rw [sum_range_add]
      simp only [Nat.zero_add]
    rw [residueDotPass, reduceToCenteredI32_eq _ h, residueDotBlock_add_toInt a b bStride _ hr.safe,
      hsplit, hreduced, reduceToCentered_eq, reduceToCentered_eq, reduceToCentered_eq]
    refine centeredResidue_congr hpos h.2 ?_
    rw [add_comm]
    exact (centeredResidue_modEq _ hpos h.2).add_right _
  · rw [reduceToCentered_eq]
    exact (centeredResidue_zero hpos).symm

end Dot

end Rns8
