import Rns8.Core.Types
import Rns8.Hip.VectorSums
import Rns8.Lib.LoopFold
import Rns8.Lib.TreeReduction

/-!
# The vector ALU kernels

The three kernels of `vector_alu_kernels.hip`: one thread a cell, one block a row with a tree
reduction, and one block a row that carries up to eight columns. The `int64_t` and `uint64_t` kernels
have the same loops over different helpers, so that each is one definition over a `VectorArith`. A
launch runs its threads in an arbitrary order (`VectorSchedule`), between two barriers of a block as
well as across the grid.
-/

namespace Rns8

open Finset TreeReduction

variable {α σ : Type}

/-! ### The kernels -/

/-- What the kernels of one element type compute with. -/
structure VectorArith (α σ : Type) where
  zero : σ
  addProduct : σ → α → α → σ
  merge : σ → σ → σ
  store : σ → Bool × α

/-- The helpers of the `i64` kernels. -/
def i64Arith : VectorArith Int64 SignedSum where
  zero := ⟨false, zero192⟩
  addProduct sum av bv := addSignedProduct sum (decide (av < 0) != decide (bv < 0))
    (productU64U64 (absI64ToU64 av) (absI64ToU64 bv))
  merge lhs rhs := addSignedProduct lhs rhs.negative rhs.magnitude
  store := storeI64

/-- The helpers of the `u64` kernels. -/
def u64Arith : VectorArith UInt64 UInt192 where
  zero := zero192
  addProduct acc av bv := addAssign acc (productU64U64 av bv)
  merge := addAssign
  store := storeU64

/-- `c` and the status word. -/
structure VectorOut (α : Type) where
  status : UInt32
  c : ℕ → α

/-- `atomicOr(status, 1u)` where the sum is out of range, and the store to `c`. -/
def storeCell (out : VectorOut α) (index : ℕ) (cell : Bool × α) : VectorOut α :=
  ⟨if cell.1 then out.status ||| 1 else out.status, Function.update out.c index cell.2⟩

/-- `kGemvN1BlockSize`. -/
def kGemvN1BlockSize : ℕ := 256

/-- `kGemvSmallNMaxN`. -/
def kGemvSmallNMaxN : ℕ := 8

/-- A thread of the `16 × 16` blocks. -/
structure CellThread where
  blockX : ℕ
  blockY : ℕ
  threadX : ℕ
  threadY : ℕ

/-- The thread's row, in `unsigned int`. -/
def CellThread.row (t : CellThread) : ℕ := (t.blockY * 16 + t.threadY) % 2 ^ 32

/-- The thread's column, in `unsigned int`. -/
def CellThread.col (t : CellThread) : ℕ := (t.blockX * 16 + t.threadX) % 2 ^ 32

/-- The grid of the serial launch. -/
def cellThreads (m n : ℕ) : List CellThread :=
  (List.range ((m + 15) / 16)).flatMap fun blockY => (List.range ((n + 15) / 16)).flatMap fun blockX =>
    (List.range 16).flatMap fun threadY => (List.range 16).map fun threadX =>
      ⟨blockX, blockY, threadX, threadY⟩

section Kernels

variable (arith : VectorArith α σ) (a b : ℕ → α) (m n k : ℕ)

/-- The loop of `gemm_i64_kernel` and `gemm_u64_kernel`. -/
def serialSum (row col : ℕ) : σ :=
  (List.range k).foldl
    (fun sum kk => arith.addProduct sum (a (row * k + kk)) (b (kk * n + col))) arith.zero

/-- One thread of `gemm_i64_kernel` and `gemm_u64_kernel`. -/
def gemmThread (out : VectorOut α) (t : CellThread) : VectorOut α :=
  if t.row ≥ m ∨ t.col ≥ n then out
  else storeCell out (t.row * n + t.col) (arith.store (serialSum arith a b n k t.row t.col))

/-- The serial kernels. -/
def gemmKernel (order : List CellThread) (out : VectorOut α) : VectorOut α :=
  order.foldl (gemmThread arith a b m n k) out

/-- The partial sum of a thread of the `gemv_n1` kernels. -/
def gemvN1Partial (threads row thread : ℕ) : σ :=
  (stridedIndices threads k thread).foldl
    (fun sum kk => arith.addProduct sum (a (row * k + kk)) (b kk)) arith.zero

/-- A block of the `gemv_n1` kernels, up to its store. -/
def gemvN1Block (threads : ℕ) (passes : ℕ → List ℕ) (row : ℕ) : σ :=
  treeReduce arith.merge threads passes (gemvN1Partial arith a b k threads row) 0

/-- The `gemv_n1` kernels. -/
def gemvN1Kernel (threads : ℕ) (passes : ℕ → ℕ → List ℕ) (blocks : List ℕ) (out : VectorOut α) :
    VectorOut α :=
  blocks.foldl (fun out row => if row ≥ m then out
    else storeCell out row (arith.store (gemvN1Block arith a b k threads (passes row) row))) out

/-- The column sums of a thread of the `gemv_small_n` kernels. -/
def smallNPartial (threads row thread : ℕ) : ℕ → σ :=
  (stridedIndices threads k thread).foldl
    (fun sums kk => (List.range n).foldl
      (fun sums col => Function.update sums col
        (arith.addProduct (sums col) (a (row * k + kk)) (b (kk * n + col)))) sums)
    fun _ => arith.zero

/-- The merge of two rows of partial sums; it goes through all eight columns. -/
def mergeColumns (lhs rhs : ℕ → σ) : ℕ → σ :=
  (List.range kGemvSmallNMaxN).foldl
    (fun lhs col => Function.update lhs col (arith.merge (lhs col) (rhs col))) lhs

/-- A block of the `gemv_small_n` kernels, up to its stores. -/
def smallNBlock (threads : ℕ) (passes : ℕ → List ℕ) (row : ℕ) : ℕ → σ :=
  treeReduce (mergeColumns arith) threads passes (smallNPartial arith a b n k threads row) 0

/-- The `gemv_small_n` kernels. -/
def gemvSmallNKernel (threads : ℕ) (passes : ℕ → ℕ → List ℕ) (blocks : List ℕ) (out : VectorOut α) :
    VectorOut α :=
  blocks.foldl (fun out row => if row ≥ m ∨ n ≤ 1 ∨ n > kGemvSmallNMaxN then out
    else (List.range n).foldl (fun out col => storeCell out (row * n + col)
      (arith.store (smallNBlock arith a b n k threads (passes row) row col))) out) out

end Kernels

/-- An order of a launch's threads: those of the serial grid, the blocks of a row kernel, and in each
block and merge pass its threads. -/
structure VectorSchedule (m n threads : ℕ) where
  cells : List CellThread
  blocks : List ℕ
  passes : ℕ → ℕ → List ℕ
  cells_perm : cells.Perm (cellThreads m n)
  blocks_perm : blocks.Perm (List.range m)
  passes_perm : ∀ block stride : ℕ, (passes block stride).Perm (List.range threads)

/-- `launch_vector_gemm`. -/
def launchVectorGemm (arith : VectorArith α σ) (a b : ℕ → α) (m n k : ℕ)
    (s : VectorSchedule m n kGemvN1BlockSize) (out : VectorOut α) : VectorOut α :=
  if n = 1 ∧ k ≥ 4096 then gemvN1Kernel arith a b m k kGemvN1BlockSize s.passes s.blocks out
  else if n > 1 ∧ n ≤ kGemvSmallNMaxN ∧ k ≥ 512 then
    gemvSmallNKernel arith a b m n k kGemvN1BlockSize s.passes s.blocks out
  else gemmKernel arith a b m n k s.cells out

/-- `checked_vector_shape`. -/
def checkedVectorShape (m n k : ℤ) : Bool :=
  decide (m > 0) && decide (n > 0) && decide (k > 0) && decide (m ≤ intMax) &&
    decide (n ≤ intMax) && decide (k ≤ intMax)

/-- `vector_alu_gemm_i64_device` and `vector_alu_gemm_u64_device` on a device that runs the launch. -/
def vectorAluGemmDevice (arith : VectorArith α σ) (a b : ℕ → α) (m n k : ℤ)
    (s : VectorSchedule m.toNat n.toNat kGemvN1BlockSize) (out : VectorOut α) :
    Status × VectorOut α :=
  if !checkedVectorShape m n k then (.invalidArgument, out)
  else (.success, launchVectorGemm arith a b m.toNat n.toNat k.toNat s out)

/-- `vector_alu_gemm_i64_device`. -/
def vectorAluGemmI64Device := vectorAluGemmDevice i64Arith

/-- `vector_alu_gemm_u64_device`. -/
def vectorAluGemmU64Device := vectorAluGemmDevice u64Arith

/-! ### Exact arithmetic -/

/-- The helpers compute on integers: `value` reads an element, `total` a sum, and the store is a
function `outcome` of the total. -/
structure VectorArith.Exact (arith : VectorArith α σ) (value : α → ℤ) (total : σ → ℤ)
    (outcome : ℤ → Bool × α) : Prop where
  zero : total arith.zero = 0
  addProduct : ∀ (x : σ) (av bv : α), |total x| + |value av * value bv| < 2 ^ 192 →
    total (arith.addProduct x av bv) = total x + value av * value bv
  merge : ∀ x y : σ, |total x| + |total y| < 2 ^ 192 → total (arith.merge x y) = total x + total y
  store : ∀ x : σ, arith.store x = outcome (total x)
  abs_mul_le : ∀ av bv : α, |value av * value bv| ≤ 2 ^ 128

/-- What the signed kernels store for an exact sum. -/
def i64Outcome (d : ℤ) : Bool × Int64 :=
  if -2 ^ 63 ≤ d ∧ d < 2 ^ 63 then (false, Int64.ofInt d) else (true, 0)

/-- What the unsigned kernels store for an exact sum. -/
def u64Outcome (d : ℤ) : Bool × UInt64 := (decide (2 ^ 64 ≤ d), UInt64.ofNat d.toNat)

theorem i64Product_toInt (av bv : Int64) :
    (⟨decide (av < 0) != decide (bv < 0), productU64U64 (absI64ToU64 av) (absI64ToU64 bv)⟩ :
      SignedSum).toInt = av.toInt * bv.toInt := by
  have hsign : ∀ v : Int64, decide (v < 0) = decide (v.toInt < 0) := fun v => by
    simp [Int64.lt_iff_toInt_lt]
  simp only [SignedSum.toInt, UInt192.toNat_product, Nat.cast_mul, absI64ToU64_toNat, hsign]
  by_cases ha : av.toInt < 0 <;> by_cases hb : bv.toInt < 0 <;>
    simp [abs_of_neg, abs_of_nonneg, not_lt.1, *]

theorem i64Arith_exact : i64Arith.Exact Int64.toInt SignedSum.toInt i64Outcome where
  zero := rfl
  addProduct x av bv h := by
    have hterm := i64Product_toInt av bv
    have hmag := SignedSum.abs_toInt
      ⟨decide (av < 0) != decide (bv < 0), productU64U64 (absI64ToU64 av) (absI64ToU64 bv)⟩
    rw [hterm] at hmag
    rw [hmag] at h
    exact (addSignedProduct_toInt x _ _ h).trans (by rw [hterm])
  merge x y h := addSignedProduct_toInt x y.negative y.magnitude (by rwa [← y.abs_toInt])
  store := storeI64_eq
  abs_mul_le av bv := by
    have habs : ∀ v : Int64, |v.toInt| ≤ 2 ^ 63 := fun v =>
      abs_le.2 ⟨by have := v.le_toInt; omega, by have := v.toInt_lt; omega⟩
    rw [abs_mul]
    calc |av.toInt| * |bv.toInt| ≤ 2 ^ 63 * 2 ^ 63 :=
          mul_le_mul (habs av) (habs bv) (abs_nonneg _) (by norm_num)
      _ ≤ 2 ^ 128 := by norm_num

theorem u64Arith_exact : u64Arith.Exact (fun v => (v.toNat : ℤ)) (fun x => (x.toNat : ℤ)) u64Outcome where
  zero := rfl
  addProduct x av bv h := by
    rw [Nat.abs_cast, ← Nat.cast_mul, Nat.abs_cast] at h
    have hsum := UInt192.toNat_addAssign x (productU64U64 av bv)
    rw [UInt192.toNat_product, Nat.mod_eq_of_lt (by exact_mod_cast h)] at hsum
    exact_mod_cast hsum
  merge x y h := by
    rw [Nat.abs_cast, Nat.abs_cast] at h
    have hsum := UInt192.toNat_addAssign x y
    rw [Nat.mod_eq_of_lt (by exact_mod_cast h)] at hsum
    exact_mod_cast hsum
  store x := by
    rw [u64Outcome, Int.toNat_natCast]
    exact (storeU64_eq x).trans (by norm_cast)
  abs_mul_le av bv := by
    rw [← Nat.cast_mul, Nat.abs_cast]
    have hlt : av.toNat * bv.toNat < 2 ^ 64 * 2 ^ 64 := Nat.mul_lt_mul'' av.toNat_lt bv.toNat_lt
    exact_mod_cast hlt.le

end Rns8
