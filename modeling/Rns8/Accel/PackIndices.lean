import Rns8.Hip.LaunchIndices

/-!
# Index arithmetic of the CK and rocWMMA GEMM

Both backends copy a K block of `A` and `B` into padded buffers, multiply the buffers with a vendor
kernel and store the tile in `C`. The copies and the stores compute their offsets in `int`; the plane
and tile offsets of the callers are computed in 64 bits. A tile of a schedule is a GEMM of the shape
of the tile, on the leading dimensions of the matrices.
-/

namespace Rns8

open IndexArith

/-- `round_up_aligned_i64`. -/
def roundUp (value alignment : ℕ) : ℕ :=
  if value % alignment = 0 then value else value + (alignment - value % alignment)

/-! ### Composable Kernel -/

/-- `kRns8CanonicalSafeInt32KBlock`. -/
def ckSafeKBlock : ℕ := 32768

/-- The passes of `for (k_offset = 0; k_offset < k; k_offset += kRns8CanonicalSafeInt32KBlock)`, whose
counter is an `int64_t`. -/
def ckLaunches (k : ℕ) : ℕ := (k + (ckSafeKBlock - 1)) / ckSafeKBlock

/-- `valid_k_block`. -/
def ckValidK (k i : ℕ) : ℕ :=
  if k - i * ckSafeKBlock < ckSafeKBlock then k - i * ckSafeKBlock else ckSafeKBlock

/-- `gemm_k_block`. -/
def ckGemmK (k i : ℕ) : ℕ := if ckValidK k i < 64 then 64 else ckValidK k i

section Values

variable {α : Type} [Add α] [Sub α] [Mul α] [Ops α]

/-- The launchers of the copies: `total`, `total + block - 1` and `grid`. -/
def launchIndices (rows cols : ℕ) : List α :=
  let total := lit rows * lit cols
  [total, total + lit 256 - lit 1, quot (total + lit 256 - lit 1) (lit 256)]

/-- `blockIdx.x * blockDim.x + threadIdx.x`, computed unsigned and converted. -/
def threadIndex (blockX threadX : ℕ) : α := lit ((blockX * 256 + threadX : ℕ) : ℤ)

/-- `pack_a_rowmajor_kernel` of the CK backend. -/
def ckPackAIndices (rows paddedRows validK gemmK lda kOffset blockX threadX : ℕ) : List α :=
  let index := threadIndex blockX threadX
  let total := lit paddedRows * lit gemmK
  let row := quot index (lit gemmK)
  let kk := index - row * lit gemmK
  [index, total] ++
    guarded (less index total) ([row, kk, row * lit gemmK + kk] ++
      guarded (less row (lit rows) && less kk (lit validK)) [row * lit lda + lit kOffset + kk])

/-- `pack_b_colmajor_kernel` of the CK backend. -/
def ckPackBIndices (validK gemmK n paddedN ldb kOffset blockX threadX : ℕ) : List α :=
  let index := threadIndex blockX threadX
  let total := lit gemmK * lit paddedN
  let kk := rem index (lit gemmK)
  let col := quot index (lit gemmK)
  [index, total] ++
    guarded (less index total) ([kk, col, col * lit gemmK + kk] ++
      guarded (less col (lit n) && less kk (lit validK)) [(lit kOffset + kk) * lit ldb + col])

/-- `copy_centered_residue_kernel` and `add_centered_residue_kernel`. -/
def ckCopyIndices (rows cols srcLd dstLd blockX threadX : ℕ) : List α :=
  let index := threadIndex blockX threadX
  let total := lit rows * lit cols
  let row := quot index (lit cols)
  let col := index - row * lit cols
  [index, total] ++
    guarded (less index total) [row, col, row * lit dstLd + col, row * lit srcLd + col]

end Values

/-- Every value of one pass of `run_ck_tile_modulus_impl` is exact. The output goes through the
workspace when it is padded and in every pass but the first. -/
def ckPassExact (alignment : ℕ) (s : GemmShape) (i : ℕ) : Prop :=
  let gemmM := roundUp s.m alignment
  let gemmN := roundUp s.n alignment
  let gemmK := ckGemmK s.k i
  Exact (fun _ => [lit gemmM, lit gemmN, lit (i * ckSafeKBlock : ℕ), lit (ckValidK s.k i),
    lit gemmK]) ∧
  Exact (fun _ => launchIndices gemmM gemmK) ∧
  (∀ blockX < (gemmM * gemmK + 255) / 256, ∀ threadX < 256, Exact fun _ =>
    ckPackAIndices s.m gemmM (ckValidK s.k i) gemmK s.lda (i * ckSafeKBlock) blockX threadX) ∧
  Exact (fun _ => launchIndices gemmK gemmN) ∧
  (∀ blockX < (gemmK * gemmN + 255) / 256, ∀ threadX < 256, Exact fun _ =>
    ckPackBIndices (ckValidK s.k i) gemmK s.n gemmN s.ldb (i * ckSafeKBlock) blockX threadX) ∧
  ((gemmM ≠ s.m ∨ gemmN ≠ s.n ∨ 0 < i) →
    Exact (fun _ => launchIndices s.m s.n) ∧
    ∀ blockX < (s.m * s.n + 255) / 256, ∀ threadX < 256, Exact fun _ =>
      ckCopyIndices s.m s.n gemmN s.ldc blockX threadX)

/-- Every value of a CK GEMM is exact. -/
def ckExact (alignment : ℕ) (s : GemmShape) : Prop := ∀ i < ckLaunches s.k, ckPassExact alignment s i

/-! ### rocWMMA -/

/-- `kRns8SignedSafeInt32KBlock`. -/
def wmmaSafeKBlock : ℕ := 65536

/-- `safe_k_block`. -/
def wmmaSafeK (k : ℕ) : ℕ := if k < wmmaSafeKBlock then k else wmmaSafeKBlock

/-- The passes of `for (k_offset = 0; k_offset < k; k_offset += safe_k_block)`. -/
def wmmaLaunches (k : ℕ) : ℕ := (k + (wmmaSafeK k - 1)) / wmmaSafeK k

/-- `valid_k_block`. -/
def wmmaValidK (k i : ℕ) : ℕ :=
  if k - i * wmmaSafeK k < wmmaSafeK k then k - i * wmmaSafeK k else wmmaSafeK k

/-- `gemm_k_block` of a block of `valid` positions. -/
def wmmaGemmK (valid : ℕ) : ℕ := roundUp (if valid < 16 then 16 else valid) 16

section Values

variable {α : Type} [Add α] [Sub α] [Mul α] [Ops α]

/-- The loop of `launch_pack_and_gemm`, whose counter is an `int`: `k_offset`, `valid_k_block` and the
counter after the pass. -/
def wmmaLoopIndices (k i : ℕ) : List α :=
  let safe : α := lit (wmmaSafeK k)
  let kOffset : α := counter safe i
  [kOffset, bif less (lit k - kOffset) safe then lit k - kOffset else safe, counter safe (i + 1)]

/-- `pack_a_rowmajor_kernel` of the rocWMMA backend; its grid is computed unsigned. -/
def wmmaPackAIndices (rows validK gemmK lda : ℕ) (kOffset : α) (row kk : ℕ) : List α :=
  [lit row, lit kk, lit row * lit gemmK + lit kk] ++
    guarded (less (lit row : α) (lit rows) && less (lit kk : α) (lit validK))
      [lit row * lit lda + kOffset + lit kk]

/-- `pack_b_colmajor_kernel` of the rocWMMA backend. -/
def wmmaPackBIndices (validK gemmK n ldb : ℕ) (kOffset : α) (col kk : ℕ) : List α :=
  [lit col, lit kk, lit col * lit gemmK + lit kk] ++
    guarded (less (lit col : α) (lit n) && less (lit kk : α) (lit validK))
      [(kOffset + lit kk) * lit ldb + lit col]

/-- `rocwmma_i8_residue_gemm_kernel` at a fragment `step` and an output cell of a block. -/
def wmmaGemmIndices (rows cols gemmK ldc : ℕ) (blockX blockY step localRow localCol : ℕ) : List α :=
  let tileCol : α := lit blockX * lit 16
  let tileRow : α := lit blockY * lit 16
  let kk : α := counter (lit 16) step
  let row := tileRow + lit localRow
  let col := tileCol + lit localCol
  [tileCol, tileRow, kk, tileRow * lit gemmK + kk, tileCol * lit gemmK + kk, row, col] ++
    guarded (less row (lit rows) && less col (lit cols)) [row * lit ldc + col]

/-- `pack_b_colmajor_prefix_kernel` and `pack_b_native_colmajor_prefix_kernel`, which continue in 64
bits from `kk` and `col`. -/
def wmmaPrepackIndices (col kk : ℕ) : List α := [lit kk, lit col]

end Values

/-- Every value of the matrix kernel over a padded output is exact. -/
def wmmaGemmExact (s : GemmShape) (gemmK : ℕ) : Prop :=
  ∀ blockY < roundUp s.m 16 / 16, ∀ blockX < roundUp s.n 16 / 16, ∀ step < gemmK / 16,
    ∀ localRow < 16, ∀ localCol < 16, Exact fun _ =>
      wmmaGemmIndices s.m s.n gemmK s.ldc blockX blockY step localRow localCol

/-- Every value of `launch_pack_and_gemm` is exact. -/
def wmmaExact (s : GemmShape) : Prop :=
  Exact (fun _ => [lit (roundUp s.m 16), lit (roundUp s.n 16)]) ∧
  ∀ i < wmmaLaunches s.k,
    let validK := wmmaValidK s.k i
    let gemmK := wmmaGemmK validK
    Exact (fun _ => wmmaLoopIndices s.k i) ∧ Exact (fun _ => [lit gemmK]) ∧
    (∀ row < roundUp s.m 16, ∀ kk < gemmK, Exact fun _ =>
      wmmaPackAIndices s.m validK gemmK s.lda (counter (lit (wmmaSafeK s.k)) i) row kk) ∧
    (∀ col < roundUp s.n 16, ∀ kk < gemmK, Exact fun _ =>
      wmmaPackBIndices validK gemmK s.n s.ldb (counter (lit (wmmaSafeK s.k)) i) col kk) ∧
    wmmaGemmExact s gemmK

/-- Every value of `prepack_b_rns_prefix` and `prepack_b_native_rns_prefix` is exact. -/
def wmmaPrepackExact (s : GemmShape) : Prop :=
  Exact (fun _ => [lit (roundUp s.n 16), lit (wmmaGemmK s.k)]) ∧
  ∀ col < roundUp s.n 16, ∀ kk < wmmaGemmK s.k, Exact fun _ => wmmaPrepackIndices col kk

/-- Every value of `launch_pack_a_and_gemm_prepacked_b` is exact. -/
def wmmaPrepackedExact (s : GemmShape) : Prop :=
  Exact (fun _ => [lit (roundUp s.m 16), lit (roundUp s.n 16), lit (wmmaGemmK s.k)]) ∧
  (∀ row < roundUp s.m 16, ∀ kk < wmmaGemmK s.k, Exact fun _ =>
    wmmaPackAIndices s.m s.k (wmmaGemmK s.k) s.lda (lit 0) row kk) ∧
  wmmaGemmExact s (wmmaGemmK s.k)

end Rns8
