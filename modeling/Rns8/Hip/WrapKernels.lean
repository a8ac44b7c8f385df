import Rns8.Cpu.WrapOracle
import Rns8.Hip.ShapeChecks
import Rns8.Lib.BlockLoop

/-!
# The byte-limb kernels of the wrapping GEMM

`wrap64_hip_kernels.hip` and the calls of `wrap64_hip.cpp`. A kernel is the list of stores of one
thread. The host checks keep every index far below the range of its type, so that indices are natural
numbers; the tiles in shared memory are filled by all threads of a block between two barriers, in any
order.
-/

namespace Rns8

open ByteLimbs BlockLoop

/-! ### Words in byte-limb storage -/

/-- `rns8_wrap64_compact_limb_index`, and `wrap64_compact_limb_index` of the other backends. -/
def wrap64CompactLimbIndex (row col cols limb : ℕ) : ℕ := (row * cols + col) * 8 + limb

/-- `rns8_store_u64_limbs_vectorized`: the little-endian bytes of the word. -/
def storeU64LimbsVectorized (dst : ℕ) (value : UInt64) : List (ℕ × UInt8) :=
  (List.range 8).map fun limb => (dst + limb, UInt8.ofNat (value.toNat / 256 ^ limb))

/-- `rns8_load_u64_limbs_vectorized`: the bytes as a little-endian word. -/
def loadU64LimbsVectorized (limbs : ℕ → UInt8) (src : ℕ) : UInt64 :=
  UInt64.ofNat (∑ limb ∈ Finset.range 8, (limbs (src + limb)).toNat * 256 ^ limb)

/-- `rns8_store_u64_limbs_scalar`. -/
def storeU64LimbsScalar (dst : ℕ) (value : UInt64) : List (ℕ × UInt8) :=
  (List.range 8).map fun limb =>
    (dst + limb, ((value >>> UInt64.ofNat (8 * limb)) &&& 0xff).toUInt8)

/-- `rns8_load_u64_limbs_scalar`. -/
def loadU64LimbsScalar (limbs : ℕ → UInt8) (src : ℕ) : UInt64 :=
  (List.range 8).foldl (fun value limb =>
    value ||| ((limbs (src + limb)).toUInt64 <<< UInt64.ofNat (8 * limb))) 0

/-- `rns8_wrap64_packed_limb_byte`. -/
def wrap64PackedLimbByte (value : UInt64) (limb : ℕ) : UInt8 :=
  ((value >>> UInt64.ofNat (8 * limb)) &&& 0xff).toUInt8

/-! ### Diagonals -/

/-- `rns8_wrap64_unsigned_byte_product`. -/
def wrap64UnsignedByteProduct (a b : UInt8) : UInt32 := a.toUInt32 * b.toUInt32

/-- The template parameter `Accumulator`: the conversions from a product and to a word. -/
structure WrapAccumulator (α : Type) where
  ofProduct : UInt32 → α
  toWord : α → UInt64

/-- `Accumulator = uint32_t`. -/
def u32Accumulator : WrapAccumulator UInt32 := ⟨id, UInt32.toUInt64⟩

/-- `Accumulator = uint64_t`. -/
def u64Accumulator : WrapAccumulator UInt64 := ⟨UInt32.toUInt64, id⟩

section Diagonals

variable {α : Type} [Add α] (accumulator : WrapAccumulator α)

/-- `rns8_wrap64_accumulate_byte_gemm36_from_packed_cells`: diagonal `d` gets the sum of the products
`a0 * bd`, `a1 * b(d-1)`, …, `ad * b0`. -/
def accumulateByteGemm36 (aValue bValue : UInt64) (diagonals : ℕ → α) : ℕ → α := fun d =>
  diagonals d + (List.range d).foldl
    (fun sum i => sum + accumulator.ofProduct (wrap64UnsignedByteProduct
      (wrap64PackedLimbByte aValue (i + 1)) (wrap64PackedLimbByte bValue (d - (i + 1)))))
    (accumulator.ofProduct (wrap64UnsignedByteProduct
      (wrap64PackedLimbByte aValue 0) (wrap64PackedLimbByte bValue d)))

/-- `rns8_wrap64_low64_from_diagonals`: the word and the carry of each pass. -/
def low64FromDiagonals (diagonals : ℕ → α) : UInt64 :=
  ((List.range 8).foldl (fun (value, carry) diagonal =>
    let column := accumulator.toWord (diagonals diagonal) + carry
    (value ||| ((column &&& 0xff) <<< UInt64.ofNat (8 * diagonal)), column >>> 8))
    ((0 : UInt64), (0 : UInt64))).1

/-- The diagonals of a thread after the given passes of its inner loop. -/
def wrapDiagonals [OfNat α 0] (passes : List (UInt64 × UInt64)) : ℕ → α :=
  passes.foldl (fun diagonals pass => accumulateByteGemm36 accumulator pass.1 pass.2 diagonals)
    fun _ => 0

end Diagonals

/-! ### Launches -/

/-- A thread of a two-dimensional grid. -/
structure WrapThread where
  blockX : ℕ
  blockY : ℕ
  threadX : ℕ
  threadY : ℕ
  deriving DecidableEq

/-- A launch: `blocks`, `threads`, and the stores of a thread. -/
structure WrapLaunch (ν : Type) where
  blocksX : ℕ
  blocksY : ℕ
  threadsX : ℕ
  threadsY : ℕ
  kernel : WrapThread → List (ℕ × ν)

/-- All threads of a launch. -/
def WrapLaunch.threads {ν : Type} (launch : WrapLaunch ν) : List WrapThread :=
  (((List.range launch.blocksY).product (List.range launch.blocksX)).product
    ((List.range launch.threadsY).product (List.range launch.threadsX))).map fun t =>
      ⟨t.1.2, t.1.1, t.2.2, t.2.1⟩

/-- The memory that a launch leaves when its threads store in the given order. -/
def WrapLaunch.run {ν : Type} (launch : WrapLaunch ν) (order : List WrapThread) (memory : ℕ → ν) :
    ℕ → ν :=
  (order.flatMap launch.kernel).foldl (fun memory s => Function.update memory s.1 s.2) memory

/-- The number of blocks in `unsigned int`. -/
def wrapGridDim (count : ℕ) : ℕ := count % 2 ^ 32

/-! ### Packing and exporting -/

section PackExport

variable (rows cols ld : ℕ)

/-- `rns8_wrap64_pack_u64_kernel` and `rns8_wrap64_pack_u64_scalar_kernel`, by their stores. -/
def wrap64PackU64Kernel (store : ℕ → UInt64 → List (ℕ × UInt8)) (src : ℕ → UInt64) (t : WrapThread) :
    List (ℕ × UInt8) :=
  let col := t.blockX * 16 + t.threadX
  let row := t.blockY * 16 + t.threadY
  if rows ≤ row ∨ cols ≤ col then []
  else store (wrap64CompactLimbIndex row col cols 0) (src (row * ld + col))

/-- `rns8_wrap64_pack_u64_contiguous4_kernel`. -/
def wrap64PackU64Contiguous4Kernel (src : ℕ → UInt64) (t : WrapThread) : List (ℕ × UInt8) :=
  let baseCell := (t.blockX * 256 + t.threadX) * 4
  let totalCells := rows * cols
  ((List.range 4).filter fun lane => decide (baseCell + lane < totalCells)).flatMap fun lane =>
    storeU64LimbsVectorized ((baseCell + lane) * 8) (src (baseCell + lane))

/-- `rns8_wrap64_export_u64_kernel` and `rns8_wrap64_export_u64_scalar_kernel`, by their loads. -/
def wrap64ExportU64Kernel (load : (ℕ → UInt8) → ℕ → UInt64) (limbs : ℕ → UInt8) (t : WrapThread) :
    List (ℕ × UInt64) :=
  let col := t.blockX * 16 + t.threadX
  let row := t.blockY * 16 + t.threadY
  if rows ≤ row ∨ cols ≤ col then []
  else [(row * cols + col, load limbs (wrap64CompactLimbIndex row col cols 0))]

/-- `rns8_wrap64_export_u64_contiguous4_kernel`. -/
def wrap64ExportU64Contiguous4Kernel (limbs : ℕ → UInt8) (t : WrapThread) : List (ℕ × UInt64) :=
  let baseCell := (t.blockX * 256 + t.threadX) * 4
  let totalCells := rows * cols
  ((List.range 4).filter fun lane => decide (baseCell + lane < totalCells)).map fun lane =>
    (baseCell + lane, loadU64LimbsVectorized limbs ((baseCell + lane) * 8))

/-- `wrap64_hip_uses_vectorized_pack_export`. -/
def wrap64HipUsesVectorizedPackExport : Bool := decide (128 ≤ rows) && decide (128 ≤ cols)

/-- `wrap64_hip_uses_contiguous4_pack_export`. -/
def wrap64HipUsesContiguous4PackExport : Bool :=
  decide (0 < rows) && decide (0 < cols) && decide (rows ≤ (2 ^ 63 - 1) / cols) &&
    decide (4 ≤ rows * cols)

/-- The launches that are one thread per cell. -/
def cellLaunch {ν : Type} (kernel : WrapThread → List (ℕ × ν)) : WrapLaunch ν :=
  ⟨wrapGridDim ((cols + 16 - 1) / 16), wrapGridDim ((rows + 16 - 1) / 16), 16, 16, kernel⟩

/-- The launches that are one thread per four cells. -/
def contiguous4Launch {ν : Type} (kernel : WrapThread → List (ℕ × ν)) : WrapLaunch ν :=
  ⟨wrapGridDim (((rows * cols + 3) / 4 + 256 - 1) / 256), 1, 256, 1, kernel⟩

/-- `rns8_wrap64_hip_pack_u64_device_on_stream`. -/
def rns8Wrap64HipPackU64DeviceOnStream (src : ℕ → UInt64) : WrapLaunch UInt8 :=
  if ld = cols ∧ wrap64HipUsesContiguous4PackExport rows cols = true then
    contiguous4Launch rows cols (wrap64PackU64Contiguous4Kernel rows cols src)
  else if wrap64HipUsesVectorizedPackExport rows cols then
    cellLaunch rows cols (wrap64PackU64Kernel rows cols ld storeU64LimbsVectorized src)
  else cellLaunch rows cols (wrap64PackU64Kernel rows cols ld storeU64LimbsScalar src)

/-- `rns8_wrap64_hip_export_u64_device_on_stream`. -/
def rns8Wrap64HipExportU64DeviceOnStream (limbs : ℕ → UInt8) : WrapLaunch UInt64 :=
  if wrap64HipUsesContiguous4PackExport rows cols then
    contiguous4Launch rows cols (wrap64ExportU64Contiguous4Kernel rows cols limbs)
  else if wrap64HipUsesVectorizedPackExport rows cols then
    cellLaunch rows cols (wrap64ExportU64Kernel rows cols loadU64LimbsVectorized limbs)
  else cellLaunch rows cols (wrap64ExportU64Kernel rows cols loadU64LimbsScalar limbs)

/-- `wrap64_hip_pack_u64_device`, from the upload on. -/
def wrap64HipPackU64Device (src : ℕ → UInt64) : Option (WrapLaunch UInt8) :=
  if decide (cols ≤ ld) && checkedMatrixElementsI32 rows cols && checkedU64Bytes rows ld &&
      checkedLimbBytes rows cols then
    some (rns8Wrap64HipPackU64DeviceOnStream rows cols ld src)
  else none

/-- `wrap64_hip_export_u64_device`, up to the copy to the host. -/
def wrap64HipExportU64Device (limbs : ℕ → UInt8) : Option (WrapLaunch UInt64) :=
  if decide (cols ≤ ld) && checkedMatrixElementsI32 rows cols && checkedU64Bytes rows cols &&
      checkedU64Bytes rows ld && checkedLimbBytes rows cols then
    some (rns8Wrap64HipExportU64DeviceOnStream rows cols limbs)
  else none

end PackExport

/-! ### The GEMM -/

/-- The order in which the threads of a block run through each loop that they share, and what the
shared memory holds before. -/
structure BlockSchedule (threads : ℕ) (ν : Type) where
  order : (blockX blockY loop : ℕ) → List ℕ
  perm : ∀ blockX blockY loop, (order blockX blockY loop).Perm (List.range threads)
  shared : ℕ → ν

section Gemm

variable (aLimbs bLimbs : ℕ → UInt8) (m n k : ℕ)

/-- `k_extent` of the pass at `k_base`. -/
def kExtent (kBase : ℕ) : ℕ := if k - kBase < 16 then k - kBase else 16

/-- What the cooperative loop stores in `a_tile[cell]`. -/
def aTileValue (tileRow kBase cell : ℕ) : UInt64 :=
  let localK := cell % 16
  let localRow := cell / 16
  let globalRow := tileRow * 16 + localRow
  let globalK := kBase + localK
  if globalRow < m ∧ localK < kExtent k kBase then
    loadU64LimbsVectorized aLimbs (wrap64CompactLimbIndex globalRow globalK k 0)
  else 0

/-- What the cooperative loop stores in `b_tile[cell]`. -/
def bTileValue (tileCol kBase cell : ℕ) : UInt64 :=
  let localCol := cell % 16
  let localK := cell / 16
  let globalCol := tileCol * 16 + localCol
  let globalK := kBase + localK
  if localK < kExtent k kBase ∧ globalCol < n then
    loadU64LimbsVectorized bLimbs (wrap64CompactLimbIndex globalK globalCol n 0)
  else 0

variable {threads : ℕ} (schedule : BlockSchedule threads UInt64)

/-- `a_tile` after the loads of the first `steps` passes over `k_base`. -/
def aTile (tileCol tileRow : ℕ) : (steps : ℕ) → ℕ → UInt64
  | 0 => schedule.shared
  | step + 1 => sweep threads 256 (schedule.order tileCol tileRow (2 * step))
      (fun cell _ => aTileValue aLimbs m k tileRow (16 * step) cell) (aTile tileCol tileRow step)

/-- `b_tile` after the loads of the first `steps` passes over `k_base`. -/
def bTile (tileCol tileRow : ℕ) : (steps : ℕ) → ℕ → UInt64
  | 0 => schedule.shared
  | step + 1 => sweep threads 256 (schedule.order tileCol tileRow (2 * step + 1))
      (fun cell _ => bTileValue bLimbs n k tileCol (16 * step) cell) (bTile tileCol tileRow step)

/-- The operands of a cell of a tile in the order of the loops over `k_base` and `local_k`. -/
def wrapPasses (tileCol tileRow localRow localCol : ℕ) : List (UInt64 × UInt64) :=
  (List.range ((k + 15) / 16)).flatMap fun step =>
    (List.range (kExtent k (16 * step))).map fun localK =>
      (aTile aLimbs m k schedule tileCol tileRow (step + 1) (localRow * 16 + localK),
        bTile bLimbs n k schedule tileCol tileRow (step + 1) (localK * 16 + localCol))

variable {α : Type} [Add α] [OfNat α 0] (accumulator : WrapAccumulator α)

/-- The body that the two GEMM kernels share, for `width` columns of each thread. A cell that is not
stored is not accumulated either. -/
def wrap64ByteGemm36 (width : ℕ) (t : WrapThread) : List (ℕ × UInt8) :=
  let row := t.blockY * 16 + t.threadY
  (List.range width).flatMap fun j =>
    let localCol := t.threadX * width + j
    let col := t.blockX * 16 + localCol
    if row < m ∧ col < n then
      storeU64LimbsVectorized (wrap64CompactLimbIndex row col n 0)
        (low64FromDiagonals accumulator (wrapDiagonals accumulator
          (wrapPasses aLimbs bLimbs m n k schedule t.blockX t.blockY t.threadY localCol)))
    else []

/-- `rns8_wrap64_byte_gemm36_tiled_kernel_impl`. -/
def wrap64ByteGemm36TiledKernelImpl : WrapThread → List (ℕ × UInt8) :=
  wrap64ByteGemm36 aLimbs bLimbs m n k schedule accumulator 1

/-- `rns8_wrap64_byte_gemm36_colpair_kernel_impl`. -/
def wrap64ByteGemm36ColpairKernelImpl : WrapThread → List (ℕ × UInt8) :=
  wrap64ByteGemm36 aLimbs bLimbs m n k schedule accumulator 2

end Gemm

/-- `kWrap64HipU32AccumulatorMaxK`. -/
def kWrap64HipU32AccumulatorMaxK : ℕ := 4096

/-- `kWrap64HipColPairMinDimension`. -/
def kWrap64HipColPairMinDimension : ℕ := 256

/-- `wrap64_hip_uses_u32_accumulator`. -/
def wrap64HipUsesU32Accumulator (k : ℕ) : Bool :=
  decide (0 < k) && decide (k ≤ kWrap64HipU32AccumulatorMaxK)

/-- `wrap64_hip_uses_colpair_kernel`; `experiment` is whether the environment enables it. -/
def wrap64HipUsesColpairKernel (experiment : Bool) (m n k : ℕ) : Bool :=
  experiment && wrap64HipUsesU32Accumulator k && decide (kWrap64HipColPairMinDimension ≤ m) &&
    decide (kWrap64HipColPairMinDimension ≤ n)

/-- The schedules of the two block sizes. -/
structure WrapGemmEnv where
  experiment : Bool
  tiled : BlockSchedule (16 * 16) UInt64
  colpair : BlockSchedule (16 * 8) UInt64

/-- `rns8_wrap64_hip_gemm_byte_limbs_device_on_stream`. -/
def rns8Wrap64HipGemmByteLimbsDeviceOnStream (env : WrapGemmEnv) (aLimbs bLimbs : ℕ → UInt8)
    (m n k : ℕ) : WrapLaunch UInt8 :=
  let tileRows := wrapGridDim ((m + 16 - 1) / 16)
  let tileCols := wrapGridDim ((n + 16 - 1) / 16)
  if wrap64HipUsesColpairKernel env.experiment m n k then
    ⟨tileCols, tileRows, 8, 16,
      wrap64ByteGemm36ColpairKernelImpl aLimbs bLimbs m n k env.colpair u32Accumulator⟩
  else if wrap64HipUsesU32Accumulator k then
    ⟨tileCols, tileRows, 16, 16,
      wrap64ByteGemm36TiledKernelImpl aLimbs bLimbs m n k env.tiled u32Accumulator⟩
  else
    ⟨tileCols, tileRows, 16, 16,
      wrap64ByteGemm36TiledKernelImpl aLimbs bLimbs m n k env.tiled u64Accumulator⟩

/-- `checked_diagonal_accumulator_capacity`. -/
def checkedDiagonalAccumulatorCapacity (k : ℕ) : Bool :=
  decide (0 < k) && decide (k ≤ (2 ^ 64 - 1) / (2 * (8 * (255 * 255))))

/-- `checked_wrap64_gemm_compact_layouts`. -/
def checkedWrap64GemmCompactLayouts (m n k : ℕ) : Bool :=
  checkedMatrixElementsI32 m n && checkedMatrixElementsI32 m k &&
    checkedDiagonalAccumulatorCapacity k && checkedMatrixElementsI32 k n &&
    checkedLimbBytes m k && checkedLimbBytes k n && checkedLimbBytes m n

/-- `wrap64_hip_gemm_byte_limbs_device_resident`. -/
def wrap64HipGemmByteLimbsDeviceResident (env : WrapGemmEnv) (aLimbs bLimbs : ℕ → UInt8)
    (m n k : ℕ) : Option (WrapLaunch UInt8) :=
  if checkedWrap64GemmCompactLayouts m n k then
    some (rns8Wrap64HipGemmByteLimbsDeviceOnStream env aLimbs bLimbs m n k)
  else none

end Rns8
