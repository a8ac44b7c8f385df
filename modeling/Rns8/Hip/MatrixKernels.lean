import Rns8.Core.Types
import Rns8.Hip.MatrixOperands
import Rns8.Lib.LaneLayout

/-!
# The AMDGPU builtin kernels

The kernels and launchers of `amdgpu_builtins_kernels.hip`, and the calls of
`amdgpu_builtins_backend.cpp`. The matrix instructions are parameters (`MatrixUnits`); what their
documentation says of them is `MatrixUnits.Documented`. A kernel gives, for each lane and register of
each wave, the store that it makes, and its body is empty on a processor outside its preprocessor
guard.
-/

namespace Rns8

open LaneLayout

/-! ### The matrix instructions -/

/-- The matrix builtins: operands by lane, accumulators by lane and register. -/
structure MatrixUnits where
  mfmaI32_16x16x32_i8 : (ℕ → UInt64) → (ℕ → UInt64) → Acc → Acc
  mfmaI32_32x32x16_i8 : (ℕ → UInt64) → (ℕ → UInt64) → Acc → Acc
  wmmaI32_16x16x16_iu8_w32 : (ℕ → ℕ → UInt32) → (ℕ → ℕ → UInt32) → Acc → Acc
  wmmaI32_16x16x16_iu8_w32_gfx12 : (ℕ → ℕ → UInt32) → (ℕ → ℕ → UInt32) → Acc → Acc
  smfmacI32_16x16x64_i8 : (ℕ → ℕ → UInt32) → (ℕ → ℕ → UInt32) → Acc → (ℕ → UInt32) → Acc
  smfmacI32_32x32x32_i8 : (ℕ → ℕ → UInt32) → (ℕ → ℕ → UInt32) → Acc → (ℕ → UInt32) → Acc
  swmmacI32_16x16x32_iu8_w32 : (ℕ → ℕ → UInt32) → (ℕ → ℕ → UInt32) → Acc → (ℕ → UInt16) → Acc

/-- The `16 × 16` layout of CDNA3: four lane groups, each with four accumulator rows. -/
def cdna3Layout (depth slice : ℕ) (hdepth : 0 < depth) (hdvd : slice ∣ depth)
    (hslices : depth / slice = 4) : LaneLayout where
  tile := 16
  depth := depth
  slice := slice
  lanes := 64
  regs := 4
  accRow lane reg := 4 * (lane / 16) + reg
  accLane row col := col + 16 * (row / 4)
  accReg row _ := row % 4
  tile_pos := by decide
  depth_pos := hdepth
  slice_dvd := hdvd
  slices_le := by rw [hslices]
  accRow_lt := by intros; omega
  accCell := by intros; omega
  accSite := by intros; omega

/-- The `32 × 32` layout of CDNA3: two lane halves, accumulator rows in blocks of four. -/
def cdna3WideLayout (depth slice : ℕ) (hdepth : 0 < depth) (hdvd : slice ∣ depth)
    (hslices : depth / slice = 2) : LaneLayout where
  tile := 32
  depth := depth
  slice := slice
  lanes := 64
  regs := 16
  accRow lane reg := 8 * (reg / 4) + 4 * (lane / 32) + reg % 4
  accLane row col := col + 32 * (row / 4 % 2)
  accReg row _ := 4 * (row / 8) + row % 4
  tile_pos := by decide
  depth_pos := hdepth
  slice_dvd := hdvd
  slices_le := by rw [hslices]
  accRow_lt := by intros; omega
  accCell := by intros; omega
  accSite := by intros; omega

/-- The layout of RDNA3: the upper half repeats the operands of the lower, accumulator rows
alternate between the halves. -/
def rdna3Layout : LaneLayout where
  tile := 16
  depth := 16
  slice := 16
  lanes := 32
  regs := 8
  accRow lane reg := 2 * reg + lane / 16
  accLane row col := col + 16 * (row % 2)
  accReg row _ := row / 2
  tile_pos := by decide
  depth_pos := by decide
  slice_dvd := by decide
  slices_le := by decide
  accRow_lt := by intros; omega
  accCell := by intros; omega
  accSite := by intros; omega

/-- The layout of RDNA4: two lane halves, each with eight accumulator rows. -/
def rdna4Layout (depth slice : ℕ) (hdepth : 0 < depth) (hdvd : slice ∣ depth)
    (hslices : depth / slice = 2) : LaneLayout where
  tile := 16
  depth := depth
  slice := slice
  lanes := 32
  regs := 8
  accRow lane reg := 8 * (lane / 16) + reg
  accLane row col := col + 16 * (row / 8)
  accReg row _ := row % 8
  tile_pos := by decide
  depth_pos := hdepth
  slice_dvd := hdvd
  slices_le := by rw [hslices]
  accRow_lt := by intros; omega
  accCell := by intros; omega
  accSite := by intros; omega

/-- `v_mfma_i32_16x16x32_i8`. -/
def mfma16Layout : LaneLayout := cdna3Layout 32 8 (by decide) (by decide) (by decide)

/-- `v_mfma_i32_32x32x16_i8`. -/
def mfma32Layout : LaneLayout := cdna3WideLayout 16 8 (by decide) (by decide) (by decide)

/-- `v_wmma_i32_16x16x16_iu8` of `gfx12`. -/
def wmmaGfx12Layout : LaneLayout := rdna4Layout 16 8 (by decide) (by decide) (by decide)

/-- `v_smfmac_i32_16x16x64_i8`. -/
def smfmac16Layout : LaneLayout := cdna3Layout 64 16 (by decide) (by decide) (by decide)

/-- `v_smfmac_i32_32x32x32_i8`. -/
def smfmac32Layout : LaneLayout := cdna3WideLayout 32 16 (by decide) (by decide) (by decide)

/-- `v_swmmac_i32_16x16x32_iu8`. -/
def swmmacLayout : LaneLayout := rdna4Layout 32 16 (by decide) (by decide) (by decide)

/-- The documented behaviour of the instructions: each computes the exact product of one step for its
lane layout, the sparse ones with the expansion of their first operand. -/
structure MatrixUnits.Documented (u : MatrixUnits) : Prop where
  mfma16 : mfma16Layout.Computes u.mfmaI32_16x16x32_i8 wordEntry wordEntry
  mfma32 : mfma32Layout.Computes u.mfmaI32_32x32x16_i8 wordEntry wordEntry
  wmma : rdna3Layout.Computes u.wmmaI32_16x16x16_iu8_w32 vectorEntry vectorEntry
  wmmaGfx12 : wmmaGfx12Layout.Computes u.wmmaI32_16x16x16_iu8_w32_gfx12 vectorEntry vectorEntry
  smfmac16 : smfmac16Layout.Computes (fun (a : ℕ → (ℕ → UInt32) × UInt32) b acc =>
      u.smfmacI32_16x16x64_i8 (fun lane => (a lane).1) b acc fun lane => (a lane).2)
    (fun op => sparseEntry (op.1, op.2.toNat)) vectorEntry
  smfmac32 : smfmac32Layout.Computes (fun (a : ℕ → (ℕ → UInt32) × UInt32) b acc =>
      u.smfmacI32_32x32x32_i8 (fun lane => (a lane).1) b acc fun lane => (a lane).2)
    (fun op => sparseEntry (op.1, op.2.toNat)) vectorEntry
  swmmac : swmmacLayout.Computes (fun (a : ℕ → (ℕ → UInt32) × UInt16) b acc =>
      u.swmmacI32_16x16x32_iu8_w32 (fun lane => (a lane).1) b acc fun lane => (a lane).2)
    (fun op => sparseEntry (op.1, op.2.toNat)) vectorEntry

/-! ### Stores -/

/-- `Finite` and `plane_count_or_modulus`. -/
inductive BuiltinMode
  | rns (planeCount : ℕ)
  | finite (modulus : UInt32)
  deriving DecidableEq, Repr

/-- The third extent of the grid. -/
def BuiltinMode.planes : BuiltinMode → ℕ
  | .rns planeCount => planeCount
  | .finite _ => 1

/-- `Finite`. -/
def BuiltinMode.isFinite : BuiltinMode → Bool
  | .rns _ => false
  | .finite _ => true

/-- `modulus`. -/
def BuiltinMode.modulus : BuiltinMode → UInt32
  | .rns _ => 0
  | .finite modulus => modulus

/-- `rns8_amdgpu_default_moduli`. -/
def rns8AmdgpuDefaultModuli : List UInt32 :=
  [256, 255, 253, 251, 247, 239, 233, 229, 227, 223, 217, 211, 199, 197, 193, 191, 181, 179, 173,
    167, 163, 157, 151, 149, 139, 137, 131, 127]

/-- `store_accumulator`, as the offset and the byte stored. -/
def storeAccumulator (mode : BuiltinMode) (acc : Int32) (plane m n ldc row col : ℕ) : Option (ℕ × Int8) :=
  if row < m ∧ col < n then
    match mode with
    | .rns _ => some ((plane * m + row) * ldc + col,
        reduceToCenteredStaticByteModulusI32 acc (rns8AmdgpuDefaultModuli.getD plane 0))
    | .finite modulus => some (row * ldc + col, reduceToCenteredStaticByteModulusI32 acc modulus)
  else none

/-! ### Kernels -/

/-- A compiled kernel: the processors whose macros its guard names, its tile edge, lanes and registers,
and the store of each plane, block row, block column, lane and register. -/
structure MatrixKernel where
  guard : List String
  layout : LaneLayout
  store : Site → Option (ℕ × Int8)

/-- `defined(__gfx942__)`. -/
def cdna3Guard : List String := ["gfx942"]

/-- `defined(__gfx1100__) || defined(__gfx1101__) || defined(__gfx1102__)`. -/
def rdna3Guard : List String := ["gfx1100", "gfx1101", "gfx1102"]

/-- `defined(__gfx1200__) || defined(__gfx1201__)`. -/
def rdna4Guard : List String := ["gfx1200", "gfx1201"]

/-- The processor of an architecture name: the part before its target features. -/
def processor (arch : String) : List Char := arch.toList.takeWhile fun c => c ≠ ':'

/-- Some macro of the guard is defined when the device code is compiled for the architecture. -/
def guardDefined (guard : List String) (arch : String) : Bool :=
  guard.any fun name => decide (name.toList = processor arch)

/-- The stores of a launch whose waves run in the given order; the body is empty outside the guard. -/
def MatrixKernel.run (kernel : MatrixKernel) (arch : String) (order : List (ℕ × ℕ × ℕ)) :
    List (ℕ × Int8) :=
  if guardDefined kernel.guard arch then (kernel.layout.sites order).filterMap kernel.store else []

section Dense

variable (u : MatrixUnits) (mode : BuiltinMode) (a b : ℕ → Int8) (m n k lda ldb ldc : ℕ)

/-- `packed_a` of the CDNA3 kernels, for the slice at `kBase`. -/
def packedA (plane aRow kBase : ℕ) : UInt64 :=
  packWords (pack4CenteredI8 a plane m k lda aRow kBase)
    (pack4CenteredI8 a plane m k lda aRow (kBase + 4))

/-- `packed_b` of the CDNA3 kernels. -/
def packedB (plane kBase bCol : ℕ) : UInt64 :=
  packWords (pack4CenteredI8Column b plane k n ldb (kBase + 0) bCol)
    (pack4CenteredI8Column b plane k n ldb (kBase + 4) bCol)

/-- `av` of the RDNA kernels. -/
def rowVector (plane aRow kBase word : ℕ) : UInt32 :=
  pack4CenteredI8 a plane m k lda aRow (kBase + 4 * word)

/-- `bv` of the RDNA and sparse kernels. -/
def columnVector (plane kBase bCol word : ℕ) : UInt32 :=
  pack4CenteredI8Column b plane k n ldb (kBase + 4 * word) bCol

/-- `acc` of `cdna3_dense_mfma_kernel` after the loop over `kk`. -/
def cdna3DenseAcc (plane tileRow tileCol steps : ℕ) : Acc :=
  accumulate u.mfmaI32_16x16x32_i8
    (fun i lane => packedA a m k lda plane (tileRow + lane % 16) (i * 32 + lane / 16 * 8))
    (fun i lane => packedB b n k ldb plane (i * 32 + lane / 16 * 8) (tileCol + lane % 16)) steps

/-- `cdna3_dense_mfma_kernel`. -/
def cdna3DenseMfmaKernel : MatrixKernel where
  guard := cdna3Guard
  layout := mfma16Layout
  store := fun ((plane, blockY, blockX), lane, reg) =>
    let tileRow := blockY * 16
    let tileCol := blockX * 16
    let acc := cdna3DenseAcc u a b m n k lda ldb plane tileRow tileCol ((k + 31) / 32)
    let rowBase := tileRow + lane / 16 * 4
    storeAccumulator mode (acc lane reg) plane m n ldc (rowBase + reg) (tileCol + lane % 16)

/-- `acc` of `cdna3_dense_mfma_32x32x16_kernel`. -/
def cdna3DenseWideAcc (plane tileRow tileCol steps : ℕ) : Acc :=
  accumulate u.mfmaI32_32x32x16_i8
    (fun i lane => packedA a m k lda plane (tileRow + lane % 32) (i * 16 + lane / 32 * 8))
    (fun i lane => packedB b n k ldb plane (i * 16 + lane / 32 * 8) (tileCol + lane % 32)) steps

/-- `cdna3_dense_mfma_32x32x16_kernel`. -/
def cdna3DenseMfma32x32x16Kernel : MatrixKernel where
  guard := cdna3Guard
  layout := mfma32Layout
  store := fun ((plane, blockY, blockX), lane, reg) =>
    let tileRow := blockY * 32
    let tileCol := blockX * 32
    let acc := cdna3DenseWideAcc u a b m n k lda ldb plane tileRow tileCol ((k + 15) / 16)
    storeAccumulator mode (acc lane reg) plane m n ldc
      (tileRow + 8 * (reg / 4) + 4 * (lane / 32) + reg % 4) (tileCol + lane % 32)

/-- `acc` of `rdna3_dense_wmma_kernel`. -/
def rdna3DenseAcc (plane tileRow tileCol steps : ℕ) : Acc :=
  accumulate u.wmmaI32_16x16x16_iu8_w32
    (fun i lane => rowVector a m k lda plane (tileRow + lane % 16) (i * 16))
    (fun i lane => columnVector b n k ldb plane (i * 16) (tileCol + lane % 16)) steps

/-- `rdna3_dense_wmma_kernel`. -/
def rdna3DenseWmmaKernel : MatrixKernel where
  guard := rdna3Guard
  layout := rdna3Layout
  store := fun ((plane, blockY, blockX), lane, reg) =>
    let tileRow := blockY * 16
    let tileCol := blockX * 16
    let acc := rdna3DenseAcc u a b m n k lda ldb plane tileRow tileCol ((k + 15) / 16)
    storeAccumulator mode (acc lane reg) plane m n ldc (tileRow + reg * 2 + lane / 16)
      (tileCol + lane % 16)

/-- `acc` of `rdna4_dense_wmma_kernel`. -/
def rdna4DenseAcc (plane tileRow tileCol steps : ℕ) : Acc :=
  accumulate u.wmmaI32_16x16x16_iu8_w32_gfx12
    (fun i lane => rowVector a m k lda plane (tileRow + lane % 16) (i * 16 + lane / 16 * 8))
    (fun i lane => columnVector b n k ldb plane (i * 16 + lane / 16 * 8) (tileCol + lane % 16)) steps

/-- `rdna4_dense_wmma_kernel`. -/
def rdna4DenseWmmaKernel : MatrixKernel where
  guard := rdna4Guard
  layout := wmmaGfx12Layout
  store := fun ((plane, blockY, blockX), lane, reg) =>
    let tileRow := blockY * 16
    let tileCol := blockX * 16
    let acc := rdna4DenseAcc u a b m n k lda ldb plane tileRow tileCol ((k + 15) / 16)
    let rowBase := tileRow + lane / 16 * 8
    storeAccumulator mode (acc lane reg) plane m n ldc (rowBase + reg) (tileCol + lane % 16)

end Dense

section Sparse

variable (u : MatrixUnits) (mode : BuiltinMode) (aValues aIndices : ℕ → UInt8) (b : ℕ → Int8)
  (m n k ldb ldc : ℕ)

/-- `av` and `sparse_idx` of the sparse kernels, for the four groups at `groupBase`. -/
def sparseOperand (plane aRow groupBase : ℕ) : (ℕ → UInt32) × UInt32 :=
  (gatherPairs aValues plane m (k / 4) mode.isFinite mode.modulus aRow groupBase,
    gatherIndices aIndices plane m (k / 4) aRow groupBase)

/-- `acc` of `cdna3_sparse_smfmac_kernel`. -/
def cdna3SparseAcc (plane tileRow tileCol steps : ℕ) : Acc :=
  accumulate
    (fun (op : ℕ → (ℕ → UInt32) × UInt32) bv acc =>
      u.smfmacI32_16x16x64_i8 (fun lane => (op lane).1) bv acc fun lane => (op lane).2)
    (fun i lane => sparseOperand mode aValues aIndices m k plane (tileRow + lane % 16)
      (i * 64 / 4 + lane / 16 * 4))
    (fun i lane => columnVector b n k ldb plane (i * 64 + lane / 16 * 16) (tileCol + lane % 16)) steps

/-- `cdna3_sparse_smfmac_kernel`. -/
def cdna3SparseSmfmacKernel : MatrixKernel where
  guard := cdna3Guard
  layout := smfmac16Layout
  store := fun ((plane, blockY, blockX), lane, reg) =>
    let tileRow := blockY * 16
    let tileCol := blockX * 16
    let acc := cdna3SparseAcc u mode aValues aIndices b m n k ldb plane tileRow tileCol ((k + 63) / 64)
    let rowBase := tileRow + lane / 16 * 4
    storeAccumulator mode (acc lane reg) plane m n ldc (rowBase + reg) (tileCol + lane % 16)

/-- `acc` of `cdna3_sparse_smfmac_32x32x32_kernel`. -/
def cdna3SparseWideAcc (plane tileRow tileCol steps : ℕ) : Acc :=
  accumulate
    (fun (op : ℕ → (ℕ → UInt32) × UInt32) bv acc =>
      u.smfmacI32_32x32x32_i8 (fun lane => (op lane).1) bv acc fun lane => (op lane).2)
    (fun i lane => sparseOperand mode aValues aIndices m k plane (tileRow + lane % 32)
      (i * 32 / 4 + lane / 32 * 4))
    (fun i lane => columnVector b n k ldb plane (i * 32 + lane / 32 * 16) (tileCol + lane % 32)) steps

/-- `cdna3_sparse_smfmac_32x32x32_kernel`. -/
def cdna3SparseSmfmac32x32x32Kernel : MatrixKernel where
  guard := cdna3Guard
  layout := smfmac32Layout
  store := fun ((plane, blockY, blockX), lane, reg) =>
    let tileRow := blockY * 32
    let tileCol := blockX * 32
    let acc := cdna3SparseWideAcc u mode aValues aIndices b m n k ldb plane tileRow tileCol
      ((k + 31) / 32)
    storeAccumulator mode (acc lane reg) plane m n ldc
      (tileRow + 8 * (reg / 4) + 4 * (lane / 32) + reg % 4) (tileCol + lane % 32)

/-- `acc` of `rdna4_sparse_swmmac_kernel`. -/
def rdna4SparseAcc (plane tileRow tileCol steps : ℕ) : Acc :=
  accumulate
    (fun (op : ℕ → (ℕ → UInt32) × UInt16) bv acc =>
      u.swmmacI32_16x16x32_iu8_w32 (fun lane => (op lane).1) bv acc fun lane => (op lane).2)
    (fun i lane =>
      let operand := sparseOperand mode aValues aIndices m k plane (tileRow + lane % 16)
        (i * 32 / 4 + lane / 16 * 4)
      (operand.1, operand.2.toUInt16))
    (fun i lane => columnVector b n k ldb plane (i * 32 + lane / 16 * 16) (tileCol + lane % 16)) steps

/-- `rdna4_sparse_swmmac_kernel`. -/
def rdna4SparseSwmmacKernel : MatrixKernel where
  guard := rdna4Guard
  layout := swmmacLayout
  store := fun ((plane, blockY, blockX), lane, reg) =>
    let tileRow := blockY * 16
    let tileCol := blockX * 16
    let acc := rdna4SparseAcc u mode aValues aIndices b m n k ldb plane tileRow tileCol ((k + 31) / 32)
    let rowBase := tileRow + lane / 16 * 8
    storeAccumulator mode (acc lane reg) plane m n ldc (rowBase + reg) (tileCol + lane % 16)

end Sparse

/-! ### Launches -/

/-- `std::strncmp(arch, name, length of name) == 0`. -/
def archStartsWith (arch name : String) : Bool := name.toList.isPrefixOf arch.toList

/-- `rns8_amdgpu_arch_kind`. -/
inductive ArchKind
  | unsupported | cdna3 | rdna3 | rdna4
  deriving DecidableEq, Repr

/-- `detect_arch_kind`. -/
def detectArchKind (arch : String) : ArchKind :=
  if archStartsWith arch "gfx942" then .cdna3
  else if archStartsWith arch "gfx110" then .rdna3
  else if archStartsWith arch "gfx1200" || archStartsWith arch "gfx1201" then .rdna4
  else .unsupported

/-- `amdgpu_builtins_probe`, where the HIP probe finds a device of the given architecture. -/
def amdgpuBuiltinsProbe (arch : String) : Status :=
  let supported := archStartsWith arch "gfx942" || archStartsWith arch "gfx110" ||
    archStartsWith arch "gfx1200" || archStartsWith arch "gfx1201"
  if !supported then .unsupportedBackend else .success

/-- `amdgpu_builtins_dense_kernel_variant`. -/
inductive DenseKernelVariant
  | autoSelect | cdna3Mfma16x16x32 | cdna3Mfma32x32x16
  deriving DecidableEq, Repr

/-- `use_cdna3_smfmac_32x32x32`, and `use_cdna3_mfma_32x32x16` without a variant. -/
def useCdna3Wide (m n k : ℕ) : Bool := decide (m ≥ 128) && decide (n ≥ 128) && decide (k ≥ 128)

/-- `use_cdna3_mfma_32x32x16`. -/
def useCdna3Mfma32x32x16 (m n k : ℕ) : DenseKernelVariant → Bool
  | .cdna3Mfma16x16x32 => false
  | .cdna3Mfma32x32x16 => true
  | .autoSelect => useCdna3Wide m n k

/-- A device: its architecture name, whether HIP can select it, and whether its launches finish
without an error. -/
structure BuiltinDevice where
  arch : String
  selectable : Bool
  launchOk : Bool

/-- The order in which the waves of a grid run, for either tile edge. -/
structure WaveOrder (planes m n : ℕ) where
  order : ℕ → List (ℕ × ℕ × ℕ)
  perm : ∀ tile : ℕ, (order tile).Perm (waves tile planes m n)

/-- The end of a launcher: the kernel's stores, and whether HIP reports an error. -/
def launchKernel (dev : BuiltinDevice) (kernel : MatrixKernel) (order : ℕ → List (ℕ × ℕ × ℕ)) :
    ℕ × List (ℕ × Int8) :=
  (if dev.launchOk then 0 else 3, kernel.run dev.arch (order kernel.layout.tile))

/-- `launch_dense`. -/
def launchDense (u : MatrixUnits) (dev : BuiltinDevice) (mode : BuiltinMode)
    (variant : DenseKernelVariant) (a b : ℕ → Int8) (m n k lda ldb ldc : ℕ)
    (order : ℕ → List (ℕ × ℕ × ℕ)) : ℕ × List (ℕ × Int8) :=
  if !dev.selectable then (3, [])
  else match detectArchKind dev.arch with
    | .cdna3 =>
      if useCdna3Mfma32x32x16 m n k variant then
        launchKernel dev (cdna3DenseMfma32x32x16Kernel u mode a b m n k lda ldb ldc) order
      else launchKernel dev (cdna3DenseMfmaKernel u mode a b m n k lda ldb ldc) order
    | .rdna3 => launchKernel dev (rdna3DenseWmmaKernel u mode a b m n k lda ldb ldc) order
    | .rdna4 => launchKernel dev (rdna4DenseWmmaKernel u mode a b m n k lda ldb ldc) order
    | .unsupported => (2, [])

/-- `launch_sparse_a`. -/
def launchSparseA (u : MatrixUnits) (dev : BuiltinDevice) (mode : BuiltinMode)
    (aValues aIndices : ℕ → UInt8) (b : ℕ → Int8) (m n k ldb ldc : ℕ)
    (order : ℕ → List (ℕ × ℕ × ℕ)) : ℕ × List (ℕ × Int8) :=
  if !dev.selectable then (3, [])
  else match detectArchKind dev.arch with
    | .cdna3 =>
      if useCdna3Wide m n k then
        launchKernel dev (cdna3SparseSmfmac32x32x32Kernel u mode aValues aIndices b m n k ldb ldc) order
      else launchKernel dev (cdna3SparseSmfmacKernel u mode aValues aIndices b m n k ldb ldc) order
    | .rdna4 => launchKernel dev (rdna4SparseSwmmacKernel u mode aValues aIndices b m n k ldb ldc) order
    | .rdna3 | .unsupported => (2, [])

/-! ### Calls -/

/-- `status_from_device_code`. -/
def statusFromDeviceCode : ℕ → Status
  | 0 => .success
  | 1 => .invalidArgument
  | 2 => .unsupportedBackend
  | 3 => .backendFailure
  | 4 => .rangeError
  | _ => .backendFailure

/-- `fits_int_argument`. -/
def fitsIntArgument (value : ℤ) : Bool := decide (value ≥ 0) && decide (value ≤ intMax)

/-- `valid_dense_shape`, for pointers that are set. -/
def validDenseShape (m n k lda ldb ldc : ℤ) : Bool :=
  decide (m > 0) && decide (n > 0) && decide (k > 0) && decide (lda ≥ k) && decide (ldb ≥ n) &&
    decide (ldc ≥ n) && fitsIntArgument m && fitsIntArgument n && fitsIntArgument k &&
    fitsIntArgument lda && fitsIntArgument ldb && fitsIntArgument ldc

/-- `valid_sparse_shape`, for pointers that are set. -/
def validSparseShape (m n k ldb ldc : ℤ) : Bool :=
  decide (m > 0) && decide (n > 0) && decide (k > 0) && decide (k % 4 = 0) && decide (ldb ≥ n) &&
    decide (ldc ≥ n) && fitsIntArgument m && fitsIntArgument n && fitsIntArgument k &&
    fitsIntArgument ldb && fitsIntArgument ldc

/-- The check of the plane count or the modulus, made by the call and again by the entry point of the
device code. -/
def BuiltinMode.valid : BuiltinMode → Bool
  | .rns rnsPrefix => !(decide (rnsPrefix = 0) || decide (rnsPrefix > maxSupportedPrefix))
  | .finite modulus => decide (modulus ∈ staticByteModuli)

/-- `amdgpu_builtins_gemm_rns_device` and `amdgpu_builtins_gemm_finite_u8_device`: the status and the
stores to `C`, in order. -/
def amdgpuBuiltinsGemmDevice (u : MatrixUnits) (dev : BuiltinDevice) (mode : BuiltinMode)
    (variant : DenseKernelVariant) (a b : ℕ → Int8) (m n k lda ldb ldc : ℤ)
    (order : WaveOrder mode.planes m.toNat n.toNat) : Status × List (ℕ × Int8) :=
  if !validDenseShape m n k lda ldb ldc || !mode.valid then (.invalidArgument, [])
  else if k > safeInt32KBlock then (.rangeError, [])
  else
    let (code, stores) := launchDense u dev mode variant a b m.toNat n.toNat k.toNat lda.toNat ldb.toNat
      ldc.toNat order.order
    (statusFromDeviceCode code, stores)

/-- `amdgpu_builtins_gemm_rns_sparse_a_device` and `amdgpu_builtins_gemm_finite_u8_sparse_a_device`. -/
def amdgpuBuiltinsGemmSparseADevice (u : MatrixUnits) (dev : BuiltinDevice) (mode : BuiltinMode)
    (aValues aIndices : ℕ → UInt8) (b : ℕ → Int8) (m n k ldb ldc : ℤ)
    (order : WaveOrder mode.planes m.toNat n.toNat) : Status × List (ℕ × Int8) :=
  if !validSparseShape m n k ldb ldc || !mode.valid then (.invalidArgument, [])
  else if k > safeInt32KBlock then (.rangeError, [])
  else
    let (code, stores) := launchSparseA u dev mode aValues aIndices b m.toNat n.toNat k.toNat ldb.toNat
      ldc.toNat order.order
    (statusFromDeviceCode code, stores)

end Rns8
