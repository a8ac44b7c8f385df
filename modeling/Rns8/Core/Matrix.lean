import Rns8.Core.Types
import Mathlib.Logic.Function.Basic
import Mathlib.Tactic.Common

/-!
# Matrix handles: storage and currentness

`rns8_matrix` with its host and device storage, the currentness flags and the functions of
`api_matrix_currentness_storage.inc` that set and test them. A host vector or a device allocation is
a `Buffer`, its length and its cells; a device pointer is an optional buffer, so that a pointer and
its `_bytes` field are one value. The host vectors `native_i64` and `native_u64` are left out: no
function of the library ever fills them.
-/

namespace Rns8

/-- A block of memory: its length in elements and its cells. -/
structure Buffer (α : Type) where
  size : ℕ
  cell : ℕ → α

/-- A device pointer together with the number of elements it was allocated for. -/
abbrev DeviceBuffer (α : Type) := Option (Buffer α)

/-- `rns8_exact_axis_range`. -/
structure AxisRange where
  maxMagnitude : ℤ := 0
  absoluteSum : ℤ := 0
  sum : ℤ := 0
  minimum : ℤ := 0
  maximum : ℤ := 0
  deviationSum : ℤ := 0
  sumKnown : Bool := false
  deriving DecidableEq, Repr

/-- `rns8_exact_matrix_ranges`. -/
structure MatrixRanges where
  rows : List AxisRange := []
  cols : List AxisRange := []
  deriving DecidableEq, Repr

/-- `rns8_matrix`. The upload, export and status scratch buffers are kept as the lengths that the
storage checks compare, `0` for a null pointer. -/
structure RnsMatrix where
  desc : MatrixDesc
  backend : BackendKind
  matrixInstanceId : UInt64 := 0
  rnsPrefix : ℕ
  finiteModulus : ℕ := 0
  sourceVersion : UInt64 := 0
  exactMaxMagnitude : ℤ := 0
  exactRangePrefix : ℕ := 0
  exactAxisRanges : MatrixRanges := {}
  residues : Buffer Int8 := ⟨0, fun _ => 0⟩
  byteLimbs : Buffer UInt8 := ⟨0, fun _ => 0⟩
  hostResiduesCurrent : Bool := true
  deviceResiduesCurrent : Bool := false
  hostByteLimbsCurrent : Bool := false
  deviceByteLimbsCurrent : Bool := false
  hostNativeCurrent : Bool := false
  deviceNativeCurrent : Bool := false
  hipDeviceId : ℤ := -1
  hipResidues : DeviceBuffer Int8 := none
  hipByteLimbs : DeviceBuffer UInt8 := none
  hipNativeI64 : DeviceBuffer Int64 := none
  hipNativeU64 : DeviceBuffer UInt64 := none
  hipUploadBytes : ℕ := 0
  hipExportBytes : ℕ := 0
  hipStatusBytes : ℕ := 0

/-- The number of cells of the logical matrix. -/
def MatrixDesc.cells (desc : MatrixDesc) : ℕ := desc.rows * desc.cols

/-- `matrix` with other cells in its residue storage, of the same length. -/
def RnsMatrix.withPlanes (matrix : RnsMatrix) (cell : ℕ → Int8) : RnsMatrix :=
  { matrix with residues := { matrix.residues with cell } }

/-- `matrix` with other cells in its byte-limb storage, of the same length. -/
def RnsMatrix.withLimbs (matrix : RnsMatrix) (cell : ℕ → UInt8) : RnsMatrix :=
  { matrix with byteLimbs := { matrix.byteLimbs with cell } }

/-- `residue_index`. -/
def residueIndex (matrix : RnsMatrix) (modulusIndex row col : ℕ) : ℕ :=
  (modulusIndex * matrix.desc.rows + row) * matrix.desc.cols + col

/-- `valid_matrix_access`. -/
def validMatrixAccess (rows cols ld : ℕ) : Bool :=
  decide (0 < rows) && decide (0 < cols) && decide (cols ≤ ld) && decide (rows ≤ int64Max / ld)

/-! ### Currentness flags -/

/-- `clear_native_current`. -/
def clearNativeCurrent (matrix : RnsMatrix) : RnsMatrix :=
  { matrix with hostNativeCurrent := false, deviceNativeCurrent := false }

/-- `clear_device_native_current`. -/
def clearDeviceNativeCurrent (matrix : RnsMatrix) : RnsMatrix :=
  { matrix with deviceNativeCurrent := false }

/-- `clear_residue_current`. -/
def clearResidueCurrent (matrix : RnsMatrix) : RnsMatrix :=
  { matrix with
    exactRangePrefix := 0
    hostResiduesCurrent := false
    deviceResiduesCurrent := false }

/-- `clear_device_residues_current`. -/
def clearDeviceResiduesCurrent (matrix : RnsMatrix) : RnsMatrix :=
  { matrix with deviceResiduesCurrent := false }

/-- `clear_byte_limb_current`. -/
def clearByteLimbCurrent (matrix : RnsMatrix) : RnsMatrix :=
  { matrix with hostByteLimbsCurrent := false, deviceByteLimbsCurrent := false }

/-- `invalidate_output_currentness`. -/
def invalidateOutputCurrentness (matrix : RnsMatrix) : RnsMatrix :=
  clearNativeCurrent (clearByteLimbCurrent (clearResidueCurrent matrix))

/-- `mark_host_residues_current`. -/
def markHostResiduesCurrent (matrix : RnsMatrix) : RnsMatrix :=
  clearByteLimbCurrent { matrix with hostResiduesCurrent := true, deviceResiduesCurrent := false }

/-- `mark_device_residues_current`. -/
def markDeviceResiduesCurrent (matrix : RnsMatrix) : RnsMatrix :=
  clearByteLimbCurrent { matrix with hostResiduesCurrent := false, deviceResiduesCurrent := true }

/-- `mark_host_byte_limbs_current`. -/
def markHostByteLimbsCurrent (matrix : RnsMatrix) : RnsMatrix :=
  clearNativeCurrent
    { clearResidueCurrent matrix with hostByteLimbsCurrent := true, deviceByteLimbsCurrent := false }

/-- `mark_device_byte_limbs_current`. -/
def markDeviceByteLimbsCurrent (matrix : RnsMatrix) : RnsMatrix :=
  clearNativeCurrent
    { clearResidueCurrent matrix with hostByteLimbsCurrent := false, deviceByteLimbsCurrent := true }

/-- `mark_device_native_current`. -/
def markDeviceNativeCurrent (matrix : RnsMatrix) : RnsMatrix :=
  { matrix with hostNativeCurrent := false, deviceNativeCurrent := true }

/-- `mark_output_host_residues_current`. -/
def markOutputHostResiduesCurrent (matrix : RnsMatrix) : RnsMatrix :=
  clearNativeCurrent (markHostResiduesCurrent { matrix with exactRangePrefix := 0 })

/-- `mark_output_device_residues_current`. -/
def markOutputDeviceResiduesCurrent (matrix : RnsMatrix) : RnsMatrix :=
  clearNativeCurrent (markDeviceResiduesCurrent { matrix with exactRangePrefix := 0 })

/-- `mark_output_host_byte_limbs_current`. -/
def markOutputHostByteLimbsCurrent (matrix : RnsMatrix) : RnsMatrix :=
  markHostByteLimbsCurrent matrix

/-- `mark_output_device_byte_limbs_current`. -/
def markOutputDeviceByteLimbsCurrent (matrix : RnsMatrix) : RnsMatrix :=
  markDeviceByteLimbsCurrent matrix

/-- `mark_output_device_native_current`. -/
def markOutputDeviceNativeCurrent (matrix : RnsMatrix) : RnsMatrix :=
  { clearByteLimbCurrent (clearResidueCurrent matrix) with
    hostNativeCurrent := false
    deviceNativeCurrent := true }

/-! ### Sizes of storage -/

/-- `matrix_cell_count`. -/
def matrixCellCount (rows cols : ℕ) : Option ℕ :=
  if rows = 0 ∨ cols = 0 then none
  else if sizeMax / cols < rows then none
  else some (rows * cols)

/-- `rns_residue_count`. -/
def rnsResidueCount (rows cols rnsPrefix : ℕ) : Option ℕ :=
  if rnsPrefix = 0 then none
  else match matrixCellCount rows cols with
    | none => none
    | some cells => if sizeMax / rnsPrefix < cells then none else some (cells * rnsPrefix)

/-- `wrap_byte_limb_bytes`, which is also `expected_wrap_byte_limb_count`. -/
def wrapByteLimbBytes (rows cols : ℕ) : Option ℕ :=
  if rows = 0 ∨ cols = 0 then none
  else if sizeMax / cols / 8 < rows then none
  else some (rows * cols * 8)

/-- `native_matrix_bytes` for an eight-byte element. -/
def nativeMatrixBytes (rows cols : ℕ) : Option ℕ :=
  match matrixCellCount rows cols with
  | none => none
  | some cells => if sizeMax / 8 < cells then none else some (cells * 8)

theorem matrixCellCount_eq_some {rows cols cells : ℕ} (h : matrixCellCount rows cols = some cells) :
    0 < rows ∧ 0 < cols ∧ cells = rows * cols := by
  unfold matrixCellCount at h
  split_ifs at h with h1 h2
  · simp only [Option.some.injEq] at h; omega

theorem rnsResidueCount_eq_some {rows cols r n : ℕ} (h : rnsResidueCount rows cols r = some n) :
    0 < rows ∧ 0 < cols ∧ 0 < r ∧ n = rows * cols * r := by
  unfold rnsResidueCount at h
  split_ifs at h with h0
  cases hc : matrixCellCount rows cols with
  | none => rw [hc] at h; cases h
  | some cells =>
    obtain ⟨hr, hcol, rfl⟩ := matrixCellCount_eq_some hc
    rw [hc] at h
    simp only at h
    split_ifs at h
    exact ⟨hr, hcol, Nat.pos_of_ne_zero h0, (Option.some.inj h).symm⟩

/-! ### Storage and currentness checks -/

/-- `matrix_backend_compatible_with_plan`. -/
def matrixBackendCompatibleWithPlan (ctx : Context) (matrix : RnsMatrix) (planBackend : BackendKind) :
    Bool :=
  matrix.backend == planBackend ||
    (ctx.autoBackendSelection && ctx.backend == .hipDirect && matrix.backend == .hipDirect &&
      hipDeviceBackend planBackend)

/-- `matrix_descriptor_matches`. -/
def matrixDescriptorMatches (matrix : RnsMatrix) (semantics : Semantics) (boundKind : BoundKind)
    (rows cols rnsPrefix tileM tileN : ℕ) : Bool :=
  if matrix.desc.semantics ≠ semantics ∨ matrix.desc.boundKind ≠ boundKind ∨
      matrix.desc.rows ≠ rows ∨ matrix.desc.cols ≠ cols ∨ matrix.desc.logicalLayout ≠ .rowMajor ∨
      matrix.desc.logicalLd < matrix.desc.cols ∨ matrix.desc.flagsSet = true ∨
      matrix.rnsPrefix < rnsPrefix ∨ matrix.desc.maxPrefix < rnsPrefix then false
  else if rnsPrefix = 0 ∧ (matrix.rnsPrefix ≠ 0 ∨ matrix.desc.maxPrefix ≠ 0) then false
  else if semantics = .wrapU64Mod2_64 ∨ isPerTileBoundKind boundKind = true then
    decide (matrix.desc.tileM = tileM) && decide (matrix.desc.tileN = tileN)
  else true

/-- The pointer and byte checks shared by the residue storages: device storage of the expected
length on a device-resident backend, none otherwise. -/
def residueDeviceStorageMatches (matrix : RnsMatrix) (backend : BackendKind) (expected : ℕ) : Bool :=
  if hipResidentRnsBackend backend then
    match matrix.hipResidues with
    | some buffer => decide (buffer.size = expected)
    | none => false
  else matrix.hipResidues.isNone && !matrix.deviceResiduesCurrent

/-- The byte-limb storage is absent and not current. -/
def noByteLimbStorage (matrix : RnsMatrix) : Bool :=
  decide (matrix.byteLimbs.size = 0) && matrix.hipByteLimbs.isNone &&
    !matrix.hostByteLimbsCurrent && !matrix.deviceByteLimbsCurrent

/-- `rns_matrix_storage_matches`. -/
def rnsMatrixStorageMatches (matrix : RnsMatrix) (backend : BackendKind) (rows cols rnsPrefix : ℕ) :
    Bool :=
  if matrix.rnsPrefix < rnsPrefix then false
  else match rnsResidueCount rows cols matrix.rnsPrefix with
    | none => false
    | some expected =>
      decide (matrix.residues.size = expected) && noByteLimbStorage matrix &&
        residueDeviceStorageMatches matrix backend expected

/-- `finite_matrix_storage_matches`. -/
def finiteMatrixStorageMatches (matrix : RnsMatrix) (backend : BackendKind) (rows cols : ℕ) : Bool :=
  match matrixCellCount rows cols with
  | none => false
  | some expected =>
    decide (matrix.rnsPrefix = 0) && decide (matrix.residues.size = expected) &&
      noByteLimbStorage matrix && residueDeviceStorageMatches matrix backend expected

/-- `wrap_matrix_storage_matches`. -/
def wrapMatrixStorageMatches (matrix : RnsMatrix) (backend : BackendKind) (rows cols : ℕ) : Bool :=
  match wrapByteLimbBytes rows cols with
  | none => false
  | some expected =>
    decide (matrix.residues.size = 0) && matrix.hipResidues.isNone &&
      decide (matrix.byteLimbs.size = expected) && !matrix.hostResiduesCurrent &&
      !matrix.deviceResiduesCurrent &&
      (if backend = .hipDirect then
        !matrix.hostByteLimbsCurrent &&
          match matrix.hipByteLimbs with
          | some buffer => decide (buffer.size = expected)
          | none => false
      else
        matrix.hipByteLimbs.isNone && decide (matrix.hipUploadBytes = 0) &&
          decide (matrix.hipExportBytes = 0) && decide (matrix.hipStatusBytes = 0) &&
          !matrix.deviceByteLimbsCurrent)

/-- `bounded_native_storage_matches`; the lengths are in eight-byte elements. -/
def boundedNativeStorageMatches (matrix : RnsMatrix) (semantics : Semantics) (rows cols : ℕ) : Bool :=
  if semantics ≠ .boundedI64 ∧ semantics ≠ .boundedU64 then false
  else match nativeMatrixBytes rows cols with
    | none => false
    | some expectedBytes =>
      if semantics = .boundedI64 then
        matrix.hipNativeU64.isNone &&
          match matrix.hipNativeI64 with
          | some buffer => decide (buffer.size * 8 = expectedBytes)
          | none => false
      else
        matrix.hipNativeI64.isNone &&
          match matrix.hipNativeU64 with
          | some buffer => decide (buffer.size * 8 = expectedBytes)
          | none => false

/-- `bounded_native_state_current`. -/
def boundedNativeStateCurrent (matrix : RnsMatrix) : Bool :=
  matrix.deviceNativeCurrent && !matrix.hostNativeCurrent

/-- `rns_residue_state_current_for_backend`. -/
def rnsResidueStateCurrentForBackend (matrix : RnsMatrix) (backend : BackendKind) : Bool :=
  if hipResidentRnsBackend backend then matrix.deviceResiduesCurrent
  else matrix.hostResiduesCurrent && !matrix.deviceResiduesCurrent

/-- `wrap_byte_limb_state_current_for_backend`. -/
def wrapByteLimbStateCurrentForBackend (matrix : RnsMatrix) (backend : BackendKind) : Bool :=
  if matrix.hostResiduesCurrent || matrix.deviceResiduesCurrent then false
  else if backend = .hipDirect then matrix.deviceByteLimbsCurrent
  else matrix.hostByteLimbsCurrent && !matrix.deviceByteLimbsCurrent

/-! ### The store of live matrices -/

/-- A matrix handle as the caller holds it. -/
abbrev Handle := ℕ

/-- The live matrices; a handle that was never created, or was destroyed, maps to `none`. -/
abbrev Store := Handle → Option RnsMatrix

/-- The store after an operation changed the matrix behind `h`. -/
def Store.set (s : Store) (h : Handle) (matrix : RnsMatrix) : Store :=
  Function.update s h (some matrix)

@[simp] theorem Store.set_self (s : Store) (h : Handle) (matrix : RnsMatrix) :
    s.set h matrix h = some matrix := by simp [Store.set]

@[simp] theorem Store.set_of_ne (s : Store) {h h' : Handle} (matrix : RnsMatrix) (hne : h' ≠ h) :
    s.set h matrix h' = s h' := by simp [Store.set, hne]

end Rns8
