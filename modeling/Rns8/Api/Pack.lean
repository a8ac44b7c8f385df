import Rns8.Api.Matrix
import Rns8.Exact.Range
import Rns8.Hip.ShapeChecks
import Rns8.Reconstruct.Crt

/-!
# Packing

The entry points of `api_pack.cpp`. `rns8_pack_i64` and `rns8_pack_u64` treat a residue matrix alike,
so both are `packResidueMatrix` of a `PackSource`; a wrap matrix and a finite matrix have paths of
their own.
-/

namespace Rns8

/-- What the environment answers during one pack call. -/
structure PackEnv (α : Type) where
  ranges : Bool
  setDevice : Option Failure
  freeUpload : Option Failure
  allocUpload : Option Failure
  pack : DeviceOp Int8
  packLimbs : DeviceOp UInt8
  native : NativeEnv α

/-- No operation of the call fails. -/
def PackEnv.ok (α : Type) [Inhabited α] : PackEnv α :=
  ⟨true, none, none, none, ⟨none, fun _ => 0⟩, ⟨none, fun _ => 0⟩, ⟨none, none, true, ⟨none, fun _ => default⟩⟩⟩

/-- The device packs up to their copy: the checks on the shape, the device, and an upload buffer for
`rows * ld` elements of `elem` bytes, whose size is computed in `std::size_t`. An empty buffer is
rejected. -/
def stageUpload {α : Type} (env : PackEnv α) (checked : Bool) (rows ld elem capacity : ℕ) : Status × ℕ :=
  if checked = false then (.invalidArgument, capacity)
  else match env.setDevice with
    | some failure => (failure.1, capacity)
    | none =>
      if sizeMul (sizeMul rows ld) elem = 0 then (.invalidArgument, capacity)
      else ensureUploadBuffer env.freeUpload env.allocUpload (sizeMul (sizeMul rows ld) elem) capacity

/-- The checks of `hip_direct_pack_i64_device` and `hip_direct_pack_u64_device`. -/
def packDeviceChecked (rows cols ld rnsPrefix : ℕ) : Bool :=
  checkedI32Shape rows cols ld rnsPrefix && checkedPackElements rows cols rnsPrefix

/-- The checks of `hip_direct_pack_finite_u8_device`. -/
def packFiniteDeviceChecked (rows cols ld modulus : ℕ) : Bool :=
  decide (2 ≤ modulus) && decide (modulus ≤ 256) && decide (0 < rows) && decide (0 < cols) &&
    decide (cols ≤ ld) && decide (rows ≤ intMax) && decide (cols ≤ intMax) && decide (ld ≤ intMax) &&
    checkedOutputBytes rows ld 1 && checkedOutputBytes rows cols 1

/-- The checks of `wrap64_hip_pack_u64_device`. -/
def packWrapDeviceChecked (rows cols ld : ℕ) : Bool :=
  decide (cols ≤ ld) && checkedMatrixElementsI32 rows cols && checkedU64Bytes rows ld &&
    checkedLimbBytes rows cols

/-- `same_source_device_residue_pack_current`. -/
def sameSourceDeviceResiduePackCurrent (ctx : Context) (matrix : RnsMatrix) (sourceVersion : UInt64) :
    Bool :=
  decide (sourceVersion ≠ 0) && decide (matrix.sourceVersion = sourceVersion) &&
    hipResidentRnsBackend ctx.backend && matrix.deviceResiduesCurrent &&
    !shouldPopulateNativeOnPack ctx matrix

/-- `same_source_device_byte_limb_pack_current`. -/
def sameSourceDeviceByteLimbPackCurrent (ctx : Context) (matrix : RnsMatrix) (sourceVersion : UInt64) :
    Bool :=
  decide (sourceVersion ≠ 0) && decide (matrix.sourceVersion = sourceVersion) &&
    decide (ctx.backend = .hipDirect) && matrix.deviceByteLimbsCurrent

/-- `same_source_finite_device_residue_pack_current`. -/
def sameSourceFiniteDeviceResiduePackCurrent (ctx : Context) (matrix : RnsMatrix) (modulus : ℕ)
    (sourceVersion : UInt64) : Bool :=
  decide (sourceVersion ≠ 0) && decide (matrix.sourceVersion = sourceVersion) &&
    decide (matrix.finiteModulus = modulus) && hipResidentRnsBackend ctx.backend &&
    matrix.deviceResiduesCurrent

/-- The source of a residue pack: its values, the two semantics that accept it, and the upload of
its native values. -/
structure PackSource where
  value : ℕ → ℕ → ℤ
  bounded : Semantics
  exactWide : Semantics
  upload : RnsMatrix → Status × RnsMatrix

/-- The source of `rns8_pack_i64`. -/
def packSourceI64 (env : PackEnv Int64) (ctx : Context) (src : ℕ → Int64) (ld : ℕ) : PackSource where
  value := sourceI64 src ld
  bounded := .boundedI64
  exactWide := .exactWideSigned
  upload matrix := uploadNativeI64 env.native ctx matrix src ld

/-- The source of `rns8_pack_u64`. -/
def packSourceU64 (env : PackEnv UInt64) (ctx : Context) (src : ℕ → UInt64) (ld : ℕ) :
    PackSource where
  value := sourceU64 src ld
  bounded := .boundedU64
  exactWide := .exactWideUnsigned
  upload matrix := uploadNativeU64 env.native ctx matrix src ld

/-- The range proof of a pack, before anything is written: `exact_bound` and `exact_ranges`. -/
def packExactProof (ranges : Bool) (ctx : Context) (matrix : RnsMatrix) (source : PackSource)
    (sourceVersion : UInt64) : Except Status (ℤ × MatrixRanges) :=
  if matrix.desc.semantics ≠ source.exactWide then .ok (0, {})
  else if !rnsMatrixStorageMatches matrix ctx.backend matrix.desc.rows matrix.desc.cols
        matrix.rnsPrefix ||
      (hipResidentRnsBackend ctx.backend && decide (matrix.hipDeviceId ≠ ctx.deviceId)) then
    .error .invalidArgument
  else
    -- stable source versions preserve the original packed value and proof
    let elided := sameSourceDeviceResiduePackCurrent ctx matrix sourceVersion
    if elided = false ∧ ranges = false then .error .internalError
    else
      let native := nativeExactRanges matrix.desc.rows matrix.desc.cols source.value
      let proof := if elided then (matrix.exactMaxMagnitude, {}) else (native.2, native.1)
      if exactRangeFits matrix.desc.semantics proof.1 (modulusProduct matrix.rnsPrefix) then .ok proof
      else .error .rangeError

/-- The tail of a pack after the residues are current. -/
def packFinish (ctx : Context) (source : PackSource) (sourceVersion : UInt64)
    (proof : ℤ × MatrixRanges) (matrix : RnsMatrix) : Status × RnsMatrix :=
  let commit (matrix : RnsMatrix) : RnsMatrix :=
    if matrix.desc.semantics = source.exactWide then
      { matrix with
        exactMaxMagnitude := proof.1
        exactAxisRanges := proof.2
        exactRangePrefix := matrix.rnsPrefix
        sourceVersion := sourceVersion }
    else { matrix with sourceVersion := sourceVersion }
  if shouldPopulateNativeOnPack ctx matrix then
    match source.upload matrix with
    | (.success, matrix) => (.success, commit matrix)
    | (status, matrix) => (status, matrix)
  else (.success, commit (clearNativeCurrent matrix))

/-- The common body of `rns8_pack_i64` and `rns8_pack_u64` on a matrix with residue storage. -/
def packResidueMatrix {α : Type} (env : PackEnv α) (ctx : Context) (matrix : RnsMatrix)
    (source : PackSource) (ld sourceBytes : ℕ) (sourceVersion : UInt64) : Status × RnsMatrix :=
  match packExactProof env.ranges ctx matrix source sourceVersion with
  | .error status => (status, matrix)
  | .ok proof =>
    if nativeVectorBackend ctx.backend then
      if matrix.desc.semantics ≠ source.bounded ∨
          boundedNativeStorageMatches matrix source.bounded matrix.desc.rows matrix.desc.cols = false
        then (.invalidArgument, matrix)
      else match source.upload matrix with
        | (.success, matrix) => (.success,
            { clearByteLimbCurrent (clearResidueCurrent matrix) with sourceVersion := sourceVersion })
        | (status, matrix) => (status, matrix)
    else if !rnsMatrixStorageMatches matrix ctx.backend matrix.desc.rows matrix.desc.cols
        matrix.rnsPrefix then (.invalidArgument, matrix)
    else if hipResidentRnsBackend ctx.backend then
      if matrix.hipDeviceId ≠ ctx.deviceId then (.invalidArgument, matrix)
      else if sameSourceDeviceResiduePackCurrent ctx matrix sourceVersion then (.success, matrix)
      else
        let matrix := if matrix.desc.semantics = source.exactWide then
          invalidateOutputCurrentness matrix else matrix
        let upload := stageUpload env
          (packDeviceChecked matrix.desc.rows matrix.desc.cols ld matrix.rnsPrefix) matrix.desc.rows ld
          sourceBytes matrix.hipUploadBytes
        let matrix := { matrix with hipUploadBytes := upload.2 }
        if upload.1 ≠ .success then (upload.1, matrix)
        else
          let meant := packPlanes matrix.rnsPrefix matrix.desc.rows matrix.desc.cols modulusAt
            source.value matrix.hipResidues.cells
          match env.pack.run meant with
          | (.success, cell) =>
            packFinish ctx source sourceVersion proof
              (markDeviceResiduesCurrent (matrix.withHipResidues cell))
          | (status, cell) => (status, matrix.withHipResidues cell)
    else
      packFinish ctx source sourceVersion proof (markHostResiduesCurrent (matrix.withPlanes
        (packPlanes matrix.rnsPrefix matrix.desc.rows matrix.desc.cols modulusAt source.value
          matrix.residues.cell)))

/-- `rns8_pack_i64`. -/
def rns8PackI64 (env : PackEnv Int64) (ctx : Context) (matrix : RnsMatrix) (src : ℕ → Int64)
    (ld : ℕ) (sourceVersion : UInt64) : Status × RnsMatrix :=
  if !validMatrixAccess matrix.desc.rows matrix.desc.cols ld then (.invalidArgument, matrix)
  else if matrix.desc.semantics ≠ .boundedI64 ∧ matrix.desc.semantics ≠ .exactWideSigned then
    (.invalidArgument, matrix)
  else if ctx.backend ≠ matrix.backend then (.invalidArgument, matrix)
  else packResidueMatrix env ctx matrix (packSourceI64 env ctx src ld) ld 8 sourceVersion

/-- `wrap64_hip_pack_u64_device`, as the new cells of the device byte limbs. -/
def packWrapDevice (matrix : RnsMatrix) (src : ℕ → UInt64) (ld : ℕ) : ℕ → UInt8 :=
  packWrapU64Matrix { matrix with byteLimbs := ⟨matrix.byteLimbs.size, matrix.hipByteLimbs.cells⟩ }
    src ld

/-- The part of `rns8_pack_u64` for a wrap matrix. -/
def packWrapMatrix (env : PackEnv UInt64) (ctx : Context) (matrix : RnsMatrix) (src : ℕ → UInt64)
    (ld : ℕ) (sourceVersion : UInt64) : Status × RnsMatrix :=
  if nativeVectorBackend ctx.backend then (.invalidArgument, matrix)
  else if !wrapMatrixStorageMatches matrix ctx.backend matrix.desc.rows matrix.desc.cols then
    (.invalidArgument, matrix)
  else if ctx.backend = .hipDirect ∧ matrix.hipDeviceId ≠ ctx.deviceId then (.invalidArgument, matrix)
  else if ctx.backend = .wrap64ByteLimb then
    (.success, { markHostByteLimbsCurrent (matrix.withLimbs (packWrapU64Matrix matrix src ld)) with
      sourceVersion := sourceVersion })
  else if ctx.backend = .hipDirect then
    if sameSourceDeviceByteLimbPackCurrent ctx matrix sourceVersion then (.success, matrix)
    else
      let upload := stageUpload env (packWrapDeviceChecked matrix.desc.rows matrix.desc.cols ld)
        matrix.desc.rows ld 8 matrix.hipUploadBytes
      let matrix := { matrix with hipUploadBytes := upload.2 }
      if upload.1 ≠ .success then (upload.1, matrix)
      else match env.packLimbs.run (packWrapDevice matrix src ld) with
        | (.success, cell) => (.success,
            { markDeviceByteLimbsCurrent (matrix.withHipByteLimbs cell) with
              sourceVersion := sourceVersion })
        | (status, cell) => (status, matrix.withHipByteLimbs cell)
  else (.unsupportedBackend, matrix)

/-- `rns8_pack_u64`. -/
def rns8PackU64 (env : PackEnv UInt64) (ctx : Context) (matrix : RnsMatrix) (src : ℕ → UInt64)
    (ld : ℕ) (sourceVersion : UInt64) : Status × RnsMatrix :=
  if !validMatrixAccess matrix.desc.rows matrix.desc.cols ld then (.invalidArgument, matrix)
  else if matrix.desc.semantics ≠ .boundedU64 ∧ matrix.desc.semantics ≠ .exactWideUnsigned ∧
      matrix.desc.semantics ≠ .wrapU64Mod2_64 then (.invalidArgument, matrix)
  else if ctx.backend ≠ matrix.backend then (.invalidArgument, matrix)
  else if matrix.desc.semantics = .wrapU64Mod2_64 then
    packWrapMatrix env ctx matrix src ld sourceVersion
  else packResidueMatrix env ctx matrix (packSourceU64 env ctx src ld) ld 8 sourceVersion

/-- `rns8_pack_finite_u8`. -/
def rns8PackFiniteU8 (env : PackEnv UInt8) (ctx : Context) (matrix : RnsMatrix) (modulus : ℕ)
    (src : ℕ → UInt8) (ld : ℕ) (sourceVersion : UInt64) : Status × RnsMatrix :=
  let commit (matrix : RnsMatrix) : RnsMatrix :=
    { matrix with finiteModulus := modulus, sourceVersion := sourceVersion }
  if !validMatrixAccess matrix.desc.rows matrix.desc.cols ld ||
      !validFiniteModulusForSemantics matrix.desc.semantics modulus then (.invalidArgument, matrix)
  else if ctx.backend ≠ matrix.backend then (.invalidArgument, matrix)
  else if !usesFiniteStorage matrix.desc.semantics ||
      !finiteMatrixStorageMatches matrix ctx.backend matrix.desc.rows matrix.desc.cols then
    (.invalidArgument, matrix)
  else if hipResidentRnsBackend ctx.backend then
    if matrix.hipDeviceId ≠ ctx.deviceId then (.invalidArgument, matrix)
    else if sameSourceFiniteDeviceResiduePackCurrent ctx matrix modulus sourceVersion then
      (.success, matrix)
    else
      let upload := stageUpload env
        (packFiniteDeviceChecked matrix.desc.rows matrix.desc.cols ld modulus) matrix.desc.rows ld 1
        matrix.hipUploadBytes
      let matrix := { matrix with hipUploadBytes := upload.2 }
      if upload.1 ≠ .success then (upload.1, matrix)
      else
        let meant := packPlanes 1 matrix.desc.rows matrix.desc.cols (fun _ => modulus)
          (sourceU8 src ld) matrix.hipResidues.cells
        match env.pack.run meant with
        | (.success, cell) =>
          (.success, commit (markDeviceResiduesCurrent (matrix.withHipResidues cell)))
        | (status, cell) => (status, matrix.withHipResidues cell)
  else if ctx.backend = .cpuReference then
    (.success, commit (markHostResiduesCurrent
      (matrix.withPlanes (packFiniteU8Matrix matrix src ld modulus))))
  else (.unsupportedBackend, matrix)

end Rns8
