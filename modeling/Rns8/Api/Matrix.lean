import Rns8.Hip.DeviceOp
import Rns8.Cpu.Pack
import Rns8.Plan.Schedule

/-!
# Creating matrices and their native storage

`rns8_create_matrix`, and the functions of `api_matrix_hip_storage_materialization.inc` that allocate
device storage, upload native values and turn them into residues. An operation returns its status
together with the matrix it leaves, whatever the status is.
-/

namespace Rns8

/-! ### Device storage -/

/-- `free_hip_matrix_storage`: the pointers are cleared whatever the frees report. -/
def freeHipMatrixStorage (matrix : RnsMatrix) : RnsMatrix :=
  { matrix with
    hipResidues := none
    hipByteLimbs := none
    hipNativeI64 := none
    hipNativeU64 := none
    hipUploadBytes := 0
    hipExportBytes := 0
    hipStatusBytes := 0
    finiteModulus := 0
    deviceResiduesCurrent := false
    deviceByteLimbsCurrent := false
    hostNativeCurrent := false
    deviceNativeCurrent := false }

/-- `ensure_hip_native_storage`, with the outcomes of its allocation and its zero fill. -/
def ensureHipNativeStorage (alloc zero : Option Failure) (ctx : Context) (matrix : RnsMatrix) :
    Status × RnsMatrix :=
  if matrix.desc.semantics ≠ .boundedI64 ∧ matrix.desc.semantics ≠ .boundedU64 then
    (.invalidArgument, matrix)
  else if matrix.hipDeviceId ≠ -1 ∧ matrix.hipDeviceId ≠ ctx.deviceId then (.invalidArgument, matrix)
  else
    let signed := decide (matrix.desc.semantics = .boundedI64)
    let matrix := { matrix with hipDeviceId := ctx.deviceId }
    match nativeMatrixBytes matrix.desc.rows matrix.desc.cols with
    | none => (.rangeError, matrix)
    | some expectedBytes =>
      match if signed then matrix.hipNativeI64.map Buffer.size else matrix.hipNativeU64.map Buffer.size
        with
      | some size => (if size * 8 = expectedBytes then .success else .invalidArgument, matrix)
      | none => match alloc, zero with
        | some failure, _ => (failure.1, matrix)
        | none, some failure => (failure.1, freeHipMatrixStorage matrix)
        | none, none => (.success,
            if signed then { matrix with hipNativeI64 := some ⟨expectedBytes / 8, fun _ => 0⟩ }
            else { matrix with hipNativeU64 := some ⟨expectedBytes / 8, fun _ => 0⟩ })

/-- What the environment answers while native values are uploaded: the allocation and the zero fill
of the storage, the allocation of the staging vector, and the copy. -/
structure NativeEnv (α : Type) where
  alloc : Option Failure
  zero : Option Failure
  staged : Bool
  copy : DeviceOp α

/-- The compact copy of a source with leading dimension `ld`, over the cells that were there. -/
def stagedCells {α : Type} (rows cols ld : ℕ) (src cell : ℕ → α) : ℕ → α :=
  fun o => if o < rows * cols then src (o / cols * ld + o % cols) else cell o

/-- The upload functions: `put` stores the cells in the native storage. -/
def uploadNative {α : Type} [Inhabited α] (env : NativeEnv α) (ctx : Context) (semantics : Semantics)
    (buffer : RnsMatrix → DeviceBuffer α) (put : RnsMatrix → (ℕ → α) → RnsMatrix)
    (matrix : RnsMatrix) (src : ℕ → α) (ld : ℕ) : Status × RnsMatrix :=
  if matrix.desc.semantics ≠ semantics ∨
      validMatrixAccess matrix.desc.rows matrix.desc.cols ld = false then (.invalidArgument, matrix)
  else match ensureHipNativeStorage env.alloc env.zero ctx matrix with
    | (.success, matrix) =>
      if env.staged = false then (.internalError, matrix)
      else
        let meant := stagedCells matrix.desc.rows matrix.desc.cols ld src (buffer matrix).cells
        match env.copy.run meant with
        | (.success, cell) => (.success, markDeviceNativeCurrent (put matrix cell))
        | (status, cell) => (status, clearDeviceNativeCurrent (put matrix cell))
    | (status, matrix) => (status, matrix)

/-- The new cells of `hip_native_i64`. -/
def RnsMatrix.withNativeI64 (matrix : RnsMatrix) (cell : ℕ → Int64) : RnsMatrix :=
  { matrix with hipNativeI64 := matrix.hipNativeI64.map fun buffer => { buffer with cell } }

/-- The new cells of `hip_native_u64`. -/
def RnsMatrix.withNativeU64 (matrix : RnsMatrix) (cell : ℕ → UInt64) : RnsMatrix :=
  { matrix with hipNativeU64 := matrix.hipNativeU64.map fun buffer => { buffer with cell } }

/-- `upload_native_i64`. -/
def uploadNativeI64 (env : NativeEnv Int64) (ctx : Context) (matrix : RnsMatrix) (src : ℕ → Int64)
    (ld : ℕ) : Status × RnsMatrix :=
  uploadNative env ctx .boundedI64 RnsMatrix.hipNativeI64 RnsMatrix.withNativeI64 matrix src ld

/-- `upload_native_u64`. -/
def uploadNativeU64 (env : NativeEnv UInt64) (ctx : Context) (matrix : RnsMatrix) (src : ℕ → UInt64)
    (ld : ℕ) : Status × RnsMatrix :=
  uploadNative env ctx .boundedU64 RnsMatrix.hipNativeU64 RnsMatrix.withNativeU64 matrix src ld

/-- `should_populate_native_on_pack`. -/
def shouldPopulateNativeOnPack (ctx : Context) (matrix : RnsMatrix) : Bool :=
  if matrix.desc.semantics ≠ .boundedI64 ∧ matrix.desc.semantics ≠ .boundedU64 then false
  else nativeVectorBackend ctx.backend ||
    (ctx.autoBackendSelection && decide (ctx.backend = .hipDirect) &&
      decide (matrix.backend = .hipDirect))

/-- `hip_direct_native_i64_to_rns_device` and its unsigned sibling: the residues of the native
values, in the first `planes` planes. -/
def nativeToRnsDevice (matrix : RnsMatrix) (planes : ℕ) : ℕ → Int8 :=
  let value : ℕ → ℕ → ℤ := fun row col =>
    if matrix.desc.semantics = .boundedI64 then
      (matrix.hipNativeI64.cells (row * matrix.desc.cols + col)).toInt
    else (matrix.hipNativeU64.cells (row * matrix.desc.cols + col)).toNat
  packPlanes planes matrix.desc.rows matrix.desc.cols modulusAt value matrix.hipResidues.cells

/-- `ensure_bounded_native_residues_current_for_rns_plan`; `bridge` is the conversion kernel. -/
def ensureBoundedNativeResiduesCurrentForRnsPlan (bridge : DeviceOp Int8) (ctx : Context)
    (plan : Plan) (matrix : RnsMatrix) : Status × RnsMatrix :=
  if !ctx.autoBackendSelection || decide (ctx.backend ≠ .hipDirect) ||
      !hipResidentRnsBackend plan.backend || nativeVectorBackend plan.backend ||
      decide (plan.desc.semantics ≠ .boundedI64 ∧ plan.desc.semantics ≠ .boundedU64) then
    (.success, matrix)
  else if rnsResidueStateCurrentForBackend matrix plan.backend then (.success, matrix)
  else if decide (matrix.backend ≠ .hipDirect) || decide (matrix.hipDeviceId ≠ ctx.deviceId) ||
      decide (matrix.desc.semantics ≠ plan.desc.semantics) ||
      !rnsMatrixStorageMatches matrix plan.backend matrix.desc.rows matrix.desc.cols
        (rnsStoragePrefixForPlan plan) ||
      !boundedNativeStorageMatches matrix plan.desc.semantics matrix.desc.rows matrix.desc.cols ||
      !boundedNativeStateCurrent matrix || decide (matrix.sourceVersion = 0) then
    (.invalidArgument, matrix)
  else match bridge.run (nativeToRnsDevice matrix (rnsStoragePrefixForPlan plan)) with
    | (.success, cell) => (.success, markDeviceResiduesCurrent (matrix.withHipResidues cell))
    | (status, cell) => (status, clearDeviceResiduesCurrent (matrix.withHipResidues cell))

/-! ### Creating a matrix -/

/-- What the environment answers while a matrix is created: the allocation of the handle and its
host storage, the next value of the instance counter, and the device allocations and zero fills. -/
structure CreateEnv where
  hostAlloc : Bool
  instanceId : UInt64
  alloc : Option Failure
  zero : Option Failure
  nativeAlloc : Option Failure
  nativeZero : Option Failure

/-- Every allocation succeeds. -/
def CreateEnv.ok (instanceId : UInt64) : CreateEnv := ⟨true, instanceId, none, none, none, none⟩

/-- `allocate_hip_matrix_storage`. -/
def allocateHipMatrixStorage (env : CreateEnv) (ctx : Context) (matrix : RnsMatrix) :
    Except Status RnsMatrix :=
  match env.alloc, env.zero with
  | some failure, _ => .error failure.1
  | none, some failure => .error failure.1
  | none, none =>
    let matrix := { matrix with hipDeviceId := ctx.deviceId }
    if matrix.desc.semantics = .wrapU64Mod2_64 then
      .ok (clearByteLimbCurrent (clearResidueCurrent
        { matrix with hipByteLimbs := some ⟨matrix.byteLimbs.size, fun _ => 0⟩ }))
    else
      .ok (clearByteLimbCurrent (clearResidueCurrent
        { matrix with hipResidues := some ⟨matrix.residues.size, fun _ => 0⟩ }))

/-- The handle as `rns8_create_matrix` initialises it before it allocates storage. -/
def newMatrix (env : CreateEnv) (ctx : Context) (desc : MatrixDesc) (rnsPrefix : ℕ) : RnsMatrix where
  desc := { desc with
    maxPrefix := rnsPrefix
    logicalLd := if desc.logicalLd = 0 then desc.cols else desc.logicalLd
    tileM := if desc.tileM = 0 then 128 else desc.tileM
    tileN := if desc.tileN = 0 then 128 else desc.tileN }
  backend := ctx.backend
  matrixInstanceId := env.instanceId
  rnsPrefix := rnsPrefix

/-- The host storage that `rns8_create_matrix` gives a new handle, all zero, and its currentness. -/
def withHostStorage (ctx : Context) (matrix : RnsMatrix) : Except Status RnsMatrix :=
  let rows := matrix.desc.rows
  let cols := matrix.desc.cols
  if matrix.desc.semantics = .wrapU64Mod2_64 then
    match wrapByteLimbBytes rows cols with
    | none => .error .rangeError
    | some bytes => .ok (markHostByteLimbsCurrent { matrix with byteLimbs := ⟨bytes, fun _ => 0⟩ })
  else if usesFiniteStorage matrix.desc.semantics then
    match matrixCellCount rows cols with
    | none => .error .rangeError
    | some cells => .ok (clearByteLimbCurrent (clearResidueCurrent
        { matrix with residues := ⟨cells, fun _ => 0⟩, finiteModulus := 0 }))
  else match rnsResidueCount rows cols matrix.rnsPrefix with
    | none => .error .rangeError
    | some elements =>
      -- the freshly created host matrix is zero
      let proven := exactWideSemantics matrix.desc.semantics && decide (ctx.backend = .cpuReference)
      .ok (clearByteLimbCurrent { matrix with
        residues := ⟨elements, fun _ => 0⟩
        exactRangePrefix := if proven then matrix.rnsPrefix else matrix.exactRangePrefix })

/-- `rns8_create_matrix`. -/
def rns8CreateMatrix (env : CreateEnv) (ctx : Context) (desc : MatrixDesc) : Except Status RnsMatrix :=
  if !desc.abiOk then .error .invalidArgument
  else
    let rnsPrefix :=
      if desc.maxPrefix = 0 then defaultPrefixForSemantics desc.semantics else desc.maxPrefix
    let validation := validateMatrixDesc desc rnsPrefix
    if validation ≠ .success then .error validation
    else if !backendSupportsSemantics ctx.backend desc.semantics then .error .unsupportedBackend
    else if env.hostAlloc = false ∨ env.instanceId = 0 then .error .internalError
    else
      let matrix := newMatrix env ctx desc rnsPrefix
      if nativeVectorBackend ctx.backend then
        match ensureHipNativeStorage env.nativeAlloc env.nativeZero ctx
            (invalidateOutputCurrentness matrix) with
        | (.success, matrix) => .ok matrix
        | (status, _) => .error status
      else match withHostStorage ctx matrix with
        | .error status => .error status
        | .ok matrix =>
          if hipResidentRnsBackend ctx.backend then
            match allocateHipMatrixStorage env ctx matrix with
            | .error status => .error status
            | .ok matrix =>
              if ctx.autoBackendSelection = true ∧ (matrix.desc.semantics = .boundedI64 ∨
                  matrix.desc.semantics = .boundedU64) then
                match ensureHipNativeStorage env.nativeAlloc env.nativeZero ctx matrix with
                | (.success, matrix) => .ok matrix
                | (status, _) => .error status
              else .ok matrix
          else .ok matrix

end Rns8
