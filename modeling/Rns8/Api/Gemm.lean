import Rns8.Api.Matrix
import Rns8.Api.Workspace
import Rns8.Cpu.Wrap64
import Rns8.Exact.Range

/-!
# The GEMM entry points

`rns8_gemm_rns`, `rns8_gemm_finite_u8` and `rns8_gemm_wrap_u64` of `api_gemm.cpp`, with the operand
validation and the dispatch to every backend, in a build with every accelerator compiled in.

A call is a function of the store and of a `GemmEnv`, which holds the answers of the operating system
and of the device. The kernels of the direct HIP backend write what `hipDirectGemmCells` says when
the output is neither operand; the accelerator libraries and the vector ALU write whatever their
`DeviceOp` leaves.
-/

namespace Rns8

open CenteredResidue

/-! ### Operand validation -/

/-- The operands are compatible with the backend of the plan and live on the device of the context. -/
def operandBackendsMatch (ctx : Context) (plan : Plan) (onDevice : Bool) (A B C : RnsMatrix) : Bool :=
  matrixBackendCompatibleWithPlan ctx A plan.backend &&
    matrixBackendCompatibleWithPlan ctx B plan.backend &&
    matrixBackendCompatibleWithPlan ctx C plan.backend &&
    (!onDevice || (decide (A.hipDeviceId = ctx.deviceId) && decide (B.hipDeviceId = ctx.deviceId) &&
      decide (C.hipDeviceId = ctx.deviceId)))

/-- The three `matrix_descriptor_matches` of an operand validation. -/
def operandDescriptorsMatch (plan : Plan) (boundKind : BoundKind) (rnsPrefix : ℕ)
    (A B C : RnsMatrix) : Bool :=
  matrixDescriptorMatches A plan.desc.semantics boundKind plan.desc.m plan.desc.k rnsPrefix
      plan.desc.tileM plan.desc.tileN &&
    matrixDescriptorMatches B plan.desc.semantics boundKind plan.desc.k plan.desc.n rnsPrefix
      plan.desc.tileM plan.desc.tileN &&
    matrixDescriptorMatches C plan.desc.semantics boundKind plan.desc.m plan.desc.n rnsPrefix
      plan.desc.tileM plan.desc.tileN

/-- The operands of a native GEMM. -/
def nativeOperandsMatch (plan : Plan) (A B C : RnsMatrix) : Bool :=
  boundedNativeStorageMatches A plan.desc.semantics plan.desc.m plan.desc.k &&
    boundedNativeStorageMatches B plan.desc.semantics plan.desc.k plan.desc.n &&
    boundedNativeStorageMatches C plan.desc.semantics plan.desc.m plan.desc.n &&
    boundedNativeStateCurrent A && boundedNativeStateCurrent B

/-- The three `rns_matrix_storage_matches` of an operand validation. -/
def rnsStoragesMatch (plan : Plan) (A B C : RnsMatrix) : Bool :=
  rnsMatrixStorageMatches A plan.backend plan.desc.m plan.desc.k (rnsStoragePrefixForPlan plan) &&
    rnsMatrixStorageMatches B plan.backend plan.desc.k plan.desc.n (rnsStoragePrefixForPlan plan) &&
    rnsMatrixStorageMatches C plan.backend plan.desc.m plan.desc.n (rnsStoragePrefixForPlan plan)

/-- `validate_rns_gemm_operands`; the handles decide `&A == &C` and `&B == &C`. -/
def validateRnsGemmOperands (ctx : Context) (plan : Plan) (a b c : Handle) (A B C : RnsMatrix) :
    Status :=
  if !usesRnsStorage plan.desc.semantics || decide (plan.rnsPrefix = 0) then .invalidArgument
  else if !operandBackendsMatch ctx plan (hipDeviceBackend plan.backend) A B C then .invalidArgument
  else if !operandDescriptorsMatch plan (storageBoundKindForPlan plan) (rnsStoragePrefixForPlan plan)
      A B C then .invalidArgument
  else if nativeVectorBackend plan.backend then
    if plan.desc.semantics ≠ .boundedI64 ∧ plan.desc.semantics ≠ .boundedU64 then .invalidArgument
    else if !nativeOperandsMatch plan A B C then .invalidArgument
    else .success
  else if !rnsStoragesMatch plan A B C then .invalidArgument
  else if plan.backend = .hipDirect ∧ planAllZeroOutputTiles plan = true then .success
  else if !rnsResidueStateCurrentForBackend A plan.backend ||
      !rnsResidueStateCurrentForBackend B plan.backend then .invalidArgument
  else if exactWideSemantics plan.desc.semantics then
    if a = c ∨ b = c then .invalidArgument
    else match exactGemmRange plan A B with
      | .error status => status
      | .ok _ => .success
  else .success

/-- `validate_finite_gemm_operands`. -/
def validateFiniteGemmOperands (ctx : Context) (plan : Plan) (modulus : ℕ) (A B C : RnsMatrix) :
    Status :=
  if !usesFiniteStorage plan.desc.semantics ||
      !validFiniteModulusForSemantics plan.desc.semantics modulus ||
      decide (plan.desc.finiteModulus ≠ modulus) then .invalidArgument
  else if !operandBackendsMatch ctx plan (hipResidentRnsBackend plan.backend) A B C then
    .invalidArgument
  else if !operandDescriptorsMatch plan .none 0 A B C then .invalidArgument
  else if !finiteMatrixStorageMatches A plan.backend plan.desc.m plan.desc.k ||
      !finiteMatrixStorageMatches B plan.backend plan.desc.k plan.desc.n ||
      !finiteMatrixStorageMatches C plan.backend plan.desc.m plan.desc.n then .invalidArgument
  else if !rnsResidueStateCurrentForBackend A plan.backend ||
      !rnsResidueStateCurrentForBackend B plan.backend || decide (A.finiteModulus ≠ modulus) ||
      decide (B.finiteModulus ≠ modulus) then .invalidArgument
  else .success

/-- `validate_wrap_gemm_operands`. -/
def validateWrapGemmOperands (ctx : Context) (plan : Plan) (A B C : RnsMatrix) : Status :=
  if plan.desc.semantics ≠ .wrapU64Mod2_64 ∨ plan.rnsPrefix ≠ 0 then .invalidArgument
  else if !operandBackendsMatch ctx plan (hipResidentRnsBackend plan.backend) A B C then
    .invalidArgument
  else if !operandDescriptorsMatch plan .none 0 A B C then .invalidArgument
  else if A.hipResidues.isSome || B.hipResidues.isSome || C.hipResidues.isSome then .invalidArgument
  else if !wrapMatrixStorageMatches A plan.backend plan.desc.m plan.desc.k ||
      !wrapMatrixStorageMatches B plan.backend plan.desc.k plan.desc.n ||
      !wrapMatrixStorageMatches C plan.backend plan.desc.m plan.desc.n then .invalidArgument
  else if !wrapByteLimbStateCurrentForBackend A plan.backend ||
      !wrapByteLimbStateCurrentForBackend B plan.backend then .invalidArgument
  else .success

/-! ### What the device kernels write -/

/-- The device residues of every live matrix. -/
def Store.devicePlanes (s : Store) : Planes Handle := fun h => match s h with
  | some matrix => matrix.hipResidues.cells
  | none => fun _ => 0

/-- The device byte limbs of every live matrix. -/
def Store.deviceLimbs (s : Store) : Limbs Handle := fun h => match s h with
  | some matrix => matrix.hipByteLimbs.cells
  | none => fun _ => 0

/-- A cell the scheduled kernels set to zero: its tile is declared zero, or its tile is partly
covered by declared zero rows and columns and the cell lies on one. -/
def skippedCell (plan : Plan) (row col : ℕ) : Bool :=
  match tileScheduleEntryForCell plan row col with
  | some entry => entry.flags.zeroOutput || (entry.flags.zeroRowColProduct &&
      (decide (plan.zeroARows.getD row 0 ≠ 0) || decide (plan.zeroBCols.getD col 0 ≠ 0)))
  | none => false

/-- The output cells of `hip_direct_gemm_rns_device` and of the scheduled kernels: plane `p` of a cell
is written when `p` is below the prefix selected for the cell. -/
def hipDirectGemmCells (plan : Plan) (g : GemmArgs Handle) (mem : Planes Handle) : ℕ → Int8 := fun o =>
  let p := o / g.C.cols / g.C.rows
  let row := o / g.C.cols % g.C.rows
  let col := o % g.C.cols
  if p < selectedPrefixForCell plan row col then
    if skippedCell plan row col then 0
    else centeredResidue (cellDot g mem p row col) (modulusAt p)
  else mem g.C.buf o

/-- The output cells of `hip_direct_gemm_finite_u8_resident_device`. -/
def hipDirectFiniteCells (g : GemmArgs Handle) (mem : Planes Handle) : ℕ → Int8 := fun o =>
  if o < g.C.rows * g.C.cols then
    centeredResidue (cellDot g mem 0 (o / g.C.cols) (o % g.C.cols)) (g.modulus 0)
  else mem g.C.buf o

/-- The operation writes `meant` if its result is determined, and what it leaves otherwise. -/
def DeviceOp.runIf {α : Type} (op : DeviceOp α) (determined : Bool) (meant : ℕ → α) :
    Status × (ℕ → α) :=
  op.run (if determined then meant else op.left)

/-! ### Dispatch -/

/-- What the environment answers during one GEMM call: the CPU allocations, those of the temporary of
a sparse operand, the conversions of native operands, the status buffer and kernel of the vector ALU
with the value it reports, and the kernel of a device-resident backend. -/
structure GemmEnv where
  cpu : CpuEnv
  staged : Bool
  bridgeA : DeviceOp Int8
  bridgeB : DeviceOp Int8
  freeStatus : Option Failure
  allocStatus : Option Failure
  zeroStatus : Option Failure
  vectorI64 : DeviceOp Int64
  vectorU64 : DeviceOp UInt64
  copyStatus : Option Failure
  hostStatus : ℕ
  kernel : DeviceOp Int8
  limbs : DeviceOp UInt8

/-- No operation of the call fails, and the rows of the CPU kernels run in ascending order. -/
def GemmEnv.ok : GemmEnv :=
  ⟨.serial, true, ⟨none, fun _ => 0⟩, ⟨none, fun _ => 0⟩, none, none, none, ⟨none, fun _ => 0⟩,
    ⟨none, fun _ => 0⟩, none, 0, ⟨none, fun _ => 0⟩, ⟨none, fun _ => 0⟩⟩

/-- The vector-ALU branch of `rns8_gemm_rns`. -/
def vectorAluGemmRns (env : GemmEnv) (plan : Plan) (A B C : RnsMatrix) : Status × RnsMatrix :=
  let buffer := ensureUploadBuffer env.freeStatus env.allocStatus 4 C.hipStatusBytes
  let C := { C with hipStatusBytes := buffer.2 }
  if buffer.1 ≠ .success then (buffer.1, C)
  else if env.zeroStatus ≠ none then (outcome env.zeroStatus, C)
  else
    let signed := decide (plan.desc.semantics = .boundedI64)
    let status := outcome (if signed then env.vectorI64.failure else env.vectorU64.failure)
    let C := if signed then C.withNativeI64 env.vectorI64.left else C.withNativeU64 env.vectorU64.left
    if status ≠ .success then (status, C)
    else if env.copyStatus ≠ none then (outcome env.copyStatus, C)
    else if env.hostStatus ≠ 0 then (.rangeError, C)
    else (.success, { markOutputDeviceNativeCurrent C with
      sourceVersion := gemmOutputSourceVersion A B })

/-- The CPU branch of `rns8_gemm_rns`. -/
def cpuBranchGemmRns (env : GemmEnv) (plan : Plan) (a b c : Handle) (A B C : RnsMatrix)
    (range : ℤ × MatrixRanges) (s : Store) : Status × RnsMatrix :=
  match cpuGemmRns env.cpu plan a b c A B C s.planes with
  | (.success, mem) => (.success, commitExactRange
      { markOutputHostResiduesCurrent (C.withPlanes (mem c)) with
        sourceVersion := gemmOutputSourceVersion A B } plan range.1 range.2)
  | (status, mem) => (status, C.withPlanes (mem c))

/-- The branches of `rns8_gemm_rns` that run a kernel on device residues. -/
def residentGemmRns (env : GemmEnv) (determined : Bool) (meant : ℕ → Int8) (plan : Plan)
    (A B C : RnsMatrix) (range : ℤ × MatrixRanges) : Status × RnsMatrix :=
  match env.kernel.runIf determined meant with
  | (.success, cell) => (.success, commitExactRange
      { markOutputDeviceResiduesCurrent (C.withHipResidues cell) with
        sourceVersion := gemmOutputSourceVersion A B } plan range.1 range.2)
  | (status, cell) => (status, C.withHipResidues cell)

/-- The dispatch of `rns8_gemm_rns`. -/
def dispatchGemmRns (env : GemmEnv) (ctx : Context) (plan : Plan) (a b c : Handle)
    (A B C : RnsMatrix) (range : ℤ × MatrixRanges) (s : Store) : Status × RnsMatrix :=
  let g := gemmArgs plan a b c A B C modulusAt
  let separate := decide (a ≠ c) && decide (b ≠ c)
  match plan.backend with
  | .hipVectorAluInt64 => vectorAluGemmRns env plan A B C
  | .cpuReference => cpuBranchGemmRns env plan a b c A B C range s
  | .hipDirect =>
    residentGemmRns env separate (hipDirectGemmCells plan g s.devicePlanes) plan A B C range
  | .hipblaslt =>
    if ctx.hipblasltHandle = false ∨ plan.scheduleAdaptivePrefixActive = true ∨ plan.tileSchedule ≠ []
      then (.unsupportedBackend, C)
    else residentGemmRns env false env.kernel.left plan A B C range
  | .ck | .rocwmma => residentGemmRns env false env.kernel.left plan A B C range
  | .amdgpuBuiltins =>
    if plan.tileSchedule ≠ [] ∨ plan.scheduleAdaptivePrefixActive = true then (.unsupportedBackend, C)
    else residentGemmRns env false env.kernel.left plan A B C range
  | .auto | .wrap64ByteLimb => (.unsupportedBackend, C)

/-- `rns8_gemm_rns` after its operands are current. -/
def gemmRnsOperands (env : GemmEnv) (ctx : Context) (plan : Plan) (a b c : Handle)
    (A B C : RnsMatrix) (s : Store) : Status × RnsMatrix :=
  let operandStatus := validateRnsGemmOperands ctx plan a b c A B C
  if operandStatus ≠ .success then (operandStatus, C)
  else match exactGemmRange plan A B with
    | .error status => (status, C)
    | .ok range =>
      let C := if exactWideSemantics plan.desc.semantics then invalidateOutputCurrentness C else C
      dispatchGemmRns env ctx plan a b c A B C range s

/-- `ensure_logically_const_rns_input_current` on the matrix behind a handle. -/
def ensureInputCurrent (bridge : DeviceOp Int8) (ctx : Context) (plan : Plan) (h : Handle)
    (s : Store) : Status × Store :=
  match s h with
  | none => (.invalidArgument, s)
  | some matrix =>
    let r := ensureBoundedNativeResiduesCurrentForRnsPlan bridge ctx plan matrix
    (r.1, s.set h r.2)

/-- `if (status != RNS8_SUCCESS) return status;`, then the rest of the call. -/
def onSuccess (r : Status × Store) (next : Store → Status × Store) : Status × Store :=
  if r.1 = .success then next r.2 else r

/-- The call of `f` on the three matrices, whose output replaces the third. -/
def withOperands (a b c : Handle) (s : Store)
    (f : RnsMatrix → RnsMatrix → RnsMatrix → Status × RnsMatrix) : Status × Store :=
  match s a, s b, s c with
  | some A, some B, some C =>
    let r := f A B C
    (r.1, s.set c r.2)
  | _, _, _ => (.invalidArgument, s)

/-- `rns8_gemm_rns`. -/
def rns8GemmRns (env : GemmEnv) (ctx : Context) (plan : Plan) (workspace : Workspace)
    (a b c : Handle) (s : Store) : Status × Store :=
  if s a = none ∨ s b = none ∨ s c = none then (.invalidArgument, s)
  else
    let workspaceStatus := validatePlanContextWorkspace ctx plan workspace
    let trustedAllZeroDirectHip := decide (plan.backend = .hipDirect) && planAllZeroOutputTiles plan
    onSuccess (workspaceStatus, s) fun s =>
      onSuccess (if trustedAllZeroDirectHip then (.success, s)
          else onSuccess (ensureInputCurrent env.bridgeA ctx plan a s)
            (ensureInputCurrent env.bridgeB ctx plan b)) fun s =>
        withOperands a b c s fun A B C => gemmRnsOperands env ctx plan a b c A B C s

/-- `rns8_gemm_finite_u8` after its checks. -/
def dispatchGemmFiniteU8 (env : GemmEnv) (ctx : Context) (plan : Plan) (modulus : ℕ)
    (a b c : Handle) (A B C : RnsMatrix) (s : Store) : Status × RnsMatrix :=
  let commit (C : RnsMatrix) : RnsMatrix :=
    { C with finiteModulus := modulus, sourceVersion := gemmOutputSourceVersion A B }
  let resident (determined : Bool) (meant : ℕ → Int8) : Status × RnsMatrix :=
    match env.kernel.runIf determined meant with
    | (.success, cell) =>
      (.success, commit (markOutputDeviceResiduesCurrent (C.withHipResidues cell)))
    | (status, cell) => (status, C.withHipResidues cell)
  match plan.backend with
  | .cpuReference =>
    match cpuGemmFiniteU8 env.cpu plan modulus a b c A B C s.planes with
    | (.success, mem) => (.success, commit (markOutputHostResiduesCurrent (C.withPlanes (mem c))))
    | (status, mem) => (status, C.withPlanes (mem c))
  | .hipDirect => resident (decide (a ≠ c) && decide (b ≠ c))
      (hipDirectFiniteCells (gemmArgs plan a b c A B C fun _ => modulus) s.devicePlanes)
  | .hipblaslt =>
    if ctx.hipblasltHandle = false then (.unsupportedBackend, C) else resident false env.kernel.left
  | .ck | .rocwmma => resident false env.kernel.left
  | .amdgpuBuiltins =>
    if plan.tileSchedule ≠ [] ∨ plan.scheduleAdaptivePrefixActive = true then (.unsupportedBackend, C)
    else resident false env.kernel.left
  | .auto | .wrap64ByteLimb | .hipVectorAluInt64 => (.unsupportedBackend, C)

/-- `rns8_gemm_finite_u8`. -/
def rns8GemmFiniteU8 (env : GemmEnv) (ctx : Context) (plan : Plan) (workspace : Workspace)
    (modulus : ℕ) (a b c : Handle) (s : Store) : Status × Store :=
  if s a = none ∨ s b = none ∨ s c = none then (.invalidArgument, s)
  else onSuccess (validatePlanContextWorkspace ctx plan workspace, s) fun s =>
    withOperands a b c s fun A B C =>
      let operandStatus := validateFiniteGemmOperands ctx plan modulus A B C
      if operandStatus ≠ .success then (operandStatus, C)
      else dispatchGemmFiniteU8 env ctx plan modulus a b c A B C s

/-- `rns8_gemm_wrap_u64` after its checks; the source version of the output is not restamped. -/
def dispatchGemmWrapU64 (env : GemmEnv) (plan : Plan) (a b c : Handle) (A B C : RnsMatrix)
    (s : Store) : Status × RnsMatrix :=
  match plan.backend with
  | .wrap64ByteLimb =>
    match cpuGemmWrapU64 env.cpu plan a b c A B C s.limbs with
    | (.success, mem) => (.success, markOutputHostByteLimbsCurrent (C.withLimbs (mem c)))
    | (status, mem) => (status, C.withLimbs (mem c))
  | .hipDirect =>
    let meant := wrapLoop (wrapArgs plan a b c A B C) serialTeam s.deviceLimbs c
    match env.limbs.runIf (decide (a ≠ c) && decide (b ≠ c)) meant with
    | (.success, cell) =>
      (.success, markOutputDeviceByteLimbsCurrent (C.withHipByteLimbs cell))
    | (status, cell) => (status, C.withHipByteLimbs cell)
  | _ => (.unsupportedBackend, C)

/-- `rns8_gemm_wrap_u64`. -/
def rns8GemmWrapU64 (env : GemmEnv) (ctx : Context) (plan : Plan) (workspace : Workspace)
    (a b c : Handle) (s : Store) : Status × Store :=
  if s a = none ∨ s b = none ∨ s c = none then (.invalidArgument, s)
  else onSuccess (validatePlanContextWorkspace ctx plan workspace, s) fun s =>
    withOperands a b c s fun A B C =>
      let operandStatus := validateWrapGemmOperands ctx plan A B C
      if operandStatus ≠ .success then (operandStatus, C)
      else dispatchGemmWrapU64 env plan a b c A B C s

end Rns8
