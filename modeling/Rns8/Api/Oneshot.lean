import Rns8.Api.Export
import Rns8.Api.Pack
import Rns8.Api.Sparse

/-!
# The one-shot entry points

`api_oneshot.cpp`: a one-shot call creates a plan, matrices and a workspace, packs its sources, runs
the GEMM and exports the output. On the direct HIP backend a plan with nine moduli and one bound, and
every finite plan, multiplies the native values instead and falls back to the resident path when that
reports `RNS8_UNSUPPORTED_BACKEND`.
-/

namespace Rns8

/-! ### Contracts -/

/-- The accesses to the three matrices of the caller. -/
def oneshotAccessOk (desc : GemmDesc) (lda ldb ldc : ℕ) : Bool :=
  validMatrixAccess desc.m desc.k lda && validMatrixAccess desc.k desc.n ldb &&
    validMatrixAccess desc.m desc.n ldc

/-- `validate_typed_oneshot_contract`. -/
def validateTypedOneshotContract (ctx : Context) (desc : GemmDesc) (expected : Semantics)
    (lda ldb ldc : ℕ) : Status :=
  if !desc.abiOk || decide (desc.semantics ≠ expected) then .invalidArgument
  else
    let validation := validateGemmDesc desc (requestedPrefix desc.semantics desc.maxPrefix)
    if validation ≠ .success then validation
    else if !oneshotAccessOk desc lda ldb ldc then .invalidArgument
    else
      let requested := effectiveBackend desc.requestedBackend ctx.backend
      if requested ≠ ctx.backend ∨ backendSupportsSemantics requested desc.semantics = false then
        .unsupportedBackend
      else .success

/-- `finite_backend_supports`. -/
def finiteBackendSupports : BackendKind → Bool
  | .cpuReference | .hipDirect | .hipblaslt | .ck | .rocwmma | .amdgpuBuiltins => true
  | _ => false

/-- `validate_finite_u8_oneshot_contract`. -/
def validateFiniteU8OneshotContract (ctx : Context) (desc : GemmDesc) (expected : Semantics)
    (modulus lda ldb ldc : ℕ) : Status :=
  if !desc.abiOk || decide (desc.semantics ≠ expected) then .invalidArgument
  else if !validFiniteModulusForSemantics expected modulus || decide (desc.m = 0) ||
      decide (desc.n = 0) || decide (desc.k = 0) || decide (desc.boundKind ≠ .none) ||
      decide (desc.bound ≠ 0) || decide (desc.maxPrefix ≠ 0) ||
      decide (desc.finiteModulus ≠ modulus) || decide (desc.flags ≠ ({} : PlanFlags)) ||
      desc.tileBounds.isSome || decide (desc.tileBoundsCount ≠ 0) || decide (desc.lhsBound ≠ 0) ||
      decide (desc.rhsBound ≠ 0) || !validTileSize desc.tileM || !validTileSize desc.tileN then
    .invalidArgument
  else if !oneshotAccessOk desc lda ldb ldc then .invalidArgument
  else
    let requested := effectiveBackend desc.requestedBackend ctx.backend
    if requested ≠ ctx.backend ∨ finiteBackendSupports requested = false then .unsupportedBackend
    else .success

/-! ### The resident path -/

/-- What the environment answers during a one-shot call: the three matrices, the packs and the GEMM of
the resident path, and the output, the buffers, the uploads and the kernel of the native path. An
upload sets the device and then copies. -/
structure OneshotEnv (α : Type) where
  createA : CreateEnv
  createB : CreateEnv
  createC : CreateEnv
  packA : PackEnv α
  packB : PackEnv α
  gemm : GemmEnv
  nativeC : CreateEnv
  allocA : Option Failure
  allocB : Option Failure
  setDeviceA : Option Failure
  uploadA : Option Failure
  setDeviceB : Option Failure
  uploadB : Option Failure
  native : DeviceOp Int8

/-- `resident_oneshot_state`. -/
structure OneshotState where
  plan : Plan
  workspace : Workspace
  A : RnsMatrix
  B : RnsMatrix
  C : RnsMatrix

/-- The three matrices under the handles `0`, `1` and `2`. -/
def OneshotState.store (state : OneshotState) : Store
  | 0 => some state.A
  | 1 => some state.B
  | 2 => some state.C
  | _ => none

/-- The descriptor of a matrix of the resident path. -/
def oneshotMatrixDesc (plan : Plan) (semantics : Semantics) (rows cols : ℕ) : MatrixDesc :=
  makeMatrixDesc rows cols semantics (storageBoundKindForPlan plan) (rnsStoragePrefixForPlan plan)
    plan.desc.tileM plan.desc.tileN

/-- `create_resident_oneshot_state`. -/
def createResidentOneshotState {α : Type} (env : OneshotEnv α) (ctx : Context) (desc : GemmDesc) :
    Except Status OneshotState := do
  let plan ← rns8CreatePlan ctx desc
  let A ← rns8CreateMatrix env.createA ctx (oneshotMatrixDesc plan desc.semantics desc.m desc.k)
  let B ← rns8CreateMatrix env.createB ctx (oneshotMatrixDesc plan desc.semantics desc.k desc.n)
  let C ← rns8CreateMatrix env.createC ctx (oneshotMatrixDesc plan desc.semantics desc.m desc.n)
  let workspace ← rns8CreateWorkspace ctx plan
  return ⟨plan, workspace, A, B, C⟩

/-- The pack, the GEMM and the source versions of a family of one-shot calls. -/
structure OneshotCalls (α : Type) where
  pack : PackEnv α → Context → RnsMatrix → (ℕ → α) → ℕ → UInt64 → Status × RnsMatrix
  gemm : GemmEnv → Context → Plan → Workspace → Store → Status × Store
  versionA : UInt64
  versionB : UInt64

/-- `rns8_pack_i64` and `rns8_gemm_rns`. -/
def oneshotCallsI64 : OneshotCalls Int64 :=
  ⟨rns8PackI64, fun env ctx plan workspace => rns8GemmRns env ctx plan workspace 0 1 2, 1, 1⟩

/-- `rns8_pack_u64` and `rns8_gemm_rns`. -/
def oneshotCallsU64 : OneshotCalls UInt64 :=
  ⟨rns8PackU64, fun env ctx plan workspace => rns8GemmRns env ctx plan workspace 0 1 2, 1, 1⟩

/-- `rns8_pack_u64` and `rns8_gemm_wrap_u64`. -/
def oneshotCallsWrapU64 : OneshotCalls UInt64 :=
  ⟨rns8PackU64, fun env ctx plan workspace => rns8GemmWrapU64 env ctx plan workspace 0 1 2, 1, 1⟩

/-- `rns8_pack_finite_u8` and `rns8_gemm_finite_u8`. -/
def oneshotCallsFiniteU8 (modulus : ℕ) : OneshotCalls UInt8 :=
  ⟨fun env ctx matrix => rns8PackFiniteU8 env ctx matrix modulus,
    fun env ctx plan workspace => rns8GemmFiniteU8 env ctx plan workspace modulus 0 1 2, 1, 2⟩

/-- A status as a step of a call. -/
def stepOf {β : Type} (r : Status × β) : Except Status β :=
  if r.1 = .success then .ok r.2 else .error r.1

/-- The resident path up to the export: the plan and the output. -/
def residentOneshot {α : Type} (calls : OneshotCalls α) (env : OneshotEnv α) (ctx : Context)
    (desc : GemmDesc) (A : ℕ → α) (lda : ℕ) (B : ℕ → α) (ldb : ℕ) :
    Except Status (Plan × RnsMatrix) := do
  let state ← createResidentOneshotState env ctx desc
  let packedA ← stepOf (calls.pack env.packA ctx state.A A lda calls.versionA)
  let packedB ← stepOf (calls.pack env.packB ctx state.B B ldb calls.versionB)
  let store ← stepOf (calls.gemm env.gemm ctx state.plan state.workspace
    { state with A := packedA, B := packedB }.store)
  match store 2 with
  | some C => return (state.plan, C)
  | none => .error .internalError

/-! ### The native path of the direct HIP backend -/

/-- `direct_hip_native_prefix9_oneshot_eligible`. -/
def directHipNativePrefix9OneshotEligible (ctx : Context) (desc : GemmDesc) (plan : Plan)
    (semantics : Semantics) : Bool :=
  !(decide (ctx.backend ≠ .hipDirect) || decide (plan.backend ≠ .hipDirect) ||
      decide (plan.desc.semantics ≠ semantics) || decide (plan.rnsPrefix ≠ defaultBoundedPrefix) ||
      !plan.tileSchedule.isEmpty || desc.flags.allowProvenZeroTileSkips ||
      desc.flags.allowProvenZeroRowColSkips || desc.flags.reserved || desc.tileBounds.isSome ||
      decide (desc.tileBoundsCount ≠ 0)) &&
    match semantics with
    | .boundedI64 => decide (storageBoundKindForPlan plan = .globalMaxAbs)
    | .boundedU64 => decide (storageBoundKindForPlan plan = .globalMaxUnsigned)
    | _ => false

/-- `direct_hip_finite_native_oneshot_eligible`. -/
def directHipFiniteNativeOneshotEligible (ctx : Context) (desc : GemmDesc) (plan : Plan)
    (semantics : Semantics) (modulus : ℕ) : Bool :=
  decide (ctx.backend = .hipDirect) && decide (plan.backend = .hipDirect) &&
    usesFiniteStorage semantics && decide (plan.desc.semantics = semantics) &&
    decide (plan.rnsPrefix = 0) && plan.tileSchedule.isEmpty && decide (desc.boundKind = .none) &&
    decide (desc.bound = 0) && decide (desc.maxPrefix = 0) && decide (desc.finiteModulus = modulus) &&
    decide (desc.flags = ({} : PlanFlags)) && desc.tileBounds.isNone &&
    decide (desc.tileBoundsCount = 0)

/-- `create_direct_hip_native_oneshot_state` and its finite sibling: the plan and the output. -/
def createDirectHipNativeOneshotState {α : Type} (env : OneshotEnv α) (ctx : Context)
    (desc : GemmDesc) (eligible : Plan → Bool) (boundKind : Plan → BoundKind) :
    Except Status (Plan × RnsMatrix) := do
  let plan ← rns8CreatePlan ctx desc
  if eligible plan = false then .error .unsupportedBackend
  else
    let C ← rns8CreateMatrix env.nativeC ctx (makeMatrixDesc desc.m desc.n desc.semantics
      (boundKind plan) plan.rnsPrefix plan.desc.tileM plan.desc.tileN)
    return (plan, C)

/-- The shape checks of the native kernels. -/
def nativeGemmShapeOk (m n k lda ldb ldc : ℕ) : Bool :=
  decide (0 < m) && decide (0 < n) && decide (0 < k) && decide (k ≤ lda) && decide (n ≤ ldb) &&
    decide (n ≤ ldc) && decide (m ≤ intMax) && decide (n ≤ intMax) && decide (k ≤ intMax) &&
    decide (lda ≤ intMax) && decide (ldb ≤ intMax) && decide (ldc ≤ intMax)

/-- The buffers and uploads of the native path. -/
def nativeUploads {α : Type} (env : OneshotEnv α) : Status :=
  if env.allocA ≠ none then outcome env.allocA
  else if env.allocB ≠ none then outcome env.allocB
  else if env.setDeviceA ≠ none then outcome env.setDeviceA
  else if env.uploadA ≠ none then outcome env.uploadA
  else if env.setDeviceB ≠ none then outcome env.setDeviceB
  else outcome env.uploadB

/-- The native path up to the export, on sources of `elem` bytes an element: the plan and the output.
The kernel writes `meant` or fails. -/
def directHipNativeOneshot {α : Type} (env : OneshotEnv α) (ctx : Context) (desc : GemmDesc)
    (eligible : Plan → Bool) (boundKind : Plan → BoundKind) (elem lda ldb : ℕ)
    (meant : RnsMatrix → ℕ → Int8) (finiteModulus : ℕ) : Except Status (Plan × RnsMatrix) := do
  let state ← createDirectHipNativeOneshotState env ctx desc eligible boundKind
  if checkedNativeInputBytes desc.m lda elem = false ∨
      checkedNativeInputBytes desc.k ldb elem = false then .error .invalidArgument
  else if nativeUploads env ≠ .success then .error (nativeUploads env)
  else if nativeGemmShapeOk desc.m desc.n desc.k lda ldb state.2.desc.logicalLd = false then
    .error .invalidArgument
  else
    let cell ← stepOf (env.native.run (meant state.2))
    let C := markOutputDeviceResiduesCurrent (state.2.withHipResidues cell)
    return (state.1, { C with
      finiteModulus := if finiteModulus = 0 then C.finiteModulus else finiteModulus })

/-- The residues of the product of two native sources. -/
def nativeProductPlanes (desc : GemmDesc) (planes : ℕ) (modulus : ℕ → ℕ) (A B : ℕ → ℕ → ℤ)
    (C : RnsMatrix) : ℕ → Int8 :=
  packPlanes planes desc.m desc.n modulus (fun row col => ∑ kk ∈ Finset.range desc.k,
    A row kk * B kk col) C.hipResidues.cells

/-- The native path of `rns8_gemm_i64_oneshot`. -/
def directHipI64NativePrefix9Oneshot (env : OneshotEnv Int64) (ctx : Context) (desc : GemmDesc)
    (A : ℕ → Int64) (lda : ℕ) (B : ℕ → Int64) (ldb : ℕ) : Except Status (Plan × RnsMatrix) :=
  directHipNativeOneshot env ctx desc
    (fun plan => directHipNativePrefix9OneshotEligible ctx desc plan .boundedI64)
    storageBoundKindForPlan 8 lda ldb
    (nativeProductPlanes desc 9 modulusAt (sourceI64 A lda) (sourceI64 B ldb)) 0

/-- The native path of `rns8_gemm_u64_oneshot`. -/
def directHipU64NativePrefix9Oneshot (env : OneshotEnv UInt64) (ctx : Context) (desc : GemmDesc)
    (A : ℕ → UInt64) (lda : ℕ) (B : ℕ → UInt64) (ldb : ℕ) : Except Status (Plan × RnsMatrix) :=
  directHipNativeOneshot env ctx desc
    (fun plan => directHipNativePrefix9OneshotEligible ctx desc plan .boundedU64)
    storageBoundKindForPlan 8 lda ldb
    (nativeProductPlanes desc 9 modulusAt (sourceU64 A lda) (sourceU64 B ldb)) 0

/-- The native path of the finite one-shot calls. -/
def directHipFiniteU8NativeOneshot (env : OneshotEnv UInt8) (ctx : Context) (desc : GemmDesc)
    (semantics : Semantics) (modulus : ℕ) (A : ℕ → UInt8) (lda : ℕ) (B : ℕ → UInt8) (ldb : ℕ) :
    Except Status (Plan × RnsMatrix) :=
  directHipNativeOneshot env ctx desc
    (fun plan => directHipFiniteNativeOneshotEligible ctx desc plan semantics modulus)
    (fun _ => desc.boundKind) 1 lda ldb
    (nativeProductPlanes desc 1 (fun _ => modulus) (sourceU8 A lda) (sourceU8 B ldb)) modulus

/-- The bounded one-shot calls that try the native path first. -/
def nativePrefix9Requested (ctx : Context) (desc : GemmDesc) (globalKind : BoundKind) : Bool :=
  decide (ctx.backend = .hipDirect) &&
    (decide (desc.boundKind = globalKind) || decide (desc.boundKind = .inputRangeAndK)) &&
    (decide (desc.maxPrefix = 0) || decide (desc.maxPrefix = defaultBoundedPrefix))

end Rns8
