import Mathlib.Algebra.Group.Nat.Defs
import Mathlib.Data.Nat.Notation
import Mathlib.Data.Int.Notation

/-!
# The vocabulary of the API: statuses, kinds, descriptors and plans

The enumerations and records that every entry point reads. Enumerations keep the source's names,
without the `RNS8_` prefix. Records keep the source's fields, with these representation choices:

* a dimension, a leading dimension, a tile size or a prefix length is a natural number; the code
  rejects the negative values of its signed dimensions together with `0`;
* the flag words `rns8_gemm_desc.flags` and `rns8_plan_tile_schedule_entry.flags` are records of
  their bits, `reserved` standing for any bit the header does not define;
* the outcome of `valid_abi` on the leading `struct_size` and `abi_version` of a descriptor is the
  field `abiOk`;
* `prefix` is a reserved word of Lean, so the field of that name is `rnsPrefix`.
-/

namespace Rns8

/-- `rns8_status`. -/
inductive Status
  | success | invalidArgument | unsupportedOs | unsupportedArch | unsupportedBackend | rangeError
  | accumulationOverflowRisk | workspaceTooSmall | backendFailure | verificationFailed
  | internalError
  deriving DecidableEq, Repr

/-- `rns8_backend_kind`. -/
inductive BackendKind
  | auto | cpuReference | hipDirect | hipblaslt | ck | rocwmma | wrap64ByteLimb | hipVectorAluInt64
  | amdgpuBuiltins
  deriving DecidableEq, Repr

/-- `rns8_semantics`; the reserved research values are one constructor, as every function treats
them alike. -/
inductive Semantics
  | boundedI64 | boundedU64 | exactWideSigned | exactWideUnsigned | wrapU64Mod2_64 | finiteRingU8
  | finiteFieldU8 | research
  deriving DecidableEq, Repr

/-- `rns8_bound_kind`. -/
inductive BoundKind
  | none | globalMaxAbs | globalMaxUnsigned | perTileMaxAbs | perTileMaxUnsigned | inputRangeAndK
  deriving DecidableEq, Repr

/-- `rns8_layout`. -/
inductive Layout
  | rowMajor | columnMajor
  deriving DecidableEq, Repr

/-- The bits of `rns8_gemm_desc.flags` (`RNS8_PLAN_*`). -/
structure PlanFlags where
  forceFixedPrefix : Bool := false
  allowProvenZeroTileSkips : Bool := false
  allowProvenZeroRowColSkips : Bool := false
  reserved : Bool := false
  deriving DecidableEq, Repr

/-- The bits of `rns8_plan_tile_schedule_entry.flags` (`RNS8_TILE_SCHEDULE_*`). -/
structure TileFlags where
  zeroOutput : Bool := false
  zeroRowColProduct : Bool := false
  deriving DecidableEq, Repr

/-- `entry_flags |= flags`. -/
def TileFlags.or (f g : TileFlags) : TileFlags where
  zeroOutput := f.zeroOutput || g.zeroOutput
  zeroRowColProduct := f.zeroRowColProduct || g.zeroRowColProduct

/-- A caller array of an optional descriptor field: the pointer and what it points to. -/
abbrev CallerArray (α : Type) := Option (ℕ → α)

/-- `rns8_gemm_desc`. -/
structure GemmDesc where
  abiOk : Bool := true
  semantics : Semantics
  boundKind : BoundKind
  requestedBackend : BackendKind
  m : ℕ
  n : ℕ
  k : ℕ
  bound : ℕ := 0
  maxPrefix : ℕ := 0
  tileM : ℕ := 0
  tileN : ℕ := 0
  finiteModulus : ℕ := 0
  flags : PlanFlags := {}
  tileBounds : CallerArray ℕ := none
  tileBoundsCount : ℕ := 0
  lhsBound : ℕ := 0
  rhsBound : ℕ := 0
  zeroARows : CallerArray ℕ := none
  zeroARowsCount : ℕ := 0
  zeroBCols : CallerArray ℕ := none
  zeroBColsCount : ℕ := 0

/-- `rns8_matrix_desc`; `flagsSet` says that some bit of the reserved `flags` word is set. -/
structure MatrixDesc where
  abiOk : Bool := true
  rows : ℕ
  cols : ℕ
  logicalLd : ℕ := 0
  semantics : Semantics
  logicalLayout : Layout := .rowMajor
  boundKind : BoundKind
  tileM : ℕ := 0
  tileN : ℕ := 0
  maxPrefix : ℕ := 0
  flagsSet : Bool := false
  deriving DecidableEq, Repr

/-- `rns8_plan_tile_schedule_entry`. -/
structure TileScheduleEntry where
  flags : TileFlags := {}
  tileRow : ℕ
  tileCol : ℕ
  rowOffset : ℕ
  colOffset : ℕ
  rowExtent : ℕ
  colExtent : ℕ
  requiredPrefix : ℕ
  selectedPrefix : ℕ
  groupIndex : ℕ
  rangeBitLength : ℕ
  deriving DecidableEq, Repr

/-- `sizeof(rns8_plan_tile_schedule_entry)`. -/
def tileScheduleEntryBytes : ℕ := 80

/-- `rns8_plan`, without the `backend_*` report strings and the accumulator metadata: no arithmetic
reads them. They are in `PlanMetadata`, where creation writes them and the check compares them. -/
structure Plan where
  desc : GemmDesc
  rnsPrefix : ℕ
  modulusProduct : ℕ := 0
  backend : BackendKind
  scheduleTileRows : ℕ := 0
  scheduleTileCols : ℕ := 0
  scheduleTileCount : ℕ := 0
  scheduleMinRequiredPrefix : ℕ := 0
  scheduleMaxRequiredPrefix : ℕ := 0
  scheduleMinSelectedPrefix : ℕ := 0
  scheduleMaxSelectedPrefix : ℕ := 0
  schedulePrefixGroupCount : ℕ := 0
  scheduleRangeBitLength : ℕ := 0
  scheduleAdaptivePrefixActive : Bool := false
  scheduleAdaptiveSkipActive : Bool := false
  scheduleFlags : TileFlags := {}
  zeroARowCount : ℕ := 0
  zeroBColCount : ℕ := 0
  zeroRowColProductCount : ℕ := 0
  tileBounds : List ℕ := []
  tileSchedule : List TileScheduleEntry := []
  zeroARows : List ℕ := []
  zeroBCols : List ℕ := []

/-- `rns8_context`; `hipblasltHandle` says that the handle was created. -/
structure Context where
  backend : BackendKind
  autoBackendSelection : Bool := false
  deviceId : ℤ := -1
  hipblasltHandle : Bool := false
  deriving DecidableEq, Repr

/-- A context of the CPU backend. -/
def Context.cpu : Context := { backend := .cpuReference }

/-! ### Constants -/

/-- `RNS8_DEFAULT_BOUNDED_PREFIX`. -/
def defaultBoundedPrefix : ℕ := 9

/-- `RNS8_MAX_SUPPORTED_PREFIX`. -/
def maxSupportedPrefix : ℕ := 20

/-- `RNS8_SAFE_INT32_K_BLOCK`. -/
def safeInt32KBlock : ℕ := 65536

/-- `std::numeric_limits<std::size_t>::max()`, also `UINT64_MAX`. -/
def sizeMax : ℕ := 2 ^ 64 - 1

/-- `std::numeric_limits<int64_t>::max()`. -/
def int64Max : ℕ := 2 ^ 63 - 1

/-- `std::numeric_limits<int>::max()`. -/
def intMax : ℕ := 2 ^ 31 - 1

/-! ### Backends and semantics -/

/-- `uses_rns_storage`. -/
def usesRnsStorage : Semantics → Bool
  | .boundedI64 | .boundedU64 | .exactWideSigned | .exactWideUnsigned => true
  | _ => false

/-- `uses_finite_storage`. -/
def usesFiniteStorage : Semantics → Bool
  | .finiteRingU8 | .finiteFieldU8 => true
  | _ => false

/-- `exact_wide_semantics`. -/
def exactWideSemantics : Semantics → Bool
  | .exactWideSigned | .exactWideUnsigned => true
  | _ => false

/-- `hip_resident_rns_backend`, in a build with every accelerator compiled in. -/
def hipResidentRnsBackend : BackendKind → Bool
  | .hipDirect | .hipblaslt | .ck | .rocwmma | .amdgpuBuiltins => true
  | _ => false

/-- `native_vector_backend`. -/
def nativeVectorBackend : BackendKind → Bool
  | .hipVectorAluInt64 => true
  | _ => false

/-- `hip_device_backend`. -/
def hipDeviceBackend (backend : BackendKind) : Bool :=
  hipResidentRnsBackend backend || nativeVectorBackend backend

/-- `context_accepts_backend`. -/
def contextAcceptsBackend (ctx : Context) (backend : BackendKind) : Bool :=
  ctx.backend == backend ||
    (ctx.autoBackendSelection && ctx.backend == .hipDirect && hipDeviceBackend backend)

/-- `is_per_tile_bound_kind`. -/
def isPerTileBoundKind : BoundKind → Bool
  | .perTileMaxAbs | .perTileMaxUnsigned => true
  | _ => false

/-- `is_input_range_bound_kind`. -/
def isInputRangeBoundKind : BoundKind → Bool
  | .inputRangeAndK => true
  | _ => false

/-- `storage_bound_kind_for_plan`. -/
def storageBoundKindForPlan (plan : Plan) : BoundKind :=
  if plan.desc.boundKind ≠ .inputRangeAndK then plan.desc.boundKind
  else if plan.desc.semantics = .boundedI64 then .globalMaxAbs else .globalMaxUnsigned

/-- `rns_storage_prefix_for_plan`. -/
def rnsStoragePrefixForPlan (plan : Plan) : ℕ :=
  if isPerTileBoundKind plan.desc.boundKind && decide (0 < plan.scheduleMaxSelectedPrefix) then
    plan.scheduleMaxSelectedPrefix
  else plan.rnsPrefix

end Rns8
