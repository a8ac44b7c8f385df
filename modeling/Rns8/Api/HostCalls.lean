import Rns8.Api.Oneshot
import Rns8.Hip.HostCopies

/-!
# The accesses of the entry points to the caller's memory

For every pack, export and one-shot entry point, the record of what it does to the buffers of its
caller. The packs read element by element on the host, where they stage native values or prove a
range, and by one copy of the whole pitch on the direct HIP backend. The exports are those of a plan
of the direct HIP backend.
-/

namespace Rns8

open StridedBuffer

/-! ### Packs -/

/-- The source of a pack of `matrix`. -/
def packLayout (matrix : RnsMatrix) (ld elem : ℕ) : Strided :=
  ⟨matrix.desc.rows, matrix.desc.cols, ld, elem⟩

/-- The accesses of `stageUpload` and the copy that follows it. -/
def uploadAccesses {α : Type} (env : PackEnv α) (checked : Bool) (source : Strided) (capacity : ℕ) :
    List HostAccess :=
  if checked = false ∨ env.setDevice ≠ none then []
  else
    let bytes := sizeMul (sizeMul source.rows source.ld) source.elem
    .count bytes (source.rows * source.ld * source.elem) ::
      if (stageUpload env checked source.rows source.ld source.elem capacity).1 = .success then
        [wholeRead source bytes]
      else []

/-- The accesses of `upload_native_i64` and `upload_native_u64`: the staging vector and the rows that
fill it. -/
def nativeUploadAccesses {α : Type} (env : NativeEnv α) (ctx : Context) (matrix : RnsMatrix)
    (source : Strided) : List HostAccess :=
  if (ensureHipNativeStorage env.alloc env.zero ctx matrix).1 = .success then
    .count (sizeMul (sizeMul source.rows source.cols) 8) (source.rows * source.cols * 8) ::
      rowReads source
  else []

/-- The reads of `native_exact_ranges`. -/
def exactRangeReads (ctx : Context) (matrix : RnsMatrix) (exactWide : Semantics)
    (sourceVersion : UInt64) (source : Strided) : List HostAccess :=
  if matrix.desc.semantics ≠ exactWide ∨
      rnsMatrixStorageMatches matrix ctx.backend matrix.desc.rows matrix.desc.cols
        matrix.rnsPrefix = false ∨
      (hipResidentRnsBackend ctx.backend = true ∧ matrix.hipDeviceId ≠ ctx.deviceId) ∨
      sameSourceDeviceResiduePackCurrent ctx matrix sourceVersion = true then []
  else rowReads source

/-- The accesses of `packResidueMatrix` once its range is proven. The residue pack leaves the native
storage as it was. -/
def packResidueCopies {α : Type} (env : PackEnv α) (ctx : Context) (matrix : RnsMatrix)
    (bounded : Semantics) (ld elem : ℕ) (sourceVersion : UInt64) : List HostAccess :=
  let source := packLayout matrix ld elem
  let nativeCopy :=
    if matrix.desc.semantics = bounded then nativeUploadAccesses env.native ctx matrix source else []
  if nativeVectorBackend ctx.backend then nativeCopy
  else if rnsMatrixStorageMatches matrix ctx.backend matrix.desc.rows matrix.desc.cols
      matrix.rnsPrefix = false then []
  else if hipResidentRnsBackend ctx.backend then
    if matrix.hipDeviceId ≠ ctx.deviceId ∨
        sameSourceDeviceResiduePackCurrent ctx matrix sourceVersion = true then []
    else
      let checked := packDeviceChecked matrix.desc.rows matrix.desc.cols ld matrix.rnsPrefix
      uploadAccesses env checked source matrix.hipUploadBytes ++
        if (stageUpload env checked source.rows source.ld source.elem
            matrix.hipUploadBytes).1 = .success ∧ env.pack.failure = none ∧
            shouldPopulateNativeOnPack ctx matrix = true then nativeCopy
        else []
  else rowReads source

/-- The accesses of `packResidueMatrix`. -/
def packResidueAccesses {α : Type} (env : PackEnv α) (ctx : Context) (matrix : RnsMatrix)
    (source : PackSource) (ld elem : ℕ) (sourceVersion : UInt64) : List HostAccess :=
  exactRangeReads ctx matrix source.exactWide sourceVersion (packLayout matrix ld elem) ++
    match packExactProof env.ranges ctx matrix source sourceVersion with
    | .error _ => []
    | .ok _ => packResidueCopies env ctx matrix source.bounded ld elem sourceVersion

/-- `rns8_pack_i64`. -/
def packI64Call (env : PackEnv Int64) (ctx : Context) (matrix : RnsMatrix) (src : ℕ → Int64)
    (ld : ℕ) (sourceVersion : UInt64) : HostCall where
  status := (rns8PackI64 env ctx matrix src ld sourceVersion).1
  accesses :=
    if validMatrixAccess matrix.desc.rows matrix.desc.cols ld = false ∨
        (matrix.desc.semantics ≠ .boundedI64 ∧ matrix.desc.semantics ≠ .exactWideSigned) ∨
        ctx.backend ≠ matrix.backend then []
    else packResidueAccesses env ctx matrix (packSourceI64 env ctx src ld) ld 8 sourceVersion

/-- The accesses of `packWrapMatrix`. -/
def packWrapAccesses (env : PackEnv UInt64) (ctx : Context) (matrix : RnsMatrix) (ld : ℕ)
    (sourceVersion : UInt64) : List HostAccess :=
  let source := packLayout matrix ld 8
  if wrapMatrixStorageMatches matrix ctx.backend matrix.desc.rows matrix.desc.cols = false then []
  else if ctx.backend = .wrap64ByteLimb then rowReads source
  else if ctx.backend ≠ .hipDirect ∨ matrix.hipDeviceId ≠ ctx.deviceId ∨
      sameSourceDeviceByteLimbPackCurrent ctx matrix sourceVersion = true then []
  else uploadAccesses env (packWrapDeviceChecked matrix.desc.rows matrix.desc.cols ld) source
    matrix.hipUploadBytes

/-- `rns8_pack_u64`. -/
def packU64Call (env : PackEnv UInt64) (ctx : Context) (matrix : RnsMatrix) (src : ℕ → UInt64)
    (ld : ℕ) (sourceVersion : UInt64) : HostCall where
  status := (rns8PackU64 env ctx matrix src ld sourceVersion).1
  accesses :=
    if validMatrixAccess matrix.desc.rows matrix.desc.cols ld = false ∨
        (matrix.desc.semantics ≠ .boundedU64 ∧ matrix.desc.semantics ≠ .exactWideUnsigned ∧
          matrix.desc.semantics ≠ .wrapU64Mod2_64) ∨ ctx.backend ≠ matrix.backend then []
    else if matrix.desc.semantics = .wrapU64Mod2_64 then
      packWrapAccesses env ctx matrix ld sourceVersion
    else packResidueAccesses env ctx matrix (packSourceU64 env ctx src ld) ld 8 sourceVersion

/-- `rns8_pack_finite_u8`. -/
def packFiniteU8Call (env : PackEnv UInt8) (ctx : Context) (matrix : RnsMatrix) (modulus : ℕ)
    (src : ℕ → UInt8) (ld : ℕ) (sourceVersion : UInt64) : HostCall where
  status := (rns8PackFiniteU8 env ctx matrix modulus src ld sourceVersion).1
  accesses :=
    let source := packLayout matrix ld 1
    if validMatrixAccess matrix.desc.rows matrix.desc.cols ld = false ∨
        validFiniteModulusForSemantics matrix.desc.semantics modulus = false ∨
        ctx.backend ≠ matrix.backend ∨ usesFiniteStorage matrix.desc.semantics = false ∨
        finiteMatrixStorageMatches matrix ctx.backend matrix.desc.rows matrix.desc.cols = false then
      []
    else if hipResidentRnsBackend ctx.backend then
      if matrix.hipDeviceId ≠ ctx.deviceId ∨
          sameSourceFiniteDeviceResiduePackCurrent ctx matrix modulus sourceVersion = true then []
      else uploadAccesses env
        (packFiniteDeviceChecked matrix.desc.rows matrix.desc.cols ld modulus) source
        matrix.hipUploadBytes
    else if ctx.backend = .cpuReference then rowReads source
    else []

/-! ### Exports -/

/-- The target of an export under a plan. -/
def exportLayout (plan : Plan) (ld elem : ℕ) : Strided := ⟨plan.desc.m, plan.desc.n, ld, elem⟩

/-- The checks of the bounded device exports. A tiled export checks its tiles instead of the prefix,
and with every tile declared zero it has no status. -/
def boundedExportChecked (plan : Plan) (ld maxTileElements : ℕ) : Bool :=
  decide (plan.desc.n ≤ ld) && checkedMatrixElementsI32 plan.desc.m plan.desc.n &&
    (if plan.tileSchedule.isEmpty then
      decide (plan.rnsPrefix ≠ 0) && decide (plan.rnsPrefix ≤ maxSupportedPrefix)
    else checkedOutputBytes plan.desc.m plan.desc.n 8 &&
      (planAllZeroOutputTiles plan || (decide (plan.tileSchedule.length ≤ intMax) &&
        decide (maxTileElements ≠ 0) && decide (maxTileElements ≤ intMax) &&
        decide (plan.tileSchedule.length ≤ intMax / ((maxTileElements + 255) / 256)))))

/-- The elements of the largest tile, `hip_export_tile_max_elements`. -/
def exportTileMaxElements (plan : Plan) : ℕ :=
  listMax (plan.tileSchedule.map fun entry => entry.rowExtent * entry.colExtent)

/-- The length checks of `ensure_hip_export_tile_metadata`. -/
def tileTablesChecked (plan : Plan) : Bool :=
  decide (plan.tileSchedule.length ≤ sizeMax / tileScheduleEntryBytes) &&
    decide (plan.tileBounds.length ≤ sizeMax / 8)

/-- The loop of `ensure_hip_export_tile_metadata` over the extents: the first entry that is empty or
whose product does not fit decides. -/
def tileExtentStatus : List TileScheduleEntry → Status
  | [] => .success
  | entry :: entries =>
    if entry.rowExtent = 0 ∨ entry.colExtent = 0 then .invalidArgument
    else if sizeMax / entry.colExtent < entry.rowExtent then .rangeError
    else tileExtentStatus entries

/-- The outcome of `ensure_hip_export_tile_metadata`; `env.metadata` is that of its buffers and
copies. -/
def tileMetadataStatus (env : HipExportEnv) (plan : Plan) : Status :=
  if tileTablesChecked plan = false then .internalError
  else if tileExtentStatus plan.tileSchedule ≠ .success then tileExtentStatus plan.tileSchedule
  else if exportTileMaxElements plan = 0 ∨ intMax < exportTileMaxElements plan then .rangeError
  else outcome env.metadata

/-- The byte counts of the tile tables and of the zero masks. -/
def tileMetadataCounts (plan : Plan) : List HostAccess :=
  let zeroA := if plan.desc.flags.allowProvenZeroRowColSkips then plan.zeroARows.length else 0
  let zeroB := if plan.desc.flags.allowProvenZeroRowColSkips then plan.zeroBCols.length else 0
  [.count (sizeMul plan.tileSchedule.length tileScheduleEntryBytes)
      (plan.tileSchedule.length * tileScheduleEntryBytes),
    .count (sizeMul plan.tileBounds.length 8) (plan.tileBounds.length * 8),
    .count zeroA zeroA, .count zeroB zeroB]

/-- `ensure_export_plan_resources`, for the tiled exports: the tables are copied unless every tile is
declared zero. -/
def ensureExportPlanResources (env : HipExportEnv) (plan : Plan) : HostCall :=
  if plan.tileSchedule.isEmpty ∨ planAllZeroOutputTiles plan = true then ⟨.success, []⟩
  else ⟨tileMetadataStatus env plan,
    if tileTablesChecked plan then tileMetadataCounts plan else []⟩

/-- The device part of `rns8_export_i64` and `rns8_export_u64`; `hostStatus` is what the kernel
reports. -/
def boundedExportDevice (env : HipExportEnv) (plan : Plan) (C : RnsMatrix) (ld : ℕ)
    (hostStatus : Status) : HostCall :=
  if plan.tileSchedule.isEmpty = false ∧ plan.tileBounds.length ≠ plan.tileSchedule.length then
    ⟨.internalError, []⟩
  else (ensureExportPlanResources env plan).andThen <|
    if boundedExportChecked plan ld (exportTileMaxElements plan) = false then ⟨.invalidArgument, []⟩
    else deviceExport env (!planAllZeroOutputTiles plan) hostStatus (exportLayout plan ld 8)
      (sizeMul (sizeMul plan.desc.m plan.desc.n) 8) C.hipExportBytes C.hipStatusBytes

/-- `rns8_export_i64` and `rns8_export_u64`, which differ in the semantics. -/
def exportBoundedCall (semantics : Semantics) (env : HipExportEnv) (ctx : Context) (plan : Plan)
    (C : RnsMatrix) (ld : ℕ) (hostStatus : Status) : HostCall :=
  if validMatrixAccess plan.desc.m plan.desc.n ld = false then ⟨.invalidArgument, []⟩
  else
    let exportStatus := validateExportMatrix ctx plan C semantics plan.desc.boundKind plan.rnsPrefix
    if exportStatus ≠ .success then ⟨exportStatus, []⟩
    else boundedExportDevice env plan C ld hostStatus

/-- The checks of the exact-wide device exports. -/
def limbExportChecked (plan : Plan) (ld limbCount : ℕ) : Bool :=
  decide (plan.desc.n ≤ ld) && checkedMatrixElementsI32 plan.desc.m plan.desc.n &&
    decide (plan.rnsPrefix ≠ 0) && decide (plan.rnsPrefix ≤ maxSupportedPrefix) &&
    decide (limbCount ≠ 0) && decide (limbCount ≤ 32) && checkedLimbExportPitch ld limbCount

/-- `rns8_export_exact_wide_signed_limbs` and `rns8_export_exact_wide_unsigned_limbs`. The tree export
of large outputs makes the same copies. -/
def exportLimbsCall (semantics : Semantics) (env : HipExportEnv) (ctx : Context) (plan : Plan)
    (C : RnsMatrix) (ld limbCount : ℕ) (hostStatus : Status) : HostCall :=
  if validLimbExportAccess plan.desc.m plan.desc.n ld limbCount = false then ⟨.invalidArgument, []⟩
  else
    let exportStatus := validateExportMatrix ctx plan C semantics .none plan.rnsPrefix
    if exportStatus ≠ .success then ⟨exportStatus, []⟩
    else if limbExportChecked plan ld limbCount = false then ⟨.invalidArgument, []⟩
    else deviceExport env (decide (limbCount < 3)) hostStatus
      (exportLayout plan ld (limbCount * 8))
      (sizeMul (sizeMul (sizeMul plan.desc.m plan.desc.n) limbCount) 8) C.hipExportBytes
      C.hipStatusBytes

/-- The checks of `wrap64_hip_export_u64_device`. -/
def wrapExportChecked (plan : Plan) (ld : ℕ) : Bool :=
  decide (plan.desc.n ≤ ld) && checkedMatrixElementsI32 plan.desc.m plan.desc.n &&
    checkedU64Bytes plan.desc.m plan.desc.n && checkedU64Bytes plan.desc.m ld &&
    checkedLimbBytes plan.desc.m plan.desc.n

/-- `rns8_export_wrap_u64`. -/
def exportWrapCall (env : HipExportEnv) (ctx : Context) (plan : Plan) (C : RnsMatrix) (ld : ℕ) :
    HostCall :=
  if validMatrixAccess plan.desc.m plan.desc.n ld = false then ⟨.invalidArgument, []⟩
  else
    let exportStatus := validateExportMatrix ctx plan C .wrapU64Mod2_64 .none 0
    if exportStatus ≠ .success then ⟨exportStatus, []⟩
    else if wrapExportChecked plan ld = false then ⟨.invalidArgument, []⟩
    else deviceExport env false .success (exportLayout plan ld 8)
      (sizeMul (sizeMul plan.desc.m plan.desc.n) 8) C.hipExportBytes C.hipStatusBytes

/-- The checks of `hip_direct_export_finite_u8_device`. -/
def finiteExportChecked (plan : Plan) (modulus ld : ℕ) : Bool :=
  decide (2 ≤ modulus) && decide (modulus ≤ 256) && decide (plan.desc.n ≤ ld) &&
    checkedMatrixElementsI32 plan.desc.m plan.desc.n && checkedOutputBytes plan.desc.m plan.desc.n 1 &&
    checkedOutputBytes plan.desc.m ld 1

/-- `rns8_export_finite_u8`. -/
def exportFiniteU8Call (env : HipExportEnv) (ctx : Context) (plan : Plan) (modulus : ℕ)
    (C : RnsMatrix) (ld : ℕ) : HostCall :=
  if validMatrixAccess plan.desc.m plan.desc.n ld = false then ⟨.invalidArgument, []⟩
  else
    let exportStatus := validateFiniteExportMatrix ctx plan modulus C
    if exportStatus ≠ .success then ⟨exportStatus, []⟩
    else if finiteExportChecked plan modulus ld = false then ⟨.invalidArgument, []⟩
    else deviceExport env false .success (exportLayout plan ld 1)
      (sizeMul (sizeMul plan.desc.m plan.desc.n) 1) C.hipExportBytes C.hipStatusBytes

/-! ### One-shot calls -/

/-- A step of a path, or its end. -/
def stepCall {β : Type} (step : Except Status β) (next : β → HostCall) : HostCall :=
  match step with
  | .error status => ⟨status, []⟩
  | .ok value => next value

/-- The resident path: its two packs, the GEMM and the export. -/
def residentOneshotCall {α : Type} (calls : OneshotCalls α)
    (packCall : PackEnv α → Context → RnsMatrix → (ℕ → α) → ℕ → UInt64 → HostCall)
    (env : OneshotEnv α) (ctx : Context) (desc : GemmDesc) (A : ℕ → α) (lda : ℕ) (B : ℕ → α)
    (ldb : ℕ) (exportCall : Plan → RnsMatrix → HostCall) : HostCall :=
  stepCall (createResidentOneshotState env ctx desc) fun state =>
    (packCall env.packA ctx state.A A lda calls.versionA).andThen <|
      (packCall env.packB ctx state.B B ldb calls.versionB).andThen <|
        stepCall (residentOneshot calls env ctx desc A lda B ldb) fun output =>
          exportCall output.1 output.2

/-- The copies of the native path, of the whole pitch of both sources. -/
def nativeUploadsCall {α : Type} (env : OneshotEnv α) (desc : GemmDesc) (elem lda ldb : ℕ) : HostCall :=
  let sourceA : Strided := ⟨desc.m, desc.k, lda, elem⟩
  let sourceB : Strided := ⟨desc.k, desc.n, ldb, elem⟩
  let bytesA := sizeMul (sizeMul desc.m lda) elem
  let bytesB := sizeMul (sizeMul desc.k ldb) elem
  HostCall.andThen ⟨if env.allocA ≠ none then outcome env.allocA else outcome env.allocB,
      [.count bytesA (desc.m * lda * elem), .count bytesB (desc.k * ldb * elem)]⟩ <|
    HostCall.andThen ⟨outcome env.setDeviceA, []⟩ <|
      HostCall.andThen ⟨outcome env.uploadA, [wholeRead sourceA bytesA]⟩ <|
        HostCall.andThen ⟨outcome env.setDeviceB, []⟩
          ⟨outcome env.uploadB, [wholeRead sourceB bytesB]⟩

/-- The native path. -/
def nativeOneshotCall {α : Type} (path : Except Status (Plan × RnsMatrix)) (env : OneshotEnv α)
    (ctx : Context) (desc : GemmDesc) (eligible : Plan → Bool) (boundKind : Plan → BoundKind)
    (elem lda ldb : ℕ) (exportCall : Plan → RnsMatrix → HostCall) : HostCall :=
  stepCall (createDirectHipNativeOneshotState env ctx desc eligible boundKind) fun _ =>
    if checkedNativeInputBytes desc.m lda elem = false ∨
        checkedNativeInputBytes desc.k ldb elem = false then ⟨.invalidArgument, []⟩
    else (nativeUploadsCall env desc elem lda ldb).andThen <|
      stepCall path fun output => exportCall output.1 output.2

/-- The native path where it is tried, then the resident path. -/
def HostCall.orResident (tried : Bool) (native resident : HostCall) : HostCall :=
  if tried = false then resident
  else if native.status ≠ .unsupportedBackend then native
  else ⟨resident.status, native.accesses ++ resident.accesses⟩

/-- A call after its preflight. -/
def HostCall.after (preflight : Status) (call : HostCall) : HostCall :=
  if preflight ≠ .success then ⟨preflight, []⟩ else call

/-- What the exports of the two paths of a one-shot call are given. -/
structure OneshotExports where
  native : HipExportEnv
  nativeStatus : Status
  resident : HipExportEnv
  residentStatus : Status

/-- `rns8_gemm_i64_oneshot`. -/
def gemmI64OneshotCall (env : OneshotEnv Int64) (exports : OneshotExports) (ctx : Context)
    (desc : GemmDesc) (A : ℕ → Int64) (lda : ℕ) (B : ℕ → Int64) (ldb ldc : ℕ) : HostCall :=
  HostCall.after (validateTypedOneshotContract ctx desc .boundedI64 lda ldb ldc) <|
    HostCall.orResident (nativePrefix9Requested ctx desc .globalMaxAbs)
      (nativeOneshotCall (directHipI64NativePrefix9Oneshot env ctx desc A lda B ldb) env ctx desc
        (fun plan => directHipNativePrefix9OneshotEligible ctx desc plan .boundedI64)
        storageBoundKindForPlan 8 lda ldb fun plan output =>
          exportBoundedCall .boundedI64 exports.native ctx plan output ldc exports.nativeStatus)
      (residentOneshotCall oneshotCallsI64 packI64Call env ctx desc A lda B ldb fun plan output =>
        exportBoundedCall .boundedI64 exports.resident ctx plan output ldc exports.residentStatus)

/-- `rns8_gemm_u64_oneshot`. -/
def gemmU64OneshotCall (env : OneshotEnv UInt64) (exports : OneshotExports) (ctx : Context)
    (desc : GemmDesc) (A : ℕ → UInt64) (lda : ℕ) (B : ℕ → UInt64) (ldb ldc : ℕ) : HostCall :=
  HostCall.after (validateTypedOneshotContract ctx desc .boundedU64 lda ldb ldc) <|
    HostCall.orResident (nativePrefix9Requested ctx desc .globalMaxUnsigned)
      (nativeOneshotCall (directHipU64NativePrefix9Oneshot env ctx desc A lda B ldb) env ctx desc
        (fun plan => directHipNativePrefix9OneshotEligible ctx desc plan .boundedU64)
        storageBoundKindForPlan 8 lda ldb fun plan output =>
          exportBoundedCall .boundedU64 exports.native ctx plan output ldc exports.nativeStatus)
      (residentOneshotCall oneshotCallsU64 packU64Call env ctx desc A lda B ldb fun plan output =>
        exportBoundedCall .boundedU64 exports.resident ctx plan output ldc exports.residentStatus)

/-- `rns8_gemm_wrap_u64_oneshot`. -/
def gemmWrapU64OneshotCall (env : OneshotEnv UInt64) (exports : OneshotExports) (ctx : Context)
    (desc : GemmDesc) (A : ℕ → UInt64) (lda : ℕ) (B : ℕ → UInt64) (ldb ldc : ℕ) : HostCall :=
  HostCall.after (validateTypedOneshotContract ctx desc .wrapU64Mod2_64 lda ldb ldc) <|
    residentOneshotCall oneshotCallsWrapU64 packU64Call env ctx desc A lda B ldb fun plan output =>
      exportWrapCall exports.resident ctx plan output ldc

/-- `rns8_gemm_finite_ring_u8_oneshot` and `rns8_gemm_finite_field_u8_oneshot`. -/
def gemmFiniteU8OneshotCall (semantics : Semantics) (env : OneshotEnv UInt8)
    (exports : OneshotExports) (ctx : Context) (desc : GemmDesc) (modulus : ℕ) (A : ℕ → UInt8)
    (lda : ℕ) (B : ℕ → UInt8) (ldb ldc : ℕ) : HostCall :=
  HostCall.after (validateFiniteU8OneshotContract ctx desc semantics modulus lda ldb ldc) <|
    HostCall.orResident (decide (ctx.backend = .hipDirect))
      (nativeOneshotCall (directHipFiniteU8NativeOneshot env ctx desc semantics modulus A lda B ldb)
        env ctx desc
        (fun plan => directHipFiniteNativeOneshotEligible ctx desc plan semantics modulus)
        (fun _ => desc.boundKind) 1 lda ldb fun plan output =>
          exportFiniteU8Call exports.native ctx plan modulus output ldc)
      (residentOneshotCall (oneshotCallsFiniteU8 modulus)
        (fun env ctx matrix => packFiniteU8Call env ctx matrix modulus) env ctx desc A lda B ldb
        fun plan output => exportFiniteU8Call exports.resident ctx plan modulus output ldc)

end Rns8
