import Rns8.Api.Gemm
import Rns8.Reconstruct.Crt

/-!
# Sparse left operands

`api_sparse.cpp`: left operands with exactly two nonzero values in every group of four along `k`. A
group is stored as its two values and one byte of lane indices; `expandSparse_pack` says that
expanding gives back what was packed. On the CPU a sparse GEMM expands its operand into a temporary
residue matrix and runs the dense GEMM over it.

The group of row `r` (counted over all planes) and columns `4 g … 4 g + 3` has the number
`r * groups_per_row + g`, the sum of the two bases the loops of the code add up.
-/

namespace Rns8

/-- `rns8_sparse_value_signedness`. -/
inductive SparseValueSignedness
  | unspecified | signedI8 | unsignedU8
  deriving DecidableEq, Repr

/-- `rns8_sparse_matrix_desc`. The field `contractOk` stands for the checks of the ABI header, the
flags and reserved words, the contract, the operand and the index layout, of which one value each is
accepted. -/
structure SparseMatrixDesc where
  contractOk : Bool := true
  semantics : Semantics
  boundKind : BoundKind
  rows : ℕ
  expandedK : ℕ
  groupSize : ℕ := 4
  nonzerosPerGroup : ℕ := 2
  maxPrefix : ℕ := 0
  finiteModulus : ℕ := 0
  valueSignedness : SparseValueSignedness
  deriving DecidableEq, Repr

/-- `rns8_sparse_matrix`; `hipPacked` says that both device pointers are set, and the two `hip` fields
above it are what they point to. -/
structure SparseMatrix where
  desc : SparseMatrixDesc
  backend : BackendKind
  matrixInstanceId : UInt64
  valuePlaneCount : ℕ
  sourceVersion : UInt64 := 0
  exactMaxMagnitude : ℤ := 0
  exactRangePrefix : ℕ := 0
  groupCount : ℕ
  packedValues : ℕ → UInt8 := fun _ => 0
  packedIndices : ℕ → UInt8 := fun _ => 0
  hostCurrent : Bool := false
  deviceCurrent : Bool := false
  hipDeviceId : ℤ := -1
  hipPackedValues : ℕ → UInt8 := fun _ => 0
  hipPackedIndices : ℕ → UInt8 := fun _ => 0
  hipPacked : Bool := false

/-! ### Contracts -/

/-- `sparse_semantic_identity_valid`: `plane_count`. -/
def sparseSemanticIdentityValid (desc : SparseMatrixDesc) : Option ℕ :=
  if usesRnsStorage desc.semantics then
    if desc.finiteModulus ≠ 0 ∨ desc.maxPrefix = 0 ∨ maxSupportedPrefix < desc.maxPrefix ∨
        desc.valueSignedness ≠ .signedI8 then none
    else if exactWideSemantics desc.semantics then
      if desc.boundKind ≠ .none then none else some desc.maxPrefix
    else if desc.boundKind = .none then none
    else some desc.maxPrefix
  else if usesFiniteStorage desc.semantics then
    if desc.boundKind ≠ .none ∨ desc.maxPrefix ≠ 0 ∨ desc.valueSignedness ≠ .unsignedU8 ∨
        validFiniteModulusForSemantics desc.semantics desc.finiteModulus = false then none
    else some 1
  else none

/-- The number of groups in a row. -/
def SparseMatrixDesc.groupsPerRow (desc : SparseMatrixDesc) : ℕ := desc.expandedK / 4

/-- `sparse_contract_valid`: `plane_count`; the other counts are products of it. -/
def sparseContractValid (desc : SparseMatrixDesc) : Option ℕ :=
  match sparseSemanticIdentityValid desc with
  | none => none
  | some planeCount =>
    let groupsPerPlane := desc.rows * desc.groupsPerRow
    if !desc.contractOk || decide (desc.rows = 0) || decide (desc.expandedK = 0) ||
        decide (desc.groupSize ≠ 4) || decide (desc.nonzerosPerGroup ≠ 2) ||
        decide (desc.expandedK % 4 ≠ 0) then none
    else if sizeMax < groupsPerPlane ∨ sizeMax < groupsPerPlane * planeCount ∨
        sizeMax / 2 < groupsPerPlane * planeCount then none
    else some planeCount

/-! ### Packing and expanding groups -/

/-- The two values of a group and its index byte, if exactly two lanes are nonzero. -/
def packGroup (lane : ℕ → UInt8) : Option (UInt8 × UInt8 × UInt8) :=
  match (List.range 4).filter fun i => decide (lane i ≠ 0) with
  | [i, j] => some (lane i, lane j, UInt8.ofNat i ||| (UInt8.ofNat j <<< 2))
  | _ => none

/-- The lanes of a group of a dense source with leading dimension `ld`. -/
def groupLanes (groupsPerRow ld : ℕ) (dense : ℕ → UInt8) (group lane : ℕ) : UInt8 :=
  dense (group / groupsPerRow * ld + group % groupsPerRow * 4 + lane)

/-- `rns8_pack_sparse_a_4_to_2_u8`: the packed values and indices. -/
def packSparseA4To2 (desc : SparseMatrixDesc) (dense : ℕ → UInt8) (ld : ℕ) :
    Except Status ((ℕ → UInt8) × (ℕ → UInt8)) :=
  if ld < desc.expandedK then .error .invalidArgument
  else match sparseContractValid desc with
    | none => .error .invalidArgument
    | some planes =>
      let group g := packGroup (groupLanes desc.groupsPerRow ld dense g)
      if (List.range (planes * desc.rows * desc.groupsPerRow)).all fun g => (group g).isSome then
        .ok (fun o => match group (o / 2) with
            | some (v0, v1, _) => if o % 2 = 0 then v0 else v1
            | none => 0,
          fun g => match group g with
            | some (_, _, index) => index
            | none => 0)
      else .error .invalidArgument

/-- The lane byte of a stored group. -/
def expandLane (v0 v1 encoded : UInt8) (lane : ℕ) : UInt8 :=
  let idx0 := (encoded &&& 3).toNat
  let idx1 := ((encoded >>> 2) &&& 3).toNat
  if lane = idx1 then v1 else if lane = idx0 then v0 else 0

/-- The checks of a stored group. -/
def groupWellFormed (v0 v1 encoded : UInt8) : Bool :=
  decide ((encoded &&& 3).toNat < ((encoded >>> 2) &&& 3).toNat) && decide (v0 ≠ 0) &&
    decide (v1 ≠ 0) && decide (encoded &&& 0xf0 = 0)

/-- `rns8_expand_sparse_a_4_to_2_u8` into a dense buffer without padding, zero where it is not
written. -/
def expandSparseA4To2 (desc : SparseMatrixDesc) (values indices : ℕ → UInt8) :
    Except Status (ℕ → UInt8) :=
  match sparseContractValid desc with
  | none => .error .invalidArgument
  | some planes =>
    if (List.range (planes * desc.rows * desc.groupsPerRow)).all fun g =>
        groupWellFormed (values (g * 2)) (values (g * 2 + 1)) (indices g) then
      .ok fun o =>
        let row := o / desc.expandedK
        let col := o % desc.expandedK
        let g := row * desc.groupsPerRow + col / 4
        if row < planes * desc.rows then
          expandLane (values (g * 2)) (values (g * 2 + 1)) (indices g) (col % 4)
        else 0
    else .error .invalidArgument

/-! ### Creating and packing a sparse matrix -/

/-- `sparse_device_backend_supported`, in a build with every accelerator compiled in. -/
def sparseDeviceBackendSupported (backend : BackendKind) : Bool := decide (backend = .amdgpuBuiltins)

/-- `rns8_create_sparse_matrix`. -/
def rns8CreateSparseMatrix (hostAlloc : Bool) (instanceId : UInt64) (ctx : Context)
    (desc : SparseMatrixDesc) : Except Status SparseMatrix :=
  match sparseContractValid desc with
  | none => .error .invalidArgument
  | some planes =>
    if !backendSupportsSemantics ctx.backend desc.semantics then .error .unsupportedBackend
    else if ctx.backend ≠ .cpuReference ∧ sparseDeviceBackendSupported ctx.backend = false then
      .error .unsupportedBackend
    else if hostAlloc = false then .error .internalError
    else .ok
      { desc
        backend := ctx.backend
        matrixInstanceId := instanceId
        valuePlaneCount := planes
        groupCount := planes * desc.rows * desc.groupsPerRow
        hipDeviceId := ctx.deviceId }

/-- The magnitude of a cell of an exact-wide source of residue planes. -/
def sparseCellMagnitude (semantics : Semantics) (rnsPrefix : ℕ) (residues : ℕ → Int8) : ℤ :=
  let value := reconstructCanonical residues rnsPrefix
  let value := if semantics = .exactWideSigned then
    centeredFromCanonical value (modulusProduct rnsPrefix) else value
  |value|

/-- The largest magnitude of an exact-wide source, `maximum`. -/
def sparseMaximum (desc : SparseMatrixDesc) (dense : ℕ → UInt8) (ld : ℕ) : ℤ :=
  (List.range desc.rows).foldl (fun maximum row =>
    (List.range desc.expandedK).foldl (fun maximum col =>
      max maximum (sparseCellMagnitude desc.semantics desc.maxPrefix fun p =>
        (dense (p * desc.rows * ld + row * ld + col)).toInt8)) maximum) 0

/-- What the environment answers while a sparse matrix is packed: the staging vectors, the outcome of
the device upload with whether both device pointers are set when it fails and what they then point
to, and the allocations of the cache key. -/
structure SparsePackEnv where
  staged : Bool
  upload : Option Failure
  packedLeft : Bool
  left : (ℕ → UInt8) × (ℕ → UInt8)
  keyed : Bool

/-- `upload_sparse_device_storage`. -/
def uploadSparseDeviceStorage (env : SparsePackEnv) (ctx : Context) (matrix : SparseMatrix) :
    Status × SparseMatrix :=
  if !matrix.hostCurrent then (.invalidArgument, matrix)
  else if !sparseDeviceBackendSupported matrix.backend || decide (matrix.hipDeviceId ≠ ctx.deviceId) ||
      decide (matrix.groupCount = 0) then (.invalidArgument, { matrix with deviceCurrent := false })
  else match env.upload with
    | none => (.success, { matrix with
        deviceCurrent := true
        hipPackedValues := matrix.packedValues
        hipPackedIndices := matrix.packedIndices
        hipPacked := true })
    | some failure => (failure.1, { matrix with
        deviceCurrent := false
        hipPackedValues := env.left.1
        hipPackedIndices := env.left.2
        hipPacked := env.packedLeft })

/-- `matrix->cache_key = build_sparse_cache_key(*matrix)`, the last step of a pack. -/
def assignSparseCacheKey (env : SparsePackEnv) (matrix : SparseMatrix) : Status × SparseMatrix :=
  (if env.keyed then .success else .internalError, matrix)

/-- `rns8_pack_sparse_a_4_to_2_matrix_u8`. The source is staged before the matrix is touched; the
upload and the cache key come after that. -/
def rns8PackSparseA4To2Matrix (env : SparsePackEnv) (ctx : Context) (matrix : SparseMatrix)
    (dense : ℕ → UInt8) (ld : ℕ) (sourceVersion : UInt64) : Status × SparseMatrix :=
  if ctx.backend ≠ matrix.backend then (.invalidArgument, matrix)
  else if env.staged = false then (.internalError, matrix)
  else match packSparseA4To2 matrix.desc dense ld with
    | .error status => (status, matrix)
    | .ok packed =>
      let exact := exactWideSemantics matrix.desc.semantics
      let matrix := { matrix with
        packedValues := packed.1
        packedIndices := packed.2
        exactMaxMagnitude := if exact then sparseMaximum matrix.desc dense ld else 0
        exactRangePrefix := if exact then matrix.desc.maxPrefix else 0
        sourceVersion := sourceVersion
        hostCurrent := true
        deviceCurrent := false }
      if sparseDeviceBackendSupported matrix.backend then
        match uploadSparseDeviceStorage env ctx matrix with
        | (.success, matrix) => assignSparseCacheKey env matrix
        | (status, matrix) => (status, matrix)
      else assignSparseCacheKey env matrix

/-! ### Sparse GEMMs -/

/-- `sparse_rns_matches_plan`. -/
def sparseRnsMatchesPlan (sparse : SparseMatrix) (plan : Plan) : Bool :=
  usesRnsStorage plan.desc.semantics && decide (sparse.desc.semantics = plan.desc.semantics) &&
    decide (sparse.desc.boundKind = storageBoundKindForPlan plan) &&
    decide (sparse.desc.rows = plan.desc.m) && decide (sparse.desc.expandedK = plan.desc.k) &&
    decide (rnsStoragePrefixForPlan plan ≤ sparse.desc.maxPrefix) &&
    decide (sparse.desc.finiteModulus = 0) &&
    decide (sparse.valuePlaneCount = sparse.desc.maxPrefix) && decide (sparse.valuePlaneCount ≠ 0)

/-- `sparse_finite_matches_plan`. -/
def sparseFiniteMatchesPlan (sparse : SparseMatrix) (plan : Plan) (modulus : ℕ) : Bool :=
  usesFiniteStorage plan.desc.semantics && decide (sparse.desc.semantics = plan.desc.semantics) &&
    decide (sparse.desc.boundKind = .none) && decide (sparse.desc.rows = plan.desc.m) &&
    decide (sparse.desc.expandedK = plan.desc.k) && decide (sparse.desc.maxPrefix = 0) &&
    decide (sparse.desc.finiteModulus = modulus) && decide (sparse.valuePlaneCount = 1)

/-- `make_matrix_desc`. -/
def makeMatrixDesc (rows cols : ℕ) (semantics : Semantics) (boundKind : BoundKind)
    (rnsPrefix tileM tileN : ℕ) : MatrixDesc where
  rows := rows
  cols := cols
  semantics := semantics
  boundKind := boundKind
  logicalLd := cols
  tileM := tileM
  tileN := tileN
  maxPrefix := rnsPrefix

/-- `make_sparse_expanded_rns_matrix`; an expansion that fails clears the residues. -/
def makeSparseExpandedRnsMatrix (sparse : SparseMatrix) (plan : Plan) : RnsMatrix :=
  let storagePrefix := rnsStoragePrefixForPlan plan
  let residues : Buffer Int8 :=
    match expandSparseA4To2 { sparse.desc with maxPrefix := storagePrefix } sparse.packedValues
        sparse.packedIndices with
    | .ok expanded =>
      ⟨sparse.desc.maxPrefix * plan.desc.m * plan.desc.k, fun o => (expanded o).toInt8⟩
    | .error _ => ⟨0, fun _ => 0⟩
  { desc := makeMatrixDesc plan.desc.m plan.desc.k plan.desc.semantics (storageBoundKindForPlan plan)
      storagePrefix plan.desc.tileM plan.desc.tileN
    backend := .cpuReference
    matrixInstanceId := sparse.matrixInstanceId
    rnsPrefix := sparse.desc.maxPrefix
    sourceVersion := sparse.sourceVersion
    exactMaxMagnitude := sparse.exactMaxMagnitude
    exactRangePrefix := sparse.exactRangePrefix
    residues }

/-- `make_sparse_expanded_finite_matrix`. -/
def makeSparseExpandedFiniteMatrix (sparse : SparseMatrix) (plan : Plan) (modulus : ℕ) : RnsMatrix :=
  let residues : Buffer Int8 :=
    match expandSparseA4To2 sparse.desc sparse.packedValues sparse.packedIndices with
    | .ok expanded => ⟨plan.desc.m * plan.desc.k,
        packPlanes 1 plan.desc.m plan.desc.k (fun _ => modulus) (sourceU8 expanded plan.desc.k)
          fun _ => 0⟩
    | .error _ => ⟨0, fun _ => 0⟩
  { desc := makeMatrixDesc plan.desc.m plan.desc.k plan.desc.semantics .none 0 plan.desc.tileM
      plan.desc.tileN
    backend := .cpuReference
    matrixInstanceId := sparse.matrixInstanceId
    rnsPrefix := 0
    finiteModulus := modulus
    sourceVersion := sparse.sourceVersion
    residues }

/-- The address of the temporary of a sparse GEMM, different from those of its matrices. -/
def temporary (b c : Handle) : Handle := b + c + 1

/-- The residues during a sparse GEMM: the temporary next to the live matrices. -/
def Store.planesWith (s : Store) (b c : Handle) (dense : RnsMatrix) : Planes Handle :=
  Function.update s.planes (temporary b c) dense.residues.cell

/-- The device checks shared by `validate_sparse_rns_device_operands` and its finite sibling. -/
def sparseDeviceOperandsMatch (ctx : Context) (plan : Plan) (A : SparseMatrix) (B C : RnsMatrix)
    (boundKind : BoundKind) (rnsPrefix : ℕ) : Bool :=
  contextAcceptsBackend ctx plan.backend && A.deviceCurrent && decide (A.hipDeviceId = ctx.deviceId) &&
    A.hipPacked && matrixBackendCompatibleWithPlan ctx B plan.backend &&
    matrixBackendCompatibleWithPlan ctx C plan.backend && decide (B.hipDeviceId = ctx.deviceId) &&
    decide (C.hipDeviceId = ctx.deviceId) &&
    matrixDescriptorMatches B plan.desc.semantics boundKind plan.desc.k plan.desc.n rnsPrefix
      plan.desc.tileM plan.desc.tileN &&
    matrixDescriptorMatches C plan.desc.semantics boundKind plan.desc.m plan.desc.n rnsPrefix
      plan.desc.tileM plan.desc.tileN

/-- The range check of a sparse GEMM: its proof uses the two magnitudes only. -/
def sparseGemmRange (plan : Plan) (A : SparseMatrix) (b c : Handle) (B : RnsMatrix) :
    Except Status ℤ :=
  if !exactWideSemantics plan.desc.semantics then .ok 0
  else if b = c then .error .invalidArgument
  else if A.exactRangePrefix < plan.rnsPrefix ∨ B.exactRangePrefix < plan.rnsPrefix then
    .error .rangeError
  else
    let bound := plan.desc.k * A.exactMaxMagnitude * B.exactMaxMagnitude
    if exactRangeFits plan.desc.semantics bound plan.modulusProduct then .ok bound
    else .error .rangeError

/-- The CPU branch of `rns8_gemm_rns_sparse_a`. -/
def cpuGemmRnsSparseA (env : GemmEnv) (ctx : Context) (plan : Plan) (A : SparseMatrix)
    (b c : Handle) (B C : RnsMatrix) (bound : ℤ) (s : Store) : Status × RnsMatrix :=
  let denseA := makeSparseExpandedRnsMatrix A plan
  let t := temporary b c
  if !A.hostCurrent then (.invalidArgument, C)
  else if env.staged = false then (.internalError, C)
  else if denseA.residues.size = 0 then (.invalidArgument, C)
  else
    let operandStatus := validateRnsGemmOperands ctx plan t b c denseA B C
    if operandStatus ≠ .success then (operandStatus, C)
    else
      let C := if exactWideSemantics plan.desc.semantics then invalidateOutputCurrentness C else C
      match cpuGemmRns env.cpu plan t b c denseA B C (s.planesWith b c denseA) with
      | (.success, mem) => (.success, commitExactRange
          { markOutputHostResiduesCurrent (C.withPlanes (mem c)) with
            sourceVersion := gemmOutputSourceVersionValues A.sourceVersion B.sourceVersion }
          plan bound {})
      | (status, mem) => (status, C.withPlanes (mem c))

/-- The device branch of `rns8_gemm_rns_sparse_a`. -/
def deviceGemmRnsSparseA (env : GemmEnv) (ctx : Context) (plan : Plan) (A : SparseMatrix)
    (B C : RnsMatrix) (bound : ℤ) : Status × RnsMatrix :=
  let storagePrefix := rnsStoragePrefixForPlan plan
  if plan.tileSchedule ≠ [] ∨ plan.scheduleAdaptivePrefixActive = true then (.unsupportedBackend, C)
  else if !sparseDeviceOperandsMatch ctx plan A B C (storageBoundKindForPlan plan) storagePrefix ||
      !rnsMatrixStorageMatches B plan.backend plan.desc.k plan.desc.n storagePrefix ||
      !rnsMatrixStorageMatches C plan.backend plan.desc.m plan.desc.n storagePrefix ||
      !rnsResidueStateCurrentForBackend B plan.backend then (.invalidArgument, C)
  else
    let C := if exactWideSemantics plan.desc.semantics then invalidateOutputCurrentness C else C
    match env.kernel.run env.kernel.left with
    | (.success, cell) => (.success, commitExactRange
        { markOutputDeviceResiduesCurrent (C.withHipResidues cell) with
          sourceVersion := gemmOutputSourceVersionValues A.sourceVersion B.sourceVersion }
        plan bound {})
    | (status, cell) => (status, C.withHipResidues cell)

/-- `rns8_gemm_rns_sparse_a` after its workspace check. -/
def gemmRnsSparseAOperands (env : GemmEnv) (ctx : Context) (plan : Plan) (A : SparseMatrix)
    (b c : Handle) (B C : RnsMatrix) (s : Store) : Status × RnsMatrix :=
  if !sparseRnsMatchesPlan A plan then (.invalidArgument, C)
  else match sparseGemmRange plan A b c B with
    | .error status => (status, C)
    | .ok bound =>
      if plan.backend = .cpuReference ∧ A.backend = .cpuReference then
        cpuGemmRnsSparseA env ctx plan A b c B C bound s
      else if plan.backend = .amdgpuBuiltins ∧ A.backend = .amdgpuBuiltins then
        deviceGemmRnsSparseA env ctx plan A B C bound
      else (.unsupportedBackend, C)

/-- `rns8_gemm_rns_sparse_a`. -/
def rns8GemmRnsSparseA (env : GemmEnv) (ctx : Context) (plan : Plan) (workspace : Workspace)
    (A : SparseMatrix) (b c : Handle) (s : Store) : Status × Store :=
  if s b = none ∨ s c = none then (.invalidArgument, s)
  else onSuccess (validatePlanContextWorkspace ctx plan workspace, s) fun s =>
    withOperands b b c s fun B _ C => gemmRnsSparseAOperands env ctx plan A b c B C s

/-- The CPU branch of `rns8_gemm_finite_u8_sparse_a`. -/
def cpuGemmFiniteU8SparseA (env : GemmEnv) (ctx : Context) (plan : Plan) (modulus : ℕ)
    (A : SparseMatrix) (b c : Handle) (B C : RnsMatrix) (s : Store) : Status × RnsMatrix :=
  let denseA := makeSparseExpandedFiniteMatrix A plan modulus
  let t := temporary b c
  if !A.hostCurrent then (.invalidArgument, C)
  else if env.staged = false then (.internalError, C)
  else if denseA.residues.size = 0 then (.invalidArgument, C)
  else
    let operandStatus := validateFiniteGemmOperands ctx plan modulus denseA B C
    if operandStatus ≠ .success then (operandStatus, C)
    else match cpuGemmFiniteU8 env.cpu plan modulus t b c denseA B C (s.planesWith b c denseA) with
      | (.success, mem) => (.success, { markOutputHostResiduesCurrent (C.withPlanes (mem c)) with
          finiteModulus := modulus
          sourceVersion := gemmOutputSourceVersionValues A.sourceVersion B.sourceVersion })
      | (status, mem) => (status, C.withPlanes (mem c))

/-- The device branch of `rns8_gemm_finite_u8_sparse_a`. -/
def deviceGemmFiniteU8SparseA (env : GemmEnv) (ctx : Context) (plan : Plan) (modulus : ℕ)
    (A : SparseMatrix) (B C : RnsMatrix) : Status × RnsMatrix :=
  if plan.tileSchedule ≠ [] ∨ plan.scheduleAdaptivePrefixActive = true then (.unsupportedBackend, C)
  else if !sparseDeviceOperandsMatch ctx plan A B C .none 0 ||
      !finiteMatrixStorageMatches B plan.backend plan.desc.k plan.desc.n ||
      !finiteMatrixStorageMatches C plan.backend plan.desc.m plan.desc.n ||
      !rnsResidueStateCurrentForBackend B plan.backend ||
      decide (B.finiteModulus ≠ modulus) then (.invalidArgument, C)
  else match env.kernel.run env.kernel.left with
    | (.success, cell) => (.success, { markOutputDeviceResiduesCurrent (C.withHipResidues cell) with
        finiteModulus := modulus
        sourceVersion := gemmOutputSourceVersionValues A.sourceVersion B.sourceVersion })
    | (status, cell) => (status, C.withHipResidues cell)

/-- `rns8_gemm_finite_u8_sparse_a` after its workspace check. -/
def gemmFiniteU8SparseAOperands (env : GemmEnv) (ctx : Context) (plan : Plan) (modulus : ℕ)
    (A : SparseMatrix) (b c : Handle) (B C : RnsMatrix) (s : Store) : Status × RnsMatrix :=
  if !sparseFiniteMatchesPlan A plan modulus then (.invalidArgument, C)
  else if plan.backend = .cpuReference ∧ A.backend = .cpuReference then
    cpuGemmFiniteU8SparseA env ctx plan modulus A b c B C s
  else if plan.backend = .amdgpuBuiltins ∧ A.backend = .amdgpuBuiltins then
    deviceGemmFiniteU8SparseA env ctx plan modulus A B C
  else (.unsupportedBackend, C)

/-- `rns8_gemm_finite_u8_sparse_a`. -/
def rns8GemmFiniteU8SparseA (env : GemmEnv) (ctx : Context) (plan : Plan) (workspace : Workspace)
    (modulus : ℕ) (A : SparseMatrix) (b c : Handle) (s : Store) : Status × Store :=
  if s b = none ∨ s c = none then (.invalidArgument, s)
  else onSuccess (validatePlanContextWorkspace ctx plan workspace, s) fun s =>
    withOperands b b c s fun B _ C => gemmFiniteU8SparseAOperands env ctx plan modulus A b c B C s

end Rns8
