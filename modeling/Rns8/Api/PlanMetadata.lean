import Rns8.Api.WorkspaceArena
import Rns8.Hip.MatrixKernels
import Rns8.Hip.WrapKernels

/-!
# The backend metadata of a plan

The second half of `rns8_plan`: the report texts, the workspace size, the accumulator limits and the
autotune key that `configure_plan_backend_metadata` writes when a plan is created or moved to another
backend, and the half of `plan_schedule_contract_matches` that computes them again. The build has
every accelerator compiled in, as in `backendSupportsSemantics`.
-/

namespace Rns8

/-- What the metadata takes from outside the plan: a constant of the build, and the environment
variable `RNS8_WRAP64_HIP_COLPAIR_EXPERIMENT`. -/
structure MetadataEnv where
  /-- `RNS8_CK_USE_XDL`. -/
  ckUseXdl : Bool := false
  /-- `wrap64_hip_colpair_experiment_enabled`. -/
  colpairExperiment : Bool := false

/-- What the metadata reads of `rns8_context`. The version of hipBLASLt is the number that
`hipblaslt_create_context` found, `none` before it ran. -/
structure ContextReport where
  gcnArch : String := ""
  hipRuntimeVersion : ℕ := 0
  hipblasltVersion : Option ℤ := none

/-- `rns8_context.hipblaslt_library_version`, which only `hipblaslt_create_context` writes. -/
def ContextReport.hipblasltLibraryVersion (report : ContextReport) : String :=
  match report.hipblasltVersion with
  | none => ""
  | some version => "hipBLASLt " ++ toString version

/-- The `backend_*` fields of `rns8_plan`. -/
structure PlanMetadata where
  targetId : String
  selectedKernel : String
  library : String
  libraryVersion : String
  capabilityStatus : String
  epilogueMode : String
  workspaceMode : String
  isaEvidence : String
  workspaceRequiredBytes : ℕ
  performanceValidated : Bool
  accumulatorKBlockSize : ℕ
  accumulatorKBlockCap : ℕ
  accumulatorModulus : ℕ
  accumulatorMaxLhsAbs : ℕ
  accumulatorMaxRhsAbs : ℕ
  accumulatorMaxProduct : ℕ
  accumulatorUsesInt32InnerProduct : Bool
  accumulatorSafeForKBlock : Bool
  accumulatorInputDomain : String
  accumulatorSignedness : String
  accumulatorType : String
  accumulatorModulusPolicy : String
  accumulatorSafetyStatus : String
  autotuneKey : String := ""
  deriving DecidableEq

/-- `rns8_plan` in full. -/
structure PlanHandle where
  plan : Plan
  metadata : PlanMetadata

/-! ### What a backend reports of itself -/

/-- The fields of `rns8_backend_capability_info` that a plan copies. -/
structure BackendCapability where
  libraryName : String := ""
  libraryVersion : String := ""
  status : String
  performanceValidated : Bool := false

/-- `fill_backend_capability_info`. -/
def fillBackendCapabilityInfo : BackendKind → BackendCapability
  | .auto => { status := "context_default_selector" }
  | .cpuReference => { status := "implemented_correctness_backend" }
  | .hipDirect => { libraryName := "HIP runtime", status := "implemented_correctness_backend" }
  | .hipVectorAluInt64 =>
    { libraryName := "HIP runtime", status := "implemented_native_bounded_vector_backend" }
  | .wrap64ByteLimb => { status := "implemented_correctness_backend" }
  | .hipblaslt =>
    { libraryName := "hipBLASLt", libraryVersion := "runtime_queried_in_context"
      status := "implemented_baseline_backend" }
  | .ck =>
    { libraryName := "Composable Kernel", libraryVersion := "repo-local release/rocm-rel-7.1"
      status := "implemented_opt_in_ck_backend" }
  | .rocwmma =>
    { libraryName := "rocWMMA", libraryVersion := "repo-local release/rocm-rel-7.1"
      status := "implemented_opt_in_rocwmma_backend" }
  | .amdgpuBuiltins =>
    { libraryName := "AMDGPU builtins", libraryVersion := "compiled_target_specific"
      status := "implemented_opt_in_amdgpu_builtin_backend" }

/-- `backend_name`. -/
def backendName : BackendKind → String
  | .auto => "auto"
  | .cpuReference => "cpu-reference"
  | .hipDirect => "hip-direct"
  | .hipblaslt => "hipblaslt"
  | .ck => "ck"
  | .rocwmma => "rocwmma"
  | .wrap64ByteLimb => "wrap64-byte-limb"
  | .hipVectorAluInt64 => "hip-vector-alu-int64"
  | .amdgpuBuiltins => "amdgpu-builtins"

/-- `semantics_name_for_key`. -/
def semanticsNameForKey : Semantics → String
  | .boundedI64 => "bounded_i64"
  | .boundedU64 => "bounded_u64"
  | .exactWideSigned => "exact_wide_signed"
  | .exactWideUnsigned => "exact_wide_unsigned"
  | .wrapU64Mod2_64 => "wrap_u64_mod_2_64"
  | .finiteRingU8 => "finite_ring_u8"
  | .finiteFieldU8 => "finite_field_u8"
  | .research => "unknown"

/-- `bound_kind_name_for_key`. -/
def boundKindNameForKey : BoundKind → String
  | .none => "none"
  | .globalMaxAbs => "global_max_abs"
  | .globalMaxUnsigned => "global_max_unsigned"
  | .perTileMaxAbs => "per_tile_max_abs"
  | .perTileMaxUnsigned => "per_tile_max_unsigned"
  | .inputRangeAndK => "input_range_and_k"

/-! ### The selected kernel -/

/-- `direct_hip_bounded_skinny_gemv_n1_plan`. -/
def directHipBoundedSkinnyGemvN1Plan (plan : Plan) : Bool :=
  decide (plan.backend = .hipDirect) && plan.tileSchedule.isEmpty &&
    decide (plan.rnsPrefix = defaultBoundedPrefix) && decide (plan.desc.n = 1) &&
    decide (plan.desc.semantics ∈ [.boundedI64, .boundedU64])

/-- `direct_hip_bounded_skinny_gemv_small_n_plan`. -/
def directHipBoundedSkinnyGemvSmallNPlan (plan : Plan) : Bool :=
  decide (plan.backend = .hipDirect) && plan.tileSchedule.isEmpty &&
    decide (plan.rnsPrefix = defaultBoundedPrefix) && decide (1 < plan.desc.n) &&
    decide (plan.desc.n ≤ 8) && decide (plan.desc.semantics ∈ [.boundedI64, .boundedU64])

/-- `wrap64_hip_selected_kernel_for_shape`. -/
def wrap64HipSelectedKernelForShape (experiment : Bool) (m n k : ℕ) : String :=
  if wrap64HipUsesColpairKernel experiment m n k then
    "direct_hip_wrap64_byte_gemm36_u32acc_colpair_2d_v5"
  else if wrap64HipUsesU32Accumulator k then "direct_hip_wrap64_byte_gemm36_u32acc_tiled_2d_v4"
  else "direct_hip_wrap64_byte_gemm36_u64acc_tiled_2d_v4"

/-- The branch of `selected_kernel_for_plan` for the direct HIP backend. -/
def hipDirectSelectedKernel (env : MetadataEnv) (plan : Plan) : String :=
  let signed := decide (plan.desc.semantics = .boundedI64)
  if plan.desc.semantics = .wrapU64Mod2_64 then
    wrap64HipSelectedKernelForShape env.colpairExperiment plan.desc.m plan.desc.n plan.desc.k
  else if usesFiniteStorage plan.desc.semantics then
    if plan.desc.finiteModulus = 256 then "direct_hip_tiled_finite_u8_gemm_mod256_v1"
    else if plan.desc.finiteModulus = 255 then "direct_hip_tiled_finite_u8_gemm_mod255_v1"
    else if plan.desc.finiteModulus = 251 then "direct_hip_tiled_finite_u8_gemm_mod251_v1"
    else "direct_hip_tiled_finite_u8_gemm_v1"
  else if directHipBoundedSkinnyGemvN1Plan plan then
    if signed then "direct_hip_prefix9_rns_gemv_n1_i64_v1"
    else "direct_hip_prefix9_rns_gemv_n1_u64_v1"
  else if directHipBoundedSkinnyGemvSmallNPlan plan then
    if signed then "direct_hip_prefix9_rns_gemv_small_n_i64_v1"
    else "direct_hip_prefix9_rns_gemv_small_n_u64_v1"
  else if plan.tileSchedule = [] ∧ plan.rnsPrefix = defaultBoundedPrefix ∧
      plan.desc.semantics ∈ [.boundedI64, .boundedU64] then
    "direct_hip_prefix9_grouped_rns_gemm_v1"
  else if plan.tileSchedule = [] ∧ plan.rnsPrefix = maxSupportedPrefix ∧
      exactWideSemantics plan.desc.semantics = true then
    "direct_hip_prefix20_grouped_rns_gemm_v1"
  else if plan.scheduleFlags.zeroOutput then
    if plan.scheduleFlags.zeroRowColProduct then
      "direct_hip_tiled_active_prefix_zero_tile_row_col_skip_rns_gemm_v1"
    else "direct_hip_tiled_active_prefix_zero_skip_rns_gemm_v3"
  else if plan.scheduleFlags.zeroRowColProduct then
    "direct_hip_tiled_active_prefix_zero_row_col_skip_rns_gemm_v1"
  else "direct_hip_grouped_active_prefix_schedule_rns_gemm_v3"

/-- The branch of `selected_kernel_for_plan` for the native vector backend. -/
def vectorAluSelectedKernel (plan : Plan) : String :=
  let signed := decide (plan.desc.semantics = .boundedI64)
  if plan.desc.n = 1 ∧ 4096 ≤ plan.desc.k then
    if signed then "hip_vector_alu_i64_gemv_n1_exact_192b_v1"
    else "hip_vector_alu_u64_gemv_n1_exact_192b_v1"
  else if 1 < plan.desc.n ∧ plan.desc.n ≤ 8 ∧ 512 ≤ plan.desc.k then
    if signed then "hip_vector_alu_i64_gemv_small_n_exact_192b_v1"
    else "hip_vector_alu_u64_gemv_small_n_exact_192b_v1"
  else if signed then "hip_vector_alu_i64_exact_192b_v1"
  else "hip_vector_alu_u64_exact_192b_v1"

/-- `ck_finite_selected_kernel`. -/
def ckFiniteSelectedKernel (finiteModulus : ℕ) : String :=
  if finiteModulus = 251 then "ck_wmma_cshuffle_finite_u8_mod251_centered_epilogue_v2"
  else if finiteModulus = 255 then "ck_wmma_cshuffle_finite_u8_mod255_centered_epilogue_v2"
  else if finiteModulus = 256 then "ck_wmma_cshuffle_finite_u8_mod256_centered_epilogue_v2"
  else "ck_wmma_cshuffle_finite_u8_static_modulus_centered_epilogue_v2"

/-- `rocwmma_finite_selected_kernel`. -/
def rocwmmaFiniteSelectedKernel (finiteModulus : ℕ) : String :=
  if finiteModulus = 251 then "rocwmma_i8_i32_signed_finite_u8_mod251_hot_residue_v2"
  else if finiteModulus = 255 then "rocwmma_i8_i32_signed_finite_u8_mod255_hot_residue_v2"
  else if finiteModulus = 256 then "rocwmma_i8_i32_signed_finite_u8_mod256_hot_residue_v2"
  else "rocwmma_i8_i32_signed_finite_u8_hot_residue_v1"

/-- The branch of `selected_kernel_for_plan` for the matrix-core builtins, which reads the target id
that the plan carries; `epilogue` names the output form. -/
def amdgpuBuiltinsSelectedKernel (plan : Plan) (targetId epilogue : String) : String :=
  if archStartsWith targetId "gfx110" then
    "amdgpu_builtin_rdna3_wmma_i32_16x16x16_iu8_" ++ epilogue ++ "_epilogue_v1"
  else if targetId = "gfx1200" ∨ targetId = "gfx1201" then
    "amdgpu_builtin_rdna4_wmma_i32_16x16x16_iu8_" ++ epilogue ++ "_epilogue_v1"
  else if archStartsWith targetId "gfx942" ∧
      useCdna3Wide plan.desc.m plan.desc.n plan.desc.k = true then
    "amdgpu_builtin_cdna3_mfma_i32_32x32x16_i8_" ++ epilogue ++ "_epilogue_v1"
  else "amdgpu_builtin_cdna3_mfma_i32_16x16x32_i8_" ++ epilogue ++ "_epilogue_v1"

/-- `selected_kernel_for_plan`. -/
def selectedKernelForPlan (env : MetadataEnv) (plan : Plan) (targetId : String) : String :=
  match plan.backend with
  | .cpuReference =>
    if usesFiniteStorage plan.desc.semantics then "cpu_reference_finite_u8_gemm_v1"
    else "cpu_reference_scalar_rns_gemm_v1"
  | .wrap64ByteLimb => "cpu_wrap64_byte_limb_reference_v1"
  | .hipDirect => hipDirectSelectedKernel env plan
  | .hipVectorAluInt64 => vectorAluSelectedKernel plan
  | .hipblaslt => "hipblaslt_int8_i32_scratch_reduce_specialized_251_255_256_v2"
  | .ck =>
    if plan.tileSchedule ≠ [] then
      "ck_wmma_cshuffle_tiled_i8_i32_default_moduli_static_centered_epilogue_v3"
    else if usesFiniteStorage plan.desc.semantics then
      ckFiniteSelectedKernel plan.desc.finiteModulus
    else "ck_wmma_cshuffle_i8_i32_default_moduli_static_centered_epilogue_v3"
  | .rocwmma =>
    if plan.tileSchedule ≠ [] then "rocwmma_i8_i32_signed_tiled_mod251_255_256_hot_residue_v2"
    else if usesFiniteStorage plan.desc.semantics then
      rocwmmaFiniteSelectedKernel plan.desc.finiteModulus
    else "rocwmma_i8_i32_signed_mod251_255_256_hot_residue_v2"
  | .amdgpuBuiltins =>
    amdgpuBuiltinsSelectedKernel plan targetId
      (if usesFiniteStorage plan.desc.semantics then "finite_u8" else "centered")
  | .auto => "not_implemented"

/-! ### The epilogue, the workspace mode and the evidence -/

/-- The three epilogue names of a matrix-engine backend. -/
def epilogueFor (semantics : Semantics) (finite exactWide bounded : String) : String :=
  if usesFiniteStorage semantics then finite
  else if exactWideSemantics semantics then exactWide
  else bounded

/-- `epilogue_mode_for_plan`. -/
def epilogueModeForPlan (plan : Plan) : String :=
  if plan.desc.semantics = .wrapU64Mod2_64 then "low64_wrap_export"
  else if plan.backend = .hipVectorAluInt64 then "direct_int64_export"
  else if directHipBoundedSkinnyGemvN1Plan plan then
    "resident_rns_gemv_n1_centered_residue_then_crt_export"
  else if directHipBoundedSkinnyGemvSmallNPlan plan then
    "resident_rns_gemv_small_n_centered_residue_then_crt_export"
  else
    match plan.backend with
    | .hipblaslt =>
      epilogueFor plan.desc.semantics "separate_i32_scratch_reduce_then_canonical_u8_export"
        "separate_i32_scratch_reduce_rns_output" "separate_i32_scratch_reduce_then_crt_export"
    | .ck =>
      epilogueFor plan.desc.semantics
        "ck_fused_i32_to_centered_residue_then_canonical_u8_export"
        "ck_fused_i32_to_centered_residue_rns_output"
        "ck_fused_i32_to_centered_residue_then_crt_export"
    | .rocwmma =>
      epilogueFor plan.desc.semantics
        "rocwmma_fused_i32_to_centered_residue_then_canonical_u8_export"
        "rocwmma_fused_i32_to_centered_residue_rns_output"
        "rocwmma_fused_i32_to_centered_residue_then_crt_export"
    | .amdgpuBuiltins =>
      epilogueFor plan.desc.semantics
        "amdgpu_builtin_fused_i32_to_centered_residue_then_canonical_u8_export"
        "amdgpu_builtin_fused_i32_to_centered_residue_rns_output"
        "amdgpu_builtin_fused_i32_to_centered_residue_then_chained_crt_export"
    | _ =>
      epilogueFor plan.desc.semantics "fused_centered_residue_then_canonical_u8_export"
        "fused_centered_residue_rns_output" "fused_centered_residue_then_crt_export"

/-- `workspace_mode_for_plan`. -/
def workspaceModeForPlan (env : MetadataEnv) (plan : Plan) : String :=
  match plan.backend with
  | .hipDirect =>
    if directHipBoundedSkinnyGemvN1Plan plan then "resident_rns_inputs_skinny_n1_output"
    else if directHipBoundedSkinnyGemvSmallNPlan plan then
      "resident_rns_inputs_skinny_n_le8_output"
    else if plan.tileSchedule.isEmpty then "resident_device_buffers"
    else "resident_device_buffers_with_active_prefix_tiled_schedule"
  | .hipVectorAluInt64 => "native_device_i64_u64_buffers"
  | .hipblaslt => "resident_device_buffers_with_hipblaslt_scratch"
  | .ck =>
    if env.ckUseXdl then "resident_device_buffers_with_ck_centered_pack_workspace"
    else "resident_device_buffers_with_ck_canonical_pack_workspace"
  | .rocwmma => "resident_device_buffers_with_rocwmma_pack_workspace"
  | .amdgpuBuiltins =>
    "resident_device_buffers_direct_amdgpu_builtin_matrix_core_no_dense_pack_workspace"
  | .wrap64ByteLimb => "host_byte_limb_reference_workspace"
  | _ => "host_reference_workspace"

/-- `isa_evidence_for_plan`. -/
def isaEvidenceForPlan (plan : Plan) : String :=
  match plan.backend with
  | .hipDirect =>
    if plan.desc.semantics = .wrapU64Mod2_64 then
      "wrap64_byte_gemm36_isa_gate_no_variable_divide_no_matrix_engine"
    else if usesFiniteStorage plan.desc.semantics && decide (plan.desc.finiteModulus ∈
        [251, 255, 256]) then
      "rns8_hip_direct_finite_specialized_reducer_isa_gate_no_divide"
    else "rns8_hip_direct_reciprocal_isa_gate"
  | .hipVectorAluInt64 => "source_level_192bit_limb_accumulator_no_matrix_engine"
  | .hipblaslt => "hipblaslt_library_int8_matmul_specialized_reduce_251_255_256"
  | .ck => "ck_cshuffle_int8_matrix_isa_gate_no_divide"
  | .rocwmma => "rocwmma_i8_matrix_isa_gate_no_divide"
  | .amdgpuBuiltins => "amdgpu_builtin_matrix_isa_gate_no_divide"
  | _ => "not_applicable_cpu"

/-! ### The workspace size -/

/-- `checked_mul_u64`. -/
def checkedMulU64 (a b : ℕ) : Option ℕ := if a ≠ 0 ∧ sizeMax / a < b then none else some (a * b)

/-- `round_up_aligned_u64`. -/
def roundUpAlignedU64 (value alignment : ℕ) : Option ℕ :=
  if value = 0 ∨ alignment = 0 then none
  else
    let remainder := value % alignment
    if remainder = 0 then some value
    else if sizeMax - (alignment - remainder) < value then none
    else some (value + (alignment - remainder))

/-- `hipblaslt_round_up_aligned`. -/
def hipblasltRoundUpAligned (value : ℕ) : Option ℕ :=
  (roundUpAlignedU64 value 16).filter fun rounded => decide (rounded ≤ 2 ^ 31 - 1)

/-- `kHipblasLtBaselineWorkspaceBytes`. -/
def kHipblasLtBaselineWorkspaceBytes : ℕ := 32 * 1024 * 1024

/-- `hipblaslt_baseline_workspace_requirements`: the scratch bytes and the workspace bytes. -/
def hipblasltBaselineWorkspaceRequirements (m n k : ℕ) : Option (ℕ × ℕ) := do
  if m = 0 ∨ n = 0 ∨ k = 0 then none
  let paddedM ← hipblasltRoundUpAligned m
  let paddedN ← hipblasltRoundUpAligned n
  let paddedK ← hipblasltRoundUpAligned (if k < safeInt32KBlock then k else safeInt32KBlock)
  let scratchElements ← checkedMulU64 paddedM paddedN
  if sizeMax / 4 < scratchElements then none
  let packABytes ← checkedMulU64 paddedM paddedK
  let packBBytes ← checkedMulU64 paddedN paddedK
  if sizeMax - packBBytes < packABytes then none
  if sizeMax - kHipblasLtBaselineWorkspaceBytes < packABytes + packBBytes then none
  return (scratchElements * 4, packABytes + packBBytes + kHipblasLtBaselineWorkspaceBytes)

/-- `ck_workspace_requirements`, its total. -/
def ckWorkspaceRequirements (env : MetadataEnv) (maxM maxN k : ℕ) : Option ℕ := do
  if maxM = 0 ∨ maxN = 0 ∨ k = 0 then none
  let kBlock := max (if k < 32768 then k else 32768) 64
  let alignment := if env.ckUseXdl then 128 else 64
  let paddedM ← roundUpAlignedU64 maxM alignment
  let paddedN ← roundUpAlignedU64 maxN alignment
  let aBytes ← checkedMulU64 paddedM kBlock
  let bBytes ← checkedMulU64 kBlock paddedN
  let cBytes ← checkedMulU64 paddedM paddedN
  if sizeMax - bBytes < aBytes ∨ sizeMax - cBytes < aBytes + bBytes then none
  return aBytes + bBytes + cBytes

/-- `rocwmma_workspace_requirements`, its total. -/
def rocwmmaWorkspaceRequirements (maxM maxN k : ℕ) : Option ℕ := do
  if maxM = 0 ∨ maxN = 0 ∨ k = 0 then none
  let kBlock ← roundUpAlignedU64 (max (if k < 65536 then k else 65536) 16) 16
  let paddedM ← roundUpAlignedU64 maxM 16
  let paddedN ← roundUpAlignedU64 maxN 16
  let aBytes ← checkedMulU64 paddedM kBlock
  let bBytes ← checkedMulU64 kBlock paddedN
  if sizeMax - bBytes < aBytes then none
  return aBytes + bBytes

/-- The largest tile of the schedule, or the whole output. -/
def workspaceExtents (plan : Plan) : ℕ × ℕ :=
  if plan.tileSchedule.isEmpty then (plan.desc.m, plan.desc.n)
  else (listMax (plan.tileSchedule.map (·.rowExtent)), listMax (plan.tileSchedule.map (·.colExtent)))

/-- `workspace_required_bytes_for_plan`; its direct HIP branch is `workspaceRequiredBytesForPlan`. -/
def backendWorkspaceRequiredBytesForPlan (env : MetadataEnv) (plan : Plan) : ℕ :=
  let extents := workspaceExtents plan
  match plan.backend with
  | .hipblaslt =>
    match hipblasltBaselineWorkspaceRequirements plan.desc.m plan.desc.n plan.desc.k with
    | none => 0
    | some bytes => if sizeMax - bytes.2 < bytes.1 then sizeMax else bytes.1 + bytes.2
  | .ck => (ckWorkspaceRequirements env extents.1 extents.2 plan.desc.k).getD 0
  | .rocwmma => (rocwmmaWorkspaceRequirements extents.1 extents.2 plan.desc.k).getD 0
  | _ => workspaceRequiredBytesForPlan plan

/-! ### The accumulator -/

/-- The direct HIP wrapping kernel runs with 32-bit accumulators. -/
def wrapU32AccumulatorPlan (plan : Plan) : Bool :=
  decide (plan.backend = .hipDirect) && decide (plan.desc.semantics = .wrapU64Mod2_64) &&
    wrap64HipUsesU32Accumulator plan.desc.k

/-- `accumulator_uses_int32_inner_product_for_plan`. -/
def accumulatorUsesInt32InnerProductForPlan (plan : Plan) : Bool :=
  if plan.backend = .hipVectorAluInt64 ∨ plan.backend = .wrap64ByteLimb ∨
      plan.desc.semantics = .wrapU64Mod2_64 then false
  else usesRnsStorage plan.desc.semantics || usesFiniteStorage plan.desc.semantics

/-- `accumulator_k_block_cap_for_plan`. -/
def accumulatorKBlockCapForPlan (plan : Plan) : ℕ :=
  if wrapU32AccumulatorPlan plan then kWrap64HipU32AccumulatorMaxK
  else if !accumulatorUsesInt32InnerProductForPlan plan then 0
  else if plan.backend = .ck then 32768
  else safeInt32KBlock

/-- `accumulator_k_block_size_for_plan`. -/
def accumulatorKBlockSizeForPlan (plan : Plan) : ℕ :=
  let cap := accumulatorKBlockCapForPlan plan
  if cap = 0 then plan.desc.k else if plan.desc.k < cap then plan.desc.k else cap

/-- `accumulator_modulus_for_plan`. -/
def accumulatorModulusForPlan (plan : Plan) : ℕ :=
  if usesFiniteStorage plan.desc.semantics then plan.desc.finiteModulus else 0

/-- `accumulator_max_abs_input_for_plan`. -/
def accumulatorMaxAbsInputForPlan (plan : Plan) : ℕ :=
  if wrapU32AccumulatorPlan plan then 255
  else if accumulatorUsesInt32InnerProductForPlan plan then 128 else 0

/-- `accumulator_max_product_for_plan`. -/
def accumulatorMaxProductForPlan (plan : Plan) : ℕ :=
  accumulatorMaxAbsInputForPlan plan * accumulatorMaxAbsInputForPlan plan

/-- `accumulator_safe_for_k_block_for_plan`. -/
def accumulatorSafeForKBlockForPlan (plan : Plan) : Bool :=
  if wrapU32AccumulatorPlan plan then true
  else if !accumulatorUsesInt32InnerProductForPlan plan then true
  else
    let kBlock := accumulatorKBlockSizeForPlan plan
    let product := accumulatorMaxProductForPlan plan
    if kBlock = 0 ∨ product = 0 then false else decide (product ≤ (2 ^ 31 - 1) / kBlock)

/-- `accumulator_input_domain_for_plan`. -/
def accumulatorInputDomainForPlan (plan : Plan) : String :=
  if plan.backend = .hipVectorAluInt64 then
    if plan.desc.semantics = .boundedI64 then "native_i64_values" else "native_u64_values"
  else if plan.desc.semantics = .wrapU64Mod2_64 then "uint8_byte_limb_pairs"
  else if usesFiniteStorage plan.desc.semantics then "centered_i8_finite_u8_residues"
  else "centered_i8_rns_residue_planes"

/-- `accumulator_signedness_for_plan`. -/
def accumulatorSignednessForPlan (plan : Plan) : String :=
  if plan.backend = .hipVectorAluInt64 then
    if plan.desc.semantics = .boundedI64 then "signed_i64x_signed_i64"
    else "unsigned_u64x_unsigned_u64"
  else if plan.desc.semantics = .wrapU64Mod2_64 then "unsigned_byte_limb"
  else if accumulatorUsesInt32InnerProductForPlan plan then "signed_i8x_signed_i8"
  else "not_applicable"

/-- `accumulator_type_for_plan`. -/
def accumulatorTypeForPlan (plan : Plan) : String :=
  if plan.backend = .hipVectorAluInt64 then "software_192bit_limb"
  else if wrapU32AccumulatorPlan plan then "uint32_low_diagonal_then_uint64_carry"
  else if plan.desc.semantics = .wrapU64Mod2_64 then "uint64_wraparound_byte_limb"
  else if accumulatorUsesInt32InnerProductForPlan plan then "int32"
  else "not_applicable"

/-- `accumulator_modulus_policy_for_plan`. -/
def accumulatorModulusPolicyForPlan (plan : Plan) : String :=
  if plan.backend = .hipVectorAluInt64 then "native_exact_integer_output"
  else if plan.desc.semantics = .wrapU64Mod2_64 then "mod_2_64_wraparound_byte_limb"
  else if usesFiniteStorage plan.desc.semantics then "finite_u8_modulus"
  else "selected_rns_modulus_ladder"

/-- `accumulator_safety_status_for_plan`. -/
def accumulatorSafetyStatusForPlan (plan : Plan) : String :=
  if plan.backend = .hipVectorAluInt64 then "exact_192bit_limb_no_int32_k_cap"
  else if wrapU32AccumulatorPlan plan then "safe_uint32_byte_limb_gemm36_k_block"
  else if plan.desc.semantics = .wrapU64Mod2_64 then "exact_mod_2_64_byte_limb_no_int32_k_cap"
  else if accumulatorSafeForKBlockForPlan plan then "safe_int32_k_block_split"
  else "unsafe_int32_k_block"

/-! ### The target and the autotune key -/

/-- `concrete_device_target_id`. -/
def concreteDeviceTargetId (target : String) : Bool :=
  decide (target ≠ "") && decide (target ≠ "none") && decide (target ≠ "cpu") &&
    decide (target ≠ "unknown")

/-- `target_id_for_plan_context`. -/
def targetIdForPlanContext (report : ContextReport) (plan : Plan) : String :=
  if !hipDeviceBackend plan.backend then "cpu"
  else if concreteDeviceTargetId report.gcnArch then report.gcnArch
  else "unknown"

/-- `target_id_for_plan_key`. -/
def targetIdForPlanKey (plan : Plan) (targetId : String) : String :=
  if targetId ≠ "" then targetId
  else if hipDeviceBackend plan.backend then "unknown" else "cpu"

/-- The flag word of a schedule. -/
def TileFlags.toNat (flags : TileFlags) : ℕ :=
  (if flags.zeroOutput then 1 else 0) + if flags.zeroRowColProduct then 2 else 0

/-- The bounds part of `build_autotune_key`. -/
def autotuneKeyBounds (plan : Plan) : String :=
  if plan.desc.boundKind = .inputRangeAndK then
    ";effective_bound=" ++ toString plan.desc.bound ++ ";lhs_bound=" ++
      toString plan.desc.lhsBound ++ ";rhs_bound=" ++ toString plan.desc.rhsBound
  else ""

/-- The prefix part of `build_autotune_key`. -/
def autotuneKeyPrefix (plan : Plan) : String :=
  ";prefix=" ++ toString plan.rnsPrefix ++
    if usesRnsStorage plan.desc.semantics then
      ";requested_max_prefix=" ++ toString plan.desc.maxPrefix ++ ";prefix_policy=" ++
        if plan.desc.flags.forceFixedPrefix then "fixed_requested"
        else if isPerTileBoundKind plan.desc.boundKind then "per_tile_minimum"
        else "minimum_proven"
    else ""

/-- The schedule part of `build_autotune_key`. -/
def autotuneKeySchedule (plan : Plan) : String :=
  ";tile_m=" ++ toString plan.desc.tileM ++ ";tile_n=" ++ toString plan.desc.tileN ++
    ";groups=" ++ toString plan.schedulePrefixGroupCount ++
    ";adaptive_prefix=" ++ toString plan.scheduleAdaptivePrefixActive.toNat ++
    ";adaptive_skip=" ++ toString plan.scheduleAdaptiveSkipActive.toNat ++
    ";schedule_flags=" ++ toString plan.scheduleFlags.toNat ++
    ";zero_a_rows=" ++ toString plan.zeroARowCount ++
    ";zero_b_cols=" ++ toString plan.zeroBColCount ++
    ";zero_row_col_products=" ++ toString plan.zeroRowColProductCount ++
    ";zero_output_tiles=" ++ toString (plan.tileSchedule.countP (·.flags.zeroOutput))

/-- `build_autotune_key`, from the plan and the metadata that is already there. -/
def buildAutotuneKey (plan : Plan) (metadata : PlanMetadata) : String :=
  "backend=" ++ backendName plan.backend ++ ";implementation_revision=3" ++
    ";target_id=" ++ targetIdForPlanKey plan metadata.targetId ++
    ";semantics=" ++ semanticsNameForKey plan.desc.semantics ++
    ";m=" ++ toString plan.desc.m ++ ";n=" ++ toString plan.desc.n ++
    ";k=" ++ toString plan.desc.k ++
    ";bound_kind=" ++ boundKindNameForKey plan.desc.boundKind ++ autotuneKeyBounds plan ++
    (if usesFiniteStorage plan.desc.semantics then
      ";finite_modulus=" ++ toString plan.desc.finiteModulus else "") ++
    autotuneKeyPrefix plan ++ autotuneKeySchedule plan ++
    ";accumulator_type=" ++ metadata.accumulatorType ++
    ";accumulator_signedness=" ++ metadata.accumulatorSignedness ++
    ";accumulator_modulus_policy=" ++ metadata.accumulatorModulusPolicy ++
    ";k_block_size=" ++ toString metadata.accumulatorKBlockSize ++
    ";k_block_cap=" ++ toString metadata.accumulatorKBlockCap ++
    ";kernel=" ++ metadata.selectedKernel ++ ";epilogue=" ++ metadata.epilogueMode

/-! ### Writing and checking the metadata -/

/-- The library version that `configure_plan_backend_metadata` records. -/
def libraryVersionForPlan (report : ContextReport) (plan : Plan) : String :=
  if plan.backend = .hipblaslt ∧ report.hipblasltLibraryVersion ≠ "" then
    report.hipblasltLibraryVersion
  else if plan.backend = .hipVectorAluInt64 ∧ report.hipRuntimeVersion ≠ 0 then
    "HIP runtime " ++ toString report.hipRuntimeVersion
  else (fillBackendCapabilityInfo plan.backend).libraryVersion

/-- `configure_plan_backend_metadata`; the key is built last, from the other fields. -/
def configurePlanBackendMetadata (env : MetadataEnv) (report : ContextReport) (plan : Plan) :
    PlanMetadata :=
  let capability := fillBackendCapabilityInfo plan.backend
  let targetId := targetIdForPlanContext report plan
  let metadata : PlanMetadata :=
    { targetId
      selectedKernel := selectedKernelForPlan env plan targetId
      library := capability.libraryName
      libraryVersion := libraryVersionForPlan report plan
      capabilityStatus := capability.status
      epilogueMode := epilogueModeForPlan plan
      workspaceMode := workspaceModeForPlan env plan
      isaEvidence := isaEvidenceForPlan plan
      workspaceRequiredBytes := backendWorkspaceRequiredBytesForPlan env plan
      performanceValidated := capability.performanceValidated
      accumulatorKBlockSize := accumulatorKBlockSizeForPlan plan
      accumulatorKBlockCap := accumulatorKBlockCapForPlan plan
      accumulatorModulus := accumulatorModulusForPlan plan
      accumulatorMaxLhsAbs := accumulatorMaxAbsInputForPlan plan
      accumulatorMaxRhsAbs := accumulatorMaxAbsInputForPlan plan
      accumulatorMaxProduct := accumulatorMaxProductForPlan plan
      accumulatorUsesInt32InnerProduct := accumulatorUsesInt32InnerProductForPlan plan
      accumulatorSafeForKBlock := accumulatorSafeForKBlockForPlan plan
      accumulatorInputDomain := accumulatorInputDomainForPlan plan
      accumulatorSignedness := accumulatorSignednessForPlan plan
      accumulatorType := accumulatorTypeForPlan plan
      accumulatorModulusPolicy := accumulatorModulusPolicyForPlan plan
      accumulatorSafetyStatus := accumulatorSafetyStatusForPlan plan }
  { metadata with autotuneKey := buildAutotuneKey plan metadata }

/-- `backend_library_version_matches_plan`. -/
def backendLibraryVersionMatchesPlan (handle : PlanHandle) : Bool :=
  let version := handle.metadata.libraryVersion
  let reported := (fillBackendCapabilityInfo handle.plan.backend).libraryVersion
  match handle.plan.backend with
  | .hipblaslt => archStartsWith version "hipBLASLt " || decide (version = reported)
  | .hipVectorAluInt64 => archStartsWith version "HIP runtime " || decide (version = reported)
  | _ => decide (version = reported)

/-- The comparisons of `plan_schedule_contract_matches` between the recorded metadata and the
metadata computed again. -/
def backendMetadataMatches (env : MetadataEnv) (handle : PlanHandle) : Bool :=
  let plan := handle.plan
  let metadata := handle.metadata
  let capability := fillBackendCapabilityInfo plan.backend
  decide (metadata.selectedKernel = selectedKernelForPlan env plan metadata.targetId) &&
    decide (metadata.library = capability.libraryName) &&
    backendLibraryVersionMatchesPlan handle &&
    decide (metadata.capabilityStatus = capability.status) &&
    decide (metadata.epilogueMode = epilogueModeForPlan plan) &&
    decide (metadata.workspaceMode = workspaceModeForPlan env plan) &&
    decide (metadata.isaEvidence = isaEvidenceForPlan plan) &&
    decide (metadata.targetId ≠ "") &&
    (hipDeviceBackend plan.backend || decide (metadata.targetId = "cpu")) &&
    decide (metadata.workspaceRequiredBytes = backendWorkspaceRequiredBytesForPlan env plan) &&
    decide (metadata.accumulatorKBlockSize = accumulatorKBlockSizeForPlan plan) &&
    decide (metadata.accumulatorKBlockCap = accumulatorKBlockCapForPlan plan) &&
    decide (metadata.accumulatorType = accumulatorTypeForPlan plan) &&
    decide (metadata.accumulatorSignedness = accumulatorSignednessForPlan plan) &&
    decide (metadata.accumulatorModulusPolicy = accumulatorModulusPolicyForPlan plan) &&
    decide (metadata.accumulatorSafetyStatus = accumulatorSafetyStatusForPlan plan) &&
    decide (metadata.autotuneKey = buildAutotuneKey plan metadata)

/-- `plan_schedule_contract_matches` in full: the schedule and the metadata. -/
def planContractMatches (env : MetadataEnv) (handle : PlanHandle) : Bool :=
  planScheduleContractMatches handle.plan && backendMetadataMatches env handle

theorem targetIdForPlanContext_ne (report : ContextReport) (plan : Plan) :
    targetIdForPlanContext report plan ≠ "" := by
  unfold targetIdForPlanContext
  split
  · decide
  · split
    · next hconcrete =>
      simp only [concreteDeviceTargetId, Bool.and_eq_true, decide_eq_true_eq] at hconcrete
      exact hconcrete.1.1.1
    · decide

theorem archStartsWith_append (name rest : String) : archStartsWith (name ++ rest) name = true := by
  simp [archStartsWith]

/-- The recorded library version is the reported one or carries the name of its library. -/
theorem backendLibraryVersionMatchesPlan_configure (env : MetadataEnv) (report : ContextReport)
    (plan : Plan) :
    backendLibraryVersionMatchesPlan ⟨plan, configurePlanBackendMetadata env report plan⟩ =
      true := by
  have hversion : (configurePlanBackendMetadata env report plan).libraryVersion =
      libraryVersionForPlan report plan := rfl
  simp only [backendLibraryVersionMatchesPlan, hversion, libraryVersionForPlan]
  cases hb : plan.backend <;>
    simp only [reduceCtorEq, false_and, true_and, if_false, decide_true, Bool.or_eq_true,
      decide_eq_true_eq]
  · split
    · next hne =>
      cases hraw : report.hipblasltVersion with
      | none => simp [ContextReport.hipblasltLibraryVersion, hraw] at hne
      | some version =>
        simp only [ContextReport.hipblasltLibraryVersion, hraw]
        exact Or.inl (archStartsWith_append _ _)
    · exact Or.inr rfl
  · split
    · exact Or.inl (archStartsWith_append _ _)
    · exact Or.inr rfl

/-- **Configured metadata passes its check**, for every plan, backend and context. -/
theorem backendMetadataMatches_configure (env : MetadataEnv) (report : ContextReport)
    (plan : Plan) :
    backendMetadataMatches env ⟨plan, configurePlanBackendMetadata env report plan⟩ = true := by
  have htarget : (configurePlanBackendMetadata env report plan).targetId =
      targetIdForPlanContext report plan := rfl
  have hcpu : hipDeviceBackend plan.backend = true ∨
      (configurePlanBackendMetadata env report plan).targetId = "cpu" := by
    cases hdevice : hipDeviceBackend plan.backend with
    | false => exact Or.inr (by rw [htarget]; simp [targetIdForPlanContext, hdevice])
    | true => exact Or.inl rfl
  simp only [backendMetadataMatches, backendLibraryVersionMatchesPlan_configure,
    Bool.and_eq_true, Bool.or_eq_true, decide_eq_true_eq]
  exact ⟨⟨⟨⟨⟨⟨⟨⟨⟨⟨⟨⟨⟨⟨⟨⟨rfl, rfl⟩, trivial⟩, rfl⟩, rfl⟩, rfl⟩, rfl⟩,
    targetIdForPlanContext_ne report plan⟩, hcpu⟩, rfl⟩, rfl⟩, rfl⟩, rfl⟩, rfl⟩, rfl⟩, rfl⟩, rfl⟩

/-! ### Creating a plan with its metadata -/

section Creation

variable {τ : Type}

/-- An entry of the autotune cache: its measured median time, in whatever order the times have, and
the workspace bytes it was measured with. -/
structure AutotuneHit (τ : Type) where
  measuredMedianEndToEndUs : τ
  workspaceBytes : ℕ

/-- What the automatic choice of a backend meets. -/
structure AutoBackendEnv (τ : Type) where
  metadata : MetadataEnv := {}
  /-- The probe of a candidate backend on the device of the context. -/
  probe : BackendKind → Bool
  /-- The version that `hipblaslt_create_context` finds, `none` when it fails. -/
  createHipblaslt : Option ℤ
  /-- `find_validated_autotune_entry_for_runtime`, for the key and the runtime identity of the
  candidate. -/
  lookup : PlanHandle → Option (AutotuneHit τ)

/-- `prepare_auto_candidate_backend`: what the context reports afterwards, `none` for a candidate
that is skipped. -/
def prepareAutoCandidateBackend (env : AutoBackendEnv τ) (ctx : Context) (report : ContextReport)
    (backend : BackendKind) : Option ContextReport :=
  if backend = .hipblaslt then
    if ctx.hipblasltHandle then some report
    else env.createHipblaslt.map fun version => { report with hipblasltVersion := some version }
  else if backend ∈ [.ck, .rocwmma, .amdgpuBuiltins, .hipVectorAluInt64] then
    if env.probe backend then some report else none
  else none

/-- The plan with its metadata for a backend. -/
def PlanHandle.configure (env : MetadataEnv) (report : ContextReport) (plan : Plan) : PlanHandle :=
  ⟨plan, configurePlanBackendMetadata env report plan⟩

/-- One candidate of `select_auto_backend_from_reviewed_cache`: the plan moved to its backend, with
the time of a cache entry measured with the same workspace. -/
def autoCandidate (env : AutoBackendEnv τ) (ctx : Context) (report : ContextReport) (plan : Plan)
    (backend : BackendKind) : Option (PlanHandle × τ) := do
  let report ← prepareAutoCandidateBackend env ctx report backend
  let candidate := PlanHandle.configure env.metadata report { plan with backend }
  let hit ← env.lookup candidate
  if hit.workspaceBytes ≠ candidate.metadata.workspaceRequiredBytes then none
  return (candidate, hit.measuredMedianEndToEndUs)

/-- A candidate is the plan on its own backend, with the metadata of that backend. -/
theorem autoCandidate_some {env : AutoBackendEnv τ} {ctx : Context} {report : ContextReport}
    {plan : Plan} {backend : BackendKind} {found : PlanHandle × τ}
    (h : autoCandidate env ctx report plan backend = some found) :
    ∃ report', found.1 = .configure env.metadata report' { plan with backend } := by
  simp only [autoCandidate, Option.bind_eq_bind, Option.bind_eq_some_iff] at h
  obtain ⟨report', -, hit, -, h⟩ := h
  split at h
  · cases h
  · exact ⟨report', (congrArg Prod.fst (Option.some.inj h)).symm⟩

variable [LT τ] [DecidableLT τ]

/-- The candidate loop of `select_auto_backend_from_reviewed_cache`. -/
def bestCandidateHandle (env : AutoBackendEnv τ) (ctx : Context) (report : ContextReport)
    (plan : Plan) : List BackendKind → Option (PlanHandle × τ) → Option (PlanHandle × τ)
  | [], best => best
  | backend :: rest, best =>
    if !backendSupportsSemantics backend plan.desc.semantics || backendLacksKernel backend plan.desc
    then bestCandidateHandle env ctx report plan rest best
    else
      match autoCandidate env ctx report plan backend, best with
      | none, best => bestCandidateHandle env ctx report plan rest best
      | some found, none => bestCandidateHandle env ctx report plan rest (some found)
      | some found, some best =>
        bestCandidateHandle env ctx report plan rest (some (if found.2 < best.2 then found else best))

/-- `select_auto_backend_from_reviewed_cache`. The version that a created hipBLASLt context reports
is read for the hipBLASLt candidate alone, so every candidate starts from the same report. -/
def selectAutoBackendFromReviewedCache (env : AutoBackendEnv τ) (ctx : Context)
    (report : ContextReport) (handle : PlanHandle) : PlanHandle :=
  if !ctx.autoBackendSelection || decide (ctx.backend ≠ .hipDirect) ||
      !backendSupportsSemantics ctx.backend handle.plan.desc.semantics then handle
  else
    match bestCandidateHandle env ctx report handle.plan
        [.hipVectorAluInt64, .hipblaslt, .ck, .rocwmma, .amdgpuBuiltins] none with
    | none => handle
    | some best =>
      { best.1 with metadata := { best.1.metadata with performanceValidated := true } }

/-- `rns8_create_plan` in full: the plan, its metadata, and the automatic choice of a backend. -/
def rns8CreatePlanHandle (env : AutoBackendEnv τ) (ctx : Context) (report : ContextReport)
    (desc : GemmDesc) : Except Status PlanHandle :=
  match rns8CreatePlan ctx desc with
  | .error status => .error status
  | .ok plan =>
    let handle := PlanHandle.configure env.metadata report plan
    .ok (if desc.requestedBackend = .auto then
      selectAutoBackendFromReviewedCache env ctx report handle else handle)

/-- The best candidate is a candidate that supports the plan. -/
theorem bestCandidateHandle_some {env : AutoBackendEnv τ} {ctx : Context} {report : ContextReport}
    {plan : Plan} {candidates : List BackendKind} {best : Option (PlanHandle × τ)}
    {c : PlanHandle × τ} (h : bestCandidateHandle env ctx report plan candidates best = some c) :
    (∃ backend report', backendSupportsSemantics backend plan.desc.semantics = true ∧
      c.1 = .configure env.metadata report' { plan with backend }) ∨ best = some c := by
  -- the induction is on the candidates left, for any best one so far
  induction candidates generalizing best with
  | nil => exact Or.inr h
  | cons backend rest ih =>
    unfold bestCandidateHandle at h
    split at h
    · exact ih h
    · next hskip =>
      have hsup : backendSupportsSemantics backend plan.desc.semantics = true := by
        simp only [Bool.or_eq_true, Bool.not_eq_true', not_or] at hskip
        simpa using hskip.1
      have hfound : ∀ found : PlanHandle × τ,
          autoCandidate env ctx report plan backend = some found → ∃ backend report',
            backendSupportsSemantics backend plan.desc.semantics = true ∧
              found.1 = .configure env.metadata report' { plan with backend } := fun found hf =>
        ⟨backend, (autoCandidate_some hf).choose, hsup, (autoCandidate_some hf).choose_spec⟩
      split at h
      · exact ih h
      · next hf =>
        rcases ih h with hc | hc
        · exact Or.inl hc
        · exact Or.inl (Option.some.inj hc ▸ hfound _ hf)
      -- a candidate with a time replaces the best one only when it is faster
      · next hf =>
        rcases ih h with hc | hc
        · exact Or.inl hc
        · split at hc
          · exact Or.inl (Option.some.inj hc ▸ hfound _ hf)
          · exact Or.inr hc

/-- The recorded validation of a moved plan is not part of the check. -/
theorem backendMetadataMatches_performanceValidated (env : MetadataEnv) (handle : PlanHandle)
    (validated : Bool) :
    backendMetadataMatches env { handle with
      metadata := { handle.metadata with performanceValidated := validated } } =
      backendMetadataMatches env handle := rfl

/-- **Where a created plan comes from.** It is the scheduled plan of its descriptor, on the backend
of the context or on one that supports it, and its metadata passes its check. -/
theorem rns8CreatePlanHandle_ok {env : AutoBackendEnv τ} {ctx : Context} {report : ContextReport}
    {desc : GemmDesc} {handle : PlanHandle}
    (h : rns8CreatePlanHandle env ctx report desc = .ok handle) :
    ∃ created, rns8CreatePlan ctx desc = .ok created ∧
      (handle.plan = created ∨ ∃ backend,
        backendSupportsSemantics backend created.desc.semantics = true ∧
          handle.plan = { created with backend }) ∧
      backendMetadataMatches env.metadata handle = true := by
  unfold rns8CreatePlanHandle at h
  -- without automatic selection, or without a hit, the plan keeps its own metadata
  split at h
  · cases h
  · next created hcreate =>
    refine ⟨created, hcreate, ?_⟩
    have hown : backendMetadataMatches env.metadata
        (PlanHandle.configure env.metadata report created) = true :=
      backendMetadataMatches_configure env.metadata report created
    rw [← Except.ok.inj h]
    split
    · unfold selectAutoBackendFromReviewedCache
      split
      · exact ⟨Or.inl rfl, hown⟩
      · split
        · exact ⟨Or.inl rfl, hown⟩
        · next best hbest =>
          rcases bestCandidateHandle_some hbest with ⟨backend, report', hsup, hc⟩ | hnone
          · refine ⟨Or.inr ⟨backend, hsup, by rw [hc]; rfl⟩, ?_⟩
            rw [backendMetadataMatches_performanceValidated, hc]
            exact backendMetadataMatches_configure _ _ _
          · cases hnone
    · exact ⟨Or.inl rfl, hown⟩

/-- The time that the cache holds for a plan on its own backend. -/
def cachedTime (env : AutoBackendEnv τ) (ctx : Context) (report : ContextReport) (plan : Plan) :
    Option τ :=
  (autoCandidate env ctx report plan plan.backend).map Prod.snd

/-- The candidate loop with the plans forgotten. -/
theorem bestCandidateHandle_map (env : AutoBackendEnv τ) (ctx : Context) (report : ContextReport)
    (plan : Plan) (candidates : List BackendKind) (best : Option (PlanHandle × τ)) :
    (bestCandidateHandle env ctx report plan candidates best).map
        (fun c => (c.1.plan.backend, c.2)) =
      bestCandidate (fun backend => cachedTime env ctx report { plan with backend })
        (candidates.filter fun backend =>
          backendSupportsSemantics backend plan.desc.semantics &&
            !backendLacksKernel backend plan.desc)
        (best.map fun c => (c.1.plan.backend, c.2)) := by
  induction candidates generalizing best with
  | nil => rfl
  | cons backend rest ih =>
    unfold bestCandidateHandle
    split
    · next hskip =>
      -- a candidate that is skipped here is filtered out there
      have hdrop : backendSupportsSemantics backend plan.desc.semantics = false ∨
          backendLacksKernel backend plan.desc = true := by simpa using hskip
      rcases hdrop with hno | hno <;>
        simp only [List.filter_cons, hno, Bool.false_and, Bool.not_true, Bool.and_false,
          Bool.false_eq_true, if_false, ih]
    · next hskip =>
      rw [List.filter_cons_of_pos (by simpa [not_or] using hskip)]
      have htime : cachedTime env ctx report { plan with backend } =
          (autoCandidate env ctx report plan backend).map Prod.snd := rfl
      unfold bestCandidate
      rw [htime]
      -- the fold keeps the backend and the time of the same candidate
      cases hc : autoCandidate env ctx report plan backend with
      | none => cases best <;> exact ih _
      | some found =>
        obtain ⟨report', hfound⟩ := autoCandidate_some hc
        have hbackend : found.1.plan.backend = backend := by rw [hfound]; rfl
        cases best with
        | none => simp [ih, hbackend]
        | some best =>
          simp only [ih, Option.map_some]
          congr 2
          split <;> simp [hbackend]

/-- **The plan of a handle.** Forgetting the metadata, creation is `rns8CreatePlanAuto` on the times
of the cache. -/
theorem rns8CreatePlanHandle_plan (env : AutoBackendEnv τ) (ctx : Context) (report : ContextReport)
    (desc : GemmDesc) :
    (rns8CreatePlanHandle env ctx report desc).map PlanHandle.plan =
      rns8CreatePlanAuto (cachedTime env ctx report) ctx desc := by
  unfold rns8CreatePlanHandle rns8CreatePlanAuto
  cases hcreate : rns8CreatePlan ctx desc with
  | error status => rfl
  | ok created =>
    refine congrArg Except.ok ?_
    by_cases hauto : desc.requestedBackend = .auto
    · simp only [hauto, if_true, selectAutoBackendFromReviewedCache, selectAutoBackend]
      have hplan : (PlanHandle.configure env.metadata report created).plan = created := rfl
      rw [hplan]
      split
      · rfl
      · have hbest := bestCandidateHandle_map env ctx report created
          [.hipVectorAluInt64, .hipblaslt, .ck, .rocwmma, .amdgpuBuiltins] none
        rw [Option.map_none] at hbest
        rw [← hbest]
        cases hfound : bestCandidateHandle env ctx report created
            [.hipVectorAluInt64, .hipblaslt, .ck, .rocwmma, .amdgpuBuiltins] none with
        | none => rfl
        | some best =>
          rcases bestCandidateHandle_some hfound with ⟨backend, report', -, hc⟩ | hnone
          · simp only [Option.map_some, hc, PlanHandle.configure]
          · cases hnone
    · simp only [hauto, if_false, PlanHandle.configure]

/-- The two models of creation fail together. -/
theorem rns8CreatePlanHandle_error_iff {env : AutoBackendEnv τ} {ctx : Context}
    {report : ContextReport} {desc : GemmDesc} {status : Status} :
    rns8CreatePlanHandle env ctx report desc = .error status ↔
      rns8CreatePlan ctx desc = .error status := by
  unfold rns8CreatePlanHandle
  cases rns8CreatePlan ctx desc <;> simp

end Creation

end Rns8
