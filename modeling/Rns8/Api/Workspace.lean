import Rns8.Plan.Schedule
import Rns8.Core.Matrix

/-!
# Workspaces and source versions

`rns8_workspace` as far as the entry points compare it with a plan, `rns8_create_workspace`,
`validate_plan_context_workspace`, and the hash functions of
`api_plan_workspace_fingerprint.inc`. The scratch buffers of the accelerators are left out: their
sizes are functions of the plan that are compared with themselves.
-/

namespace Rns8

/-! ### Hashes -/

/-- `workspace_fingerprint_mix`. -/
def workspaceFingerprintMix (hash value : UInt64) : UInt64 := (hash ^^^ value) * 1099511628211

/-- The offset basis both hashes start from. -/
def fingerprintBasis : UInt64 := 1469598103934665603

/-- `gemm_output_source_version_values`. -/
def gemmOutputSourceVersionValues (aSourceVersion bSourceVersion : UInt64) : UInt64 :=
  let hash := workspaceFingerprintMix
    (workspaceFingerprintMix fingerprintBasis aSourceVersion) bSourceVersion
  if hash = 0 then 1 else hash

/-- `gemm_output_source_version`. -/
def gemmOutputSourceVersion (A B : RnsMatrix) : UInt64 :=
  gemmOutputSourceVersionValues A.sourceVersion B.sourceVersion

/-- The numeric value of `rns8_semantics`. -/
def Semantics.code : Semantics → ℕ
  | .boundedI64 => 1
  | .boundedU64 => 2
  | .exactWideSigned => 3
  | .exactWideUnsigned => 4
  | .wrapU64Mod2_64 => 5
  | .finiteRingU8 => 6
  | .finiteFieldU8 => 7
  | .research => 8

/-- The numeric value of `rns8_bound_kind`. -/
def BoundKind.code : BoundKind → ℕ
  | .none => 0
  | .globalMaxAbs => 1
  | .globalMaxUnsigned => 2
  | .perTileMaxAbs => 3
  | .perTileMaxUnsigned => 4
  | .inputRangeAndK => 5

/-- The numeric value of the schedule entry flags. -/
def TileFlags.code (f : TileFlags) : ℕ :=
  (if f.zeroOutput then 1 else 0) + if f.zeroRowColProduct then 2 else 0

/-- The words of one schedule entry that the fingerprint mixes. -/
def TileScheduleEntry.fingerprintWords (entry : TileScheduleEntry) : List ℕ :=
  [entry.flags.code, entry.tileRow, entry.tileCol, entry.rowOffset, entry.colOffset, entry.rowExtent,
    entry.colExtent, entry.requiredPrefix, entry.selectedPrefix, entry.groupIndex,
    entry.rangeBitLength]

/-- The words of the plan that the fingerprint mixes, in order. -/
def Plan.fingerprintWords (plan : Plan) : List ℕ :=
  [plan.desc.semantics.code, plan.desc.boundKind.code, plan.desc.m, plan.desc.n, plan.desc.k,
    plan.desc.bound, plan.desc.lhsBound, plan.desc.rhsBound, plan.desc.finiteModulus, plan.desc.tileM,
    plan.desc.tileN, plan.rnsPrefix, plan.scheduleTileRows, plan.scheduleTileCols,
    plan.scheduleTileCount, plan.scheduleMinRequiredPrefix, plan.scheduleMaxRequiredPrefix,
    plan.scheduleMinSelectedPrefix, plan.scheduleMaxSelectedPrefix, plan.schedulePrefixGroupCount,
    plan.scheduleRangeBitLength, plan.scheduleAdaptivePrefixActive.toNat,
    plan.scheduleAdaptiveSkipActive.toNat, plan.scheduleFlags.code, plan.zeroARowCount,
    plan.zeroBColCount, plan.zeroRowColProductCount] ++
    (plan.tileBounds.length :: plan.tileBounds) ++ (plan.zeroARows.length :: plan.zeroARows) ++
    (plan.zeroBCols.length :: plan.zeroBCols) ++
    (plan.tileSchedule.length :: plan.tileSchedule.flatMap TileScheduleEntry.fingerprintWords)

/-- `plan_workspace_fingerprint`, without the backend report strings. -/
def planWorkspaceFingerprint (plan : Plan) : UInt64 :=
  let hash := plan.fingerprintWords.foldl
    (fun hash value => workspaceFingerprintMix hash (UInt64.ofNat value)) fingerprintBasis
  if hash = 0 then 1 else hash

/-! ### The workspace -/

/-- The fields `initialize_workspace_identity` copies from the plan and the context. -/
structure WorkspaceIdentity where
  semantics : Semantics
  boundKind : BoundKind
  m : ℕ
  n : ℕ
  k : ℕ
  rnsPrefix : ℕ
  backend : BackendKind
  hipDeviceId : ℤ
  deriving DecidableEq

/-- The fields that `workspace_schedule_contract_matches_plan` compares, with the fingerprint. -/
structure ScheduleContract where
  bound : ℕ
  finiteModulus : ℕ
  tileM : ℕ
  tileN : ℕ
  scheduleTileRows : ℕ
  scheduleTileCols : ℕ
  scheduleTileCount : ℕ
  scheduleMinRequiredPrefix : ℕ
  scheduleMaxRequiredPrefix : ℕ
  scheduleMinSelectedPrefix : ℕ
  scheduleMaxSelectedPrefix : ℕ
  schedulePrefixGroupCount : ℕ
  scheduleRangeBitLength : ℕ
  scheduleAdaptivePrefixActive : Bool
  scheduleAdaptiveSkipActive : Bool
  scheduleFlags : TileFlags
  zeroARowCount : ℕ
  zeroBColCount : ℕ
  zeroRowColProductCount : ℕ
  scheduleFingerprint : UInt64
  deriving DecidableEq

/-- `initialize_workspace_schedule_contract`. -/
def scheduleContract (plan : Plan) : ScheduleContract where
  bound := plan.desc.bound
  finiteModulus := plan.desc.finiteModulus
  tileM := plan.desc.tileM
  tileN := plan.desc.tileN
  scheduleTileRows := plan.scheduleTileRows
  scheduleTileCols := plan.scheduleTileCols
  scheduleTileCount := plan.scheduleTileCount
  scheduleMinRequiredPrefix := plan.scheduleMinRequiredPrefix
  scheduleMaxRequiredPrefix := plan.scheduleMaxRequiredPrefix
  scheduleMinSelectedPrefix := plan.scheduleMinSelectedPrefix
  scheduleMaxSelectedPrefix := plan.scheduleMaxSelectedPrefix
  schedulePrefixGroupCount := plan.schedulePrefixGroupCount
  scheduleRangeBitLength := plan.scheduleRangeBitLength
  scheduleAdaptivePrefixActive := plan.scheduleAdaptivePrefixActive
  scheduleAdaptiveSkipActive := plan.scheduleAdaptiveSkipActive
  scheduleFlags := plan.scheduleFlags
  zeroARowCount := plan.zeroARowCount
  zeroBColCount := plan.zeroBColCount
  zeroRowColProductCount := plan.zeroRowColProductCount
  scheduleFingerprint := planWorkspaceFingerprint plan

/-- The entries that plane `p` multiplies: those that select it and are not declared zero. -/
def activePrefixEntries (plan : Plan) (p : ℕ) : List TileScheduleEntry :=
  (plan.tileSchedule.filter fun entry =>
    decide (p < entry.selectedPrefix) && !entry.flags.zeroOutput).map
      fun entry => { entry with groupIndex := p }

/-- `build_active_prefix_tile_schedule`: the entries of every plane, one plane after the other. -/
def buildActivePrefixTileSchedule (plan : Plan) : List (List TileScheduleEntry) :=
  if plan.tileSchedule = [] then []
  else (List.range plan.scheduleMaxSelectedPrefix).map (activePrefixEntries plan)

/-- `hip_direct_gemm_requires_device_tile_schedule`. -/
def hipDirectGemmRequiresDeviceTileSchedule (plan : Plan) : Bool :=
  let zeroTiles := plan.tileSchedule.filter (·.flags.zeroOutput)
  let uniform := match zeroTiles with
    | [] => true
    | entry :: _ => decide (entry.selectedPrefix ≠ 0) &&
        zeroTiles.all fun e => decide (e.selectedPrefix = entry.selectedPrefix)
  decide (plan.backend = .hipDirect) && !plan.tileSchedule.isEmpty && !zeroTiles.isEmpty &&
    !(decide (zeroTiles.length = plan.tileSchedule.length) && uniform)

/-- The device copies of a workspace of the direct HIP backend. -/
structure WorkspaceResources where
  zeroARowsBytes : ℕ := 0
  zeroBColsBytes : ℕ := 0
  tileScheduleCount : ℕ := 0
  activeSchedule : List (List TileScheduleEntry) := []
  deriving DecidableEq

/-- What `rns8_create_workspace` uploads for the plan. -/
def workspaceResources (plan : Plan) : WorkspaceResources :=
  if plan.backend = .hipDirect then
    let masks := plan.desc.flags.allowProvenZeroRowColSkips
    { zeroARowsBytes := if masks then plan.zeroARows.length else 0
      zeroBColsBytes := if masks then plan.zeroBCols.length else 0
      tileScheduleCount :=
        if hipDirectGemmRequiresDeviceTileSchedule plan then plan.tileSchedule.length else 0
      activeSchedule := buildActivePrefixTileSchedule plan }
  else {}

/-- `rns8_workspace`. -/
structure Workspace where
  identity : WorkspaceIdentity
  contract : ScheduleContract
  resources : WorkspaceResources
  deriving DecidableEq

/-- `initialize_workspace_identity`. -/
def workspaceIdentity (ctx : Context) (plan : Plan) : WorkspaceIdentity where
  semantics := plan.desc.semantics
  boundKind := plan.desc.boundKind
  m := plan.desc.m
  n := plan.desc.n
  k := plan.desc.k
  rnsPrefix := plan.rnsPrefix
  backend := plan.backend
  hipDeviceId := if hipDeviceBackend plan.backend then ctx.deviceId else -1

/-- The resource checks of the direct HIP backend: the sizes of the copies, but not what they hold. -/
def workspaceResourcesMatch (plan : Plan) (workspace : Workspace) : Bool :=
  let expected := workspaceResources plan
  let masks := plan.backend = .hipDirect ∧ plan.desc.flags.allowProvenZeroRowColSkips = true
  decide (workspace.resources.zeroARowsBytes = if masks then plan.desc.m else 0) &&
    decide (workspace.resources.zeroBColsBytes = if masks then plan.desc.n else 0) &&
    decide (workspace.resources.tileScheduleCount = expected.tileScheduleCount) &&
    decide (workspace.resources.activeSchedule.map List.length =
      expected.activeSchedule.map List.length)

/-- `validate_plan_context_workspace`. -/
def validatePlanContextWorkspace (ctx : Context) (plan : Plan) (workspace : Workspace) : Status :=
  if !planScheduleContractMatches plan then .invalidArgument
  else if !contextAcceptsBackend ctx plan.backend ||
      decide (workspace.identity.backend ≠ plan.backend) then .invalidArgument
  else if workspace.identity.semantics ≠ plan.desc.semantics ∨
      workspace.identity.boundKind ≠ plan.desc.boundKind then .invalidArgument
  else if workspace.identity.m ≠ plan.desc.m ∨ workspace.identity.n ≠ plan.desc.n ∨
      workspace.identity.k ≠ plan.desc.k ∨ workspace.identity.rnsPrefix ≠ plan.rnsPrefix then
    .workspaceTooSmall
  else if workspace.contract ≠ scheduleContract plan then .invalidArgument
  else if hipDeviceBackend plan.backend = true ∧ workspace.identity.hipDeviceId ≠ ctx.deviceId then
    .invalidArgument
  else if !workspaceResourcesMatch plan workspace then .invalidArgument
  else .success

/-- `rns8_create_workspace`, when its allocations and uploads succeed. -/
def rns8CreateWorkspace (ctx : Context) (plan : Plan) : Except Status Workspace :=
  if !planScheduleContractMatches plan then .error .invalidArgument
  else if !contextAcceptsBackend ctx plan.backend then .error .invalidArgument
  else if plan.backend = .hipblaslt ∧ ctx.hipblasltHandle = false then .error .unsupportedBackend
  else .ok ⟨workspaceIdentity ctx plan, scheduleContract plan, workspaceResources plan⟩

/-! ### What validation says -/

theorem validatePlanContextWorkspace_success {ctx : Context} {plan : Plan} {workspace : Workspace}
    (h : validatePlanContextWorkspace ctx plan workspace = .success) :
    planScheduleContractMatches plan = true ∧ contextAcceptsBackend ctx plan.backend = true := by
  unfold validatePlanContextWorkspace at h
  split at h
  · cases h
  · next hc =>
    split at h
    · cases h
    · next hb =>
      simp only [Bool.or_eq_true, Bool.not_eq_true', not_or, Bool.not_eq_false] at hb
      exact ⟨by simpa using hc, hb.1⟩

/-- The ladder of a residue plan that passes the contract check. -/
theorem planScheduleContractMatches_ladder {plan : Plan}
    (h : planScheduleContractMatches plan = true) (hrns : usesRnsStorage plan.desc.semantics = true) :
    0 < plan.rnsPrefix ∧ plan.rnsPrefix ≤ plan.desc.maxPrefix ∧
      plan.desc.maxPrefix ≤ maxSupportedPrefix ∧
      plan.modulusProduct = modulusProduct plan.rnsPrefix := by
  have hkind : ¬ (plan.desc.semantics = .wrapU64Mod2_64 ∨
      usesFiniteStorage plan.desc.semantics = true) := by
    cases hs : plan.desc.semantics <;> simp_all [usesRnsStorage, usesFiniteStorage]
  simp only [planScheduleContractMatches, hkind, if_false, Bool.and_eq_true] at h
  have hl := h.2.1
  simp only [ladderContractMatches, Bool.and_eq_true, decide_eq_true_eq] at hl
  tauto

/-- The mask lengths that the plan contract guarantees. -/
theorem planScheduleContractMatches_masks {plan : Plan} (h : planScheduleContractMatches plan = true)
    (hm : plan.desc.flags.allowProvenZeroRowColSkips = true) :
    plan.zeroARows.length = plan.desc.m ∧ plan.zeroBCols.length = plan.desc.n := by
  have hz : zeroRowColContractMatches plan = true := by
    simp only [planScheduleContractMatches, Bool.and_eq_true] at h
    tauto
  simp only [zeroRowColContractMatches, hm, Bool.not_true, Bool.false_eq_true, if_false,
    Bool.and_eq_true, decide_eq_true_eq] at hz
  tauto

/-- **A new workspace fits its plan.** -/
theorem validate_createWorkspace {ctx : Context} {plan : Plan} {workspace : Workspace}
    (h : rns8CreateWorkspace ctx plan = .ok workspace) :
    validatePlanContextWorkspace ctx plan workspace = .success := by
  unfold rns8CreateWorkspace at h
  split at h
  · cases h
  · next hc =>
    split at h
    · cases h
    · next ha =>
      split at h
      · cases h
      · obtain rfl := Except.ok.inj h
        have hc : planScheduleContractMatches plan = true := by simpa using hc
        have ha : contextAcceptsBackend ctx plan.backend = true := by simpa using ha
        have hres : workspaceResourcesMatch plan
            ⟨workspaceIdentity ctx plan, scheduleContract plan, workspaceResources plan⟩ = true := by
          simp only [workspaceResourcesMatch, decide_true, Bool.and_true, Bool.and_eq_true,
            decide_eq_true_eq, workspaceResources]
          by_cases hb : plan.backend = .hipDirect
          · by_cases hm : plan.desc.flags.allowProvenZeroRowColSkips = true
            · simp [hb, hm, planScheduleContractMatches_masks hc hm]
            · simp [hb, hm]
          · simp [hb]
        have hid : ¬ (hipDeviceBackend plan.backend = true ∧
            (workspaceIdentity ctx plan).hipDeviceId ≠ ctx.deviceId) := fun hd => hd.2 (if_pos hd.1)
        simp only [validatePlanContextWorkspace, hc, ha, hres, hid, Bool.not_true, Bool.false_or,
          Bool.false_eq_true, if_false]
        simp [workspaceIdentity]

end Rns8
