import Rns8.Api.Export

/-!
# Lifting exact-wide matrices and the automatic GEMM

`api_exact_lift.cpp`. A lift computes residue planes beyond the proven ones from the integers that
the proven planes determine. `rns8_gemm_exact_wide_cpu_auto` picks the shortest prefix that carries
its output, stages the missing planes of its operands and the whole output, and writes the matrices
only then.
-/

namespace Rns8

/-! ### Lifts -/

/-- `ExactCpuLift`. -/
structure ExactCpuLift where
  sourcePrefix : ℕ := 0
  targetPrefix : ℕ := 0
  cells : ℕ := 0
  sourceCount : ℕ := 0
  stagedCount : ℕ := 0
  product : ℕ := 0
  suffix : ℕ → Int8 := fun _ => 0

/-- `ExactCpuLift::select`. -/
def ExactCpuLift.select (lift : ExactCpuLift) (target : ℕ) : ExactCpuLift :=
  { lift with
    targetPrefix := target
    stagedCount := if lift.sourcePrefix < target then lift.cells * (target - lift.sourcePrefix) else 0 }

/-- `ExactCpuLift::plane`. -/
def ExactCpuLift.plane (lift : ExactCpuLift) (matrix : RnsMatrix) (p : ℕ) : ℕ → Int8 := fun o =>
  if p < lift.sourcePrefix then matrix.residues.cell (lift.cells * p + o)
  else lift.suffix (lift.cells * (p - lift.sourcePrefix) + o)

/-- `exact_cpu_storage`: `cells`. -/
def exactCpuStorage (ctx : Context) (matrix : RnsMatrix) (target : ℕ) (requireCurrent : Bool) :
    Except Status ℕ :=
  if ctx.backend ≠ matrix.backend then .error .invalidArgument
  else if ctx.backend ≠ .cpuReference then .error .unsupportedBackend
  else if exactWideSemantics matrix.desc.semantics = false ∨ target = 0 ∨ maxSupportedPrefix < target ∨
      matrix.rnsPrefix < target ∨ matrix.desc.maxPrefix ≠ matrix.rnsPrefix ∨
      validateMatrixDesc matrix.desc matrix.rnsPrefix ≠ .success then .error .invalidArgument
  else match matrixCellCount matrix.desc.rows matrix.desc.cols,
      rnsResidueCount matrix.desc.rows matrix.desc.cols matrix.rnsPrefix with
    | some cells, some _ =>
      if !rnsMatrixStorageMatches matrix ctx.backend matrix.desc.rows matrix.desc.cols
          matrix.rnsPrefix ||
          (requireCurrent && !rnsResidueStateCurrentForBackend matrix ctx.backend) then
        .error .invalidArgument
      else .ok cells
    | _, _ => .error .rangeError

/-- `prepare_exact_cpu_lift`. -/
def prepareExactCpuLift (ctx : Context) (matrix : RnsMatrix) (target : ℕ) :
    Except Status ExactCpuLift :=
  match exactCpuStorage ctx matrix target true with
  | .error status => .error status
  | .ok cells =>
    let source := matrix.exactRangePrefix
    if source = 0 ∨ matrix.rnsPrefix < source then .error .rangeError
    else if !exactRangeFits matrix.desc.semantics matrix.exactMaxMagnitude (modulusProduct source) then
      .error .rangeError
    else .ok (({
        sourcePrefix := source
        cells := cells
        sourceCount := cells * source
        product := modulusProduct source } : ExactCpuLift).select target)

/-- The integer of a cell while a lift is staged. -/
def liftCell (matrix : RnsMatrix) (lift : ExactCpuLift) (cell : ℕ) : Except Status ℤ :=
  let residues p := matrix.residues.cell (lift.cells * p + cell)
  if (List.range lift.sourcePrefix).any fun p =>
      decide ((residues p).toInt < -((modulusAt p : ℤ) / 2)) ||
        decide (((modulusAt p : ℤ) - 1) / 2 < (residues p).toInt) then .error .invalidArgument
  else
    let value := reconstructCanonical residues lift.sourcePrefix
    let value := if matrix.desc.semantics = .exactWideSigned then
      centeredFromCanonical value lift.product else value
    if matrix.exactMaxMagnitude < |value| then .error .rangeError else .ok value

/-- `stage_exact_cpu_lift`; `alloc` is the outcome of its allocations. -/
def stageExactCpuLift (alloc : Bool) (matrix : RnsMatrix) (lift : ExactCpuLift) :
    Except Status ExactCpuLift :=
  if lift.stagedCount = 0 then .ok lift
  else if alloc = false then .error .internalError
  else match stageCells 1 lift.cells fun _ cell => liftCell matrix lift cell with
    | .error status => .error status
    | .ok value => .ok { lift with
        suffix := fun o => centeredResidue (value 0 (o % lift.cells))
          (modulusAt (lift.sourcePrefix + o / lift.cells)) }

/-- `commit_exact_cpu_lift`. -/
def commitExactCpuLift (matrix : RnsMatrix) (lift : ExactCpuLift) : RnsMatrix :=
  if lift.stagedCount = 0 then matrix
  else
    { matrix.withPlanes (fun o =>
        if lift.sourceCount ≤ o ∧ o < lift.sourceCount + lift.stagedCount then
          lift.suffix (o - lift.sourceCount)
        else matrix.residues.cell o) with
      exactRangePrefix := lift.targetPrefix }

/-- `add_staged_payload`. -/
def addStagedPayload (bytes : ℕ) (total : Option ℕ) : Option ℕ :=
  match total with
  | none => none
  | some total => if sizeMax - total < bytes then none else some (total + bytes)

/-- `rns8_lift_exact_wide_cpu`. -/
def rns8LiftExactWideCpu (alloc : Bool) (ctx : Context) (matrix : RnsMatrix) (targetPrefix : ℕ)
    (maxStagedResidueBytes : ℕ) : Status × RnsMatrix :=
  match prepareExactCpuLift ctx matrix targetPrefix with
  | .error status => (status, matrix)
  | .ok lift =>
    if maxStagedResidueBytes < lift.stagedCount then (.workspaceTooSmall, matrix)
    else match stageExactCpuLift alloc matrix lift with
      | .error status => (status, matrix)
      | .ok lift => (.success, commitExactCpuLift matrix lift)

/-! ### The automatic GEMM -/

/-- What the environment answers during one automatic GEMM: the allocations of the output ranges, of
the two staged suffixes, and of the staged output with its row accumulator. -/
structure AutoEnv where
  ranges : Bool
  stageA : Bool
  stageB : Bool
  output : Bool

/-- The loop that picks `selected`; the answer is past `ceiling` when no prefix carries the bound. -/
def selectAutoPrefix (semantics : Semantics) (bound : ℤ) (first ceiling : ℕ) : ℕ :=
  ((List.range (ceiling + 1 - first)).map (first + ·)).find?
    (fun selected => exactRangeFits semantics bound (modulusProduct selected)) |>.getD (ceiling + 1)

/-- The buffers of the staged multiplication. -/
inductive AutoBuffer
  | a | b | output
  deriving DecidableEq

/-- The residues while plane `p` is multiplied. -/
def autoPlanes (planeA planeB output : ℕ → Int8) : Planes AutoBuffer
  | .a => planeA
  | .b => planeB
  | .output => output

/-- The staged output after the loop over `p < selected`. -/
def autoOutput (plan : Plan) (A B C : RnsMatrix) (aLift bLift : ExactCpuLift) (cCells selected : ℕ) :
    ℕ → Int8 :=
  (List.range selected).foldl (fun output p =>
    ringGemmModulus serialTeam (⟨.a, 0, A.desc.cols⟩ : PlanePtr AutoBuffer) ⟨.b, 0, B.desc.cols⟩
      ⟨.output, cCells * p, C.desc.cols⟩ plan.desc.m plan.desc.n plan.desc.k (modulusAt p)
      (autoPlanes (aLift.plane A p) (bLift.plane B p) output) .output) fun _ => 0

/-- What a successful automatic GEMM commits. -/
structure AutoResult where
  aLift : ExactCpuLift
  bLift : ExactCpuLift
  output : ℕ → Int8
  outputCount : ℕ
  bound : ℤ
  ranges : MatrixRanges
  selected : ℕ
  stagedBytes : ℕ

/-- The checks of `rns8_gemm_exact_wide_cpu_auto` before it prepares its operands. -/
def autoContract (ctx : Context) (plan : Plan) (workspace : Workspace) (A B C : RnsMatrix) : Status :=
  if ctx.backend ≠ plan.backend then .invalidArgument
  else if plan.backend ≠ .cpuReference then .unsupportedBackend
  else if exactWideSemantics plan.desc.semantics = false then .invalidArgument
  else
    let status := validatePlanContextWorkspace ctx plan workspace
    if status ≠ .success then status
    else if !operandDescriptorsMatch plan .none plan.rnsPrefix A B C then .invalidArgument
    else .success

/-- The lifts of the operands: one for both when they are the same matrix. -/
def prepareAuto (ctx : Context) (plan : Plan) (same : Bool) (A B C : RnsMatrix) :
    Except Status (ExactCpuLift × ExactCpuLift × ℕ) :=
  match prepareExactCpuLift ctx A plan.rnsPrefix with
  | .error status => .error status
  | .ok aLift =>
    match if same then .ok aLift else prepareExactCpuLift ctx B plan.rnsPrefix with
    | .error status => .error status
    | .ok bLift =>
      match exactCpuStorage ctx C plan.rnsPrefix false with
      | .error status => .error status
      | .ok cCells => .ok (aLift, bLift, cCells)

/-- The bytes charged against the budget, `none` when they overflow. -/
def autoStagedBytes (same : Bool) (aLift bLift : ExactCpuLift) (outputCount : ℕ) : Option ℕ :=
  addStagedPayload outputCount
    (if same then addStagedPayload aLift.stagedCount (some 0)
    else addStagedPayload bLift.stagedCount (addStagedPayload aLift.stagedCount (some 0)))

/-- Everything `rns8_gemm_exact_wide_cpu_auto` does before its first resident write. -/
def stageAuto (env : AutoEnv) (ctx : Context) (plan : Plan) (workspace : Workspace) (same : Bool)
    (A B C : RnsMatrix) (maxStagedResidueBytes : ℕ) : Except Status AutoResult :=
  let contract := autoContract ctx plan workspace A B C
  if contract ≠ .success then .error contract
  else match prepareAuto ctx plan same A B C with
  | .error status => .error status
  | .ok (aLift, bLift, cCells) =>
    if env.ranges = false then .error .internalError
    else
      let range := exactGemmBound plan A B
      let ceiling := min (min plan.desc.maxPrefix A.rnsPrefix) (min B.rnsPrefix C.rnsPrefix)
      let selected := selectAutoPrefix plan.desc.semantics range.1 plan.rnsPrefix ceiling
      if ceiling < selected then .error .rangeError
      else
        let aLift := aLift.select selected
        let bLift := bLift.select selected
        let outputCount := cCells * selected
        match autoStagedBytes same aLift bLift outputCount with
        | none => .error .rangeError
        | some stagedBytes =>
          if maxStagedResidueBytes < stagedBytes then .error .workspaceTooSmall
          else match stageExactCpuLift env.stageA A aLift with
            | .error status => .error status
            | .ok aLift =>
              match if same then .ok aLift else stageExactCpuLift env.stageB B bLift with
              | .error status => .error status
              | .ok bLift =>
                if env.output = false then .error .internalError
                else .ok
                  { aLift, bLift, outputCount, selected, stagedBytes
                    output := autoOutput plan A B C aLift bLift cCells selected
                    bound := range.1
                    ranges := range.2 }

/-- The new output matrix of an automatic GEMM. -/
def commitAutoOutput (C : RnsMatrix) (r : AutoResult) (version : UInt64) : RnsMatrix :=
  { markOutputHostResiduesCurrent (C.withPlanes fun o =>
      if o < r.outputCount then r.output o else C.residues.cell o) with
    sourceVersion := version
    exactMaxMagnitude := r.bound
    exactAxisRanges := r.ranges
    exactRangePrefix := r.selected }

/-- `rns8_gemm_exact_wide_cpu_auto`; `out` is what `*out_selected_prefix` holds. -/
def rns8GemmExactWideCpuAuto (env : AutoEnv) (ctx : Context) (plan : Plan) (workspace : Workspace)
    (a b c : Handle) (maxStagedResidueBytes out : ℕ) (s : Store) : Status × Store × ℕ :=
  match s a, s b, s c with
  | some A, some B, some C =>
    if a = c ∨ b = c then (.invalidArgument, s, out)
    else match stageAuto env ctx plan workspace (decide (a = b)) A B C maxStagedResidueBytes with
      | .error status => (status, s, out)
      | .ok r =>
        let version := gemmOutputSourceVersion A B
        let s := s.set a (commitExactCpuLift A r.aLift)
        let s := if a = b then s else s.set b (commitExactCpuLift B r.bLift)
        (.success, s.set c (commitAutoOutput C r version), r.selected)
  | _, _, _ => (.invalidArgument, s, out)

end Rns8
