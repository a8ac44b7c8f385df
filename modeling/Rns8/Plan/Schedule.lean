import Rns8.Plan.Validate

/-!
# Plans and their tile schedule

`rns8_create_plan` with `configure_plan_schedule`, the lookups that find the tile, the prefix and
the bound of an output cell, and `plan_schedule_contract_matches`, the check every entry point makes
on the plan it is given.
-/

namespace Rns8

/-- `ceil_div_i64_u32`. -/
def ceilDiv (value divisor : ℕ) : ℕ := (value + divisor - 1) / divisor

/-- `count_set_mask_values`. -/
def countSetMaskValues (values : List ℕ) : ℕ := values.countP (· ≠ 0)

/-- `mask_range_has_set_value`. -/
def maskRangeHasSetValue (values : List ℕ) (rangeBegin rangeEnd : ℕ) : Bool :=
  if rangeEnd < rangeBegin ∨ values.length < rangeEnd then false
  else (List.range (rangeEnd - rangeBegin)).any fun i => decide (values.getD (rangeBegin + i) 0 ≠ 0)

/-- `plan_has_zero_row_col_proofs`. -/
def planHasZeroRowColProofs (plan : Plan) : Bool :=
  plan.desc.flags.allowProvenZeroRowColSkips && decide (plan.zeroARows.length = plan.desc.m) &&
    decide (plan.zeroBCols.length = plan.desc.n)

/-- `make_tile_schedule_entry`. -/
def makeTileScheduleEntry (plan : Plan) (index requiredPrefix selectedPrefix groupIndex
    rangeBitLength : ℕ) (flags : TileFlags) : TileScheduleEntry :=
  let tileRow := index / plan.scheduleTileCols
  let tileCol := index % plan.scheduleTileCols
  let rowOffset := tileRow * plan.desc.tileM
  let colOffset := tileCol * plan.desc.tileN
  { flags, tileRow, tileCol, rowOffset, colOffset
    rowExtent := min plan.desc.tileM (plan.desc.m - rowOffset)
    colExtent := min plan.desc.tileN (plan.desc.n - colOffset)
    requiredPrefix, selectedPrefix, groupIndex, rangeBitLength }

/-- The flags `configure_plan_schedule` gives the tile of the given index and bound. -/
def tileEntryFlags (plan : Plan) (index bound : ℕ) : TileFlags :=
  let flags : TileFlags :=
    { zeroOutput := plan.desc.flags.allowProvenZeroTileSkips && decide (bound = 0) }
  if planHasZeroRowColProofs plan then
    let rowBegin := index / plan.scheduleTileCols * plan.desc.tileM
    let colBegin := index % plan.scheduleTileCols * plan.desc.tileN
    let rowEnd := min plan.desc.m (rowBegin + plan.desc.tileM)
    let colEnd := min plan.desc.n (colBegin + plan.desc.tileN)
    if maskRangeHasSetValue plan.zeroARows rowBegin rowEnd ||
        maskRangeHasSetValue plan.zeroBCols colBegin colEnd then
      flags.or { zeroRowColProduct := true }
    else flags
  else flags

/-- One pass of the tile loop of `configure_plan_schedule`; the group index is filled in later. -/
def scheduleTile (plan : Plan) (index : ℕ) : Except Status TileScheduleEntry :=
  let bound := plan.tileBounds.getD index 0
  if plan.desc.semantics = .boundedI64 ∧ 2 ^ 63 < bound then .error .invalidArgument
  else
    let range := boundedRangeFromBound plan.desc.semantics bound
    let requiredPrefix := requiredPrefixForRange range
    if requiredPrefix = 0 ∨ plan.rnsPrefix < requiredPrefix then .error .rangeError
    else
      let selectedPrefix := if plan.desc.flags.forceFixedPrefix then plan.rnsPrefix else requiredPrefix
      .ok (makeTileScheduleEntry plan index requiredPrefix selectedPrefix 0 (bitLength range)
        (tileEntryFlags plan index bound))

/-- The tile loop of `configure_plan_schedule` over the first `count` tiles. -/
def scheduleTiles (plan : Plan) : ℕ → Except Status (List TileScheduleEntry)
  | 0 => .ok []
  | count + 1 =>
    match scheduleTiles plan count with
    | .error status => .error status
    | .ok entries =>
      match scheduleTile plan count with
      | .error status => .error status
      | .ok entry => .ok (entries ++ [entry])

/-- `groups`: the selected prefixes that occur, each once. -/
def prefixGroups (entries : List TileScheduleEntry) : List ℕ :=
  (entries.map (·.selectedPrefix)).dedup

/-- `std::lower_bound` in the sorted `groups`: how many groups lie below the prefix. -/
def groupIndexOf (groups : List ℕ) (selectedPrefix : ℕ) : ℕ := groups.countP (· < selectedPrefix)

/-- The least element of a list, `0` for the empty one. -/
def listMin : List ℕ → ℕ
  | [] => 0
  | a :: l => l.foldl min a

/-- The greatest element of a list, `0` for the empty one. -/
def listMax (l : List ℕ) : ℕ := l.foldl max 0

/-- The row and column mask part of `configure_plan_schedule`. -/
def configureZeroMasks (plan : Plan) : Except Status Plan :=
  if plan.desc.flags.allowProvenZeroRowColSkips then
    match plan.desc.zeroARows, plan.desc.zeroBCols with
    | some aRows, some bCols =>
      if plan.desc.m = 0 ∨ plan.desc.n = 0 ∨ plan.desc.zeroARowsCount ≠ plan.desc.m ∨
          plan.desc.zeroBColsCount ≠ plan.desc.n then .error .invalidArgument
      else if sizeMax < plan.desc.m ∨ sizeMax < plan.desc.n then .error .rangeError
      else
        let zeroARows := (List.range plan.desc.zeroARowsCount).map aRows
        let zeroBCols := (List.range plan.desc.zeroBColsCount).map bCols
        let zeroARowCount := countSetMaskValues zeroARows
        let zeroBColCount := countSetMaskValues zeroBCols
        let nonzeroARows := plan.desc.m - zeroARowCount
        if zeroARowCount ≠ 0 ∧ sizeMax / zeroARowCount < plan.desc.n then .error .rangeError
        else if zeroBColCount ≠ 0 ∧ sizeMax / zeroBColCount < nonzeroARows then .error .rangeError
        else .ok
          { plan with
            zeroARows, zeroBCols, zeroARowCount, zeroBColCount
            zeroRowColProductCount := zeroARowCount * plan.desc.n + nonzeroARows * zeroBColCount
            desc := { plan.desc with
              zeroARows := none
              zeroBCols := none
              zeroARowsCount := zeroARows.length
              zeroBColsCount := zeroBCols.length } }
    | _, _ => .error .invalidArgument
  else .ok
    { plan with
      zeroARows := []
      zeroBCols := []
      zeroARowCount := 0
      zeroBColCount := 0
      zeroRowColProductCount := 0
      desc := { plan.desc with
        zeroARows := none
        zeroBCols := none
        zeroARowsCount := 0
        zeroBColsCount := 0 } }

/-- The schedule fields that the tile loop of `configure_plan_schedule` leaves behind. -/
def fillTileSchedule (plan : Plan) (entries : List TileScheduleEntry) : Plan :=
  let groups := prefixGroups entries
  { plan with
    tileSchedule := entries.map fun entry =>
      { entry with groupIndex := groupIndexOf groups entry.selectedPrefix }
    scheduleMinRequiredPrefix := listMin (entries.map (·.requiredPrefix))
    scheduleMaxRequiredPrefix := listMax (entries.map (·.requiredPrefix))
    scheduleMinSelectedPrefix := listMin (entries.map (·.selectedPrefix))
    scheduleMaxSelectedPrefix := listMax (entries.map (·.selectedPrefix))
    schedulePrefixGroupCount := groups.length
    scheduleRangeBitLength := listMax (entries.map (·.rangeBitLength))
    scheduleFlags := (entries.map (·.flags)).foldl TileFlags.or {}
    scheduleAdaptivePrefixActive := decide (1 < groups.length)
    scheduleAdaptiveSkipActive :=
      decide (listMax (entries.map (·.selectedPrefix)) < plan.rnsPrefix) }

/-- The schedule selects the whole prefix in every tile and skips nothing. -/
def tileScheduleRedundant (plan : Plan) : Bool :=
  decide (plan.schedulePrefixGroupCount = 1) &&
    decide (plan.scheduleMinRequiredPrefix = plan.rnsPrefix) &&
    decide (plan.scheduleMaxRequiredPrefix = plan.rnsPrefix) &&
    decide (plan.scheduleMinSelectedPrefix = plan.rnsPrefix) &&
    decide (plan.scheduleMaxSelectedPrefix = plan.rnsPrefix) &&
    !plan.scheduleAdaptivePrefixActive && !plan.scheduleAdaptiveSkipActive &&
    decide (plan.scheduleFlags = ({} : TileFlags))

/-- The per-tile part of `configure_plan_schedule`. -/
def configureTileSchedule (plan : Plan) : Except Status Plan :=
  match plan.desc.tileBounds with
  | none => .error .invalidArgument
  | some bounds =>
    if plan.desc.tileBoundsCount ≠ plan.scheduleTileCount then .error .invalidArgument
    else
      let plan : Plan := { plan with
        tileBounds := (List.range plan.desc.tileBoundsCount).map bounds
        desc := { plan.desc with tileBounds := none } }
      match scheduleTiles plan plan.scheduleTileCount with
      | .error status => .error status
      | .ok entries =>
        let plan := fillTileSchedule plan entries
        .ok (if tileScheduleRedundant plan then { plan with tileSchedule := [] } else plan)

/-- `configure_plan_schedule`. -/
def configurePlanSchedule (plan : Plan) : Except Status Plan :=
  let tileM := if plan.desc.tileM = 0 then 128 else plan.desc.tileM
  let tileN := if plan.desc.tileN = 0 then 128 else plan.desc.tileN
  let tileRows := ceilDiv plan.desc.m tileM
  let tileCols := ceilDiv plan.desc.n tileN
  if tileCols ≠ 0 ∧ sizeMax / tileCols < tileRows then .error .rangeError
  else
    match configureZeroMasks { plan with
        scheduleTileRows := tileRows
        scheduleTileCols := tileCols
        scheduleTileCount := tileRows * tileCols
        tileBounds := []
        tileSchedule := []
        scheduleFlags := {} } with
    | .error status => .error status
    | .ok plan =>
      let requiredRange := scheduleRequiredRange plan.desc
      let plan := { plan with scheduleRangeBitLength := bitLength requiredRange }
      if plan.desc.semantics = .wrapU64Mod2_64 ∨ usesFiniteStorage plan.desc.semantics = true then
        .ok { plan with
          scheduleMinRequiredPrefix := 0
          scheduleMaxRequiredPrefix := 0
          scheduleMinSelectedPrefix := 0
          scheduleMaxSelectedPrefix := 0
          schedulePrefixGroupCount := 0
          scheduleAdaptivePrefixActive := false
          scheduleAdaptiveSkipActive := false }
      else if isPerTileBoundKind plan.desc.boundKind then
        if sizeMax < plan.scheduleTileCount then .error .rangeError else configureTileSchedule plan
      else
        let requiredPrefix := requiredPrefixForRange requiredRange
        if requiredPrefix = 0 ∨ plan.rnsPrefix < requiredPrefix then .error .rangeError
        else
          let selectedPrefix :=
            if plan.desc.flags.forceFixedPrefix then plan.rnsPrefix else requiredPrefix
          .ok { plan with
            rnsPrefix := selectedPrefix
            modulusProduct := modulusProduct selectedPrefix
            scheduleMinRequiredPrefix := requiredPrefix
            scheduleMaxRequiredPrefix := requiredPrefix
            scheduleMinSelectedPrefix := selectedPrefix
            scheduleMaxSelectedPrefix := selectedPrefix
            schedulePrefixGroupCount := 1
            scheduleAdaptivePrefixActive := false
            scheduleAdaptiveSkipActive := decide (selectedPrefix < plan.rnsPrefix) }

/-- `backend_supports_semantics`, in a build with every accelerator compiled in. -/
def backendSupportsSemantics (backend : BackendKind) (semantics : Semantics) : Bool :=
  match backend with
  | .cpuReference | .hipblaslt | .rocwmma | .amdgpuBuiltins =>
    usesRnsStorage semantics || usesFiniteStorage semantics
  | .hipDirect =>
    usesRnsStorage semantics || usesFiniteStorage semantics || semantics == .wrapU64Mod2_64
  | .hipVectorAluInt64 => semantics == .boundedI64 || semantics == .boundedU64
  | .wrap64ByteLimb => semantics == .wrapU64Mod2_64
  | .ck => semantics != .boundedU64 && (usesRnsStorage semantics || usesFiniteStorage semantics)
  | .auto => false

/-- `static_byte_modulus_supported`: the finite moduli with a compiled accelerator kernel. -/
def staticByteModulusSupported (modulus : ℕ) : Bool :=
  decide (modulus ∈ [256, 255, 253, 251, 247, 243, 241, 239, 233, 229, 227, 223, 217, 211, 199, 197,
    193, 191, 181, 179, 173, 167, 163, 157, 151, 149, 139, 137, 131, 127])

/-- The backend has no kernel for the descriptor, although it supports the semantics: a finite
modulus outside the static table, or per-tile bounds on hipBLASLt. -/
def backendLacksKernel (backend : BackendKind) (desc : GemmDesc) : Bool :=
  (decide (backend ∈ [.ck, .rocwmma, .amdgpuBuiltins]) && usesFiniteStorage desc.semantics &&
      !staticByteModulusSupported desc.finiteModulus) ||
    (decide (backend = .hipblaslt) && isPerTileBoundKind desc.boundKind)

/-- `effective_backend`. -/
def effectiveBackend (requested defaultBackend : BackendKind) : BackendKind :=
  if requested = .auto then defaultBackend else requested

/-- The prefix budget that a plan or matrix descriptor asks for. -/
def requestedPrefix (semantics : Semantics) (maxPrefix : ℕ) : ℕ :=
  if maxPrefix = 0 then defaultPrefixForSemantics semantics else maxPrefix

/-- The plan that `rns8_create_plan` starts its schedule from, with the defaults filled in. -/
def initialPlan (desc : GemmDesc) (rnsPrefix bound : ℕ) (backend : BackendKind) : Plan where
  desc := { desc with
    maxPrefix := rnsPrefix
    tileM := if desc.tileM = 0 then 128 else desc.tileM
    tileN := if desc.tileN = 0 then 128 else desc.tileN
    bound }
  rnsPrefix
  modulusProduct := if rnsPrefix = 0 then 0 else modulusProduct rnsPrefix
  backend

/-- `rns8_create_plan`, up to the choice of a backend from the autotune cache
(`selectAutoBackend`). -/
def rns8CreatePlan (ctx : Context) (desc : GemmDesc) : Except Status Plan :=
  if !desc.abiOk then .error .invalidArgument
  else
    let rnsPrefix := requestedPrefix desc.semantics desc.maxPrefix
    let validation := validateGemmDesc desc rnsPrefix
    if validation ≠ .success then .error validation
    else
      let requested := effectiveBackend desc.requestedBackend ctx.backend
      if requested ≠ ctx.backend then .error .unsupportedBackend
      else if !backendSupportsSemantics requested desc.semantics then .error .unsupportedBackend
      else if backendLacksKernel requested desc then .error .unsupportedBackend
      else
        let bound? :=
          if desc.boundKind = .inputRangeAndK then inputRangeOutputBound desc else some desc.bound
        match bound? with
        | none => .error .rangeError
        | some bound => configurePlanSchedule (initialPlan desc rnsPrefix bound requested)

section AutoBackend

variable {τ : Type} [LT τ] [DecidableLT τ]

/-- The candidate loop of `select_auto_backend_from_reviewed_cache`: the backend with the smallest
measured time among those with a validated cache entry, the first one of equals. -/
def bestCandidate (hit : BackendKind → Option τ) :
    List BackendKind → Option (BackendKind × τ) → Option (BackendKind × τ)
  | [], best => best
  | candidate :: rest, best =>
    match hit candidate, best with
    | none, best => bestCandidate hit rest best
    | some time, none => bestCandidate hit rest (some (candidate, time))
    | some time, some best =>
      bestCandidate hit rest (some (if time < best.2 then (candidate, time) else best))

/-- `select_auto_backend_from_reviewed_cache`; `hit` is the measured time of the cache entry found
for the plan on a backend that passed its device probe. -/
def selectAutoBackend (hit : Plan → Option τ) (ctx : Context) (plan : Plan) : Plan :=
  if !ctx.autoBackendSelection || decide (ctx.backend ≠ .hipDirect) ||
      !backendSupportsSemantics ctx.backend plan.desc.semantics then plan
  else
    let candidates := [.hipVectorAluInt64, .hipblaslt, .ck, .rocwmma, .amdgpuBuiltins].filter
      fun candidate => backendSupportsSemantics candidate plan.desc.semantics &&
        !backendLacksKernel candidate plan.desc
    match bestCandidate (fun backend => hit { plan with backend }) candidates none with
    | none => plan
    | some best => { plan with backend := best.1 }

/-- `rns8_create_plan` with an autotune cache, which is read for a plan of the `AUTO` backend. -/
def rns8CreatePlanAuto (hit : Plan → Option τ) (ctx : Context) (desc : GemmDesc) :
    Except Status Plan :=
  match rns8CreatePlan ctx desc with
  | .error status => .error status
  | .ok plan =>
    .ok (if desc.requestedBackend = .auto then selectAutoBackend hit ctx plan else plan)

end AutoBackend

/-! ### The tile of a cell -/

/-- `tile_index_for_cell`. -/
def tileIndexForCell (plan : Plan) (row col : ℕ) : ℕ :=
  row / plan.desc.tileM * plan.scheduleTileCols + col / plan.desc.tileN

/-- `tile_schedule_entry_for_cell`. -/
def tileScheduleEntryForCell (plan : Plan) (row col : ℕ) : Option TileScheduleEntry :=
  plan.tileSchedule[tileIndexForCell plan row col]?

/-- `selected_prefix_for_cell`. -/
def selectedPrefixForCell (plan : Plan) (row col : ℕ) : ℕ :=
  match tileScheduleEntryForCell plan row col with
  | some entry => entry.selectedPrefix
  | none => plan.rnsPrefix

/-- `bound_for_cell`. -/
def boundForCell (plan : Plan) (row col : ℕ) : ℕ :=
  plan.tileBounds.getD (tileIndexForCell plan row col) plan.desc.bound

/-- `plan_all_zero_output_tiles`. -/
def planAllZeroOutputTiles (plan : Plan) : Bool :=
  !plan.tileSchedule.isEmpty && plan.tileSchedule.all (·.flags.zeroOutput)

/-! ### The plan contract -/

/-- `zero_row_col_contract_matches`. -/
def zeroRowColContractMatches (plan : Plan) : Bool :=
  if !plan.desc.flags.allowProvenZeroRowColSkips then
    plan.desc.zeroARows.isNone && decide (plan.desc.zeroARowsCount = 0) &&
      plan.desc.zeroBCols.isNone && decide (plan.desc.zeroBColsCount = 0) &&
      plan.zeroARows.isEmpty && plan.zeroBCols.isEmpty && decide (plan.zeroARowCount = 0) &&
      decide (plan.zeroBColCount = 0) && decide (plan.zeroRowColProductCount = 0)
  else
    let zeroARows := countSetMaskValues plan.zeroARows
    let zeroBCols := countSetMaskValues plan.zeroBCols
    let nonzeroARows := plan.desc.m - zeroARows
    isPerTileBoundKind plan.desc.boundKind && plan.desc.zeroARows.isNone &&
      plan.desc.zeroBCols.isNone && decide (plan.desc.zeroARowsCount = plan.zeroARows.length) &&
      decide (plan.desc.zeroBColsCount = plan.zeroBCols.length) &&
      decide (plan.zeroARows.length = plan.desc.m) && decide (plan.zeroBCols.length = plan.desc.n) &&
      plan.zeroARows.all (· ≤ 1) && plan.zeroBCols.all (· ≤ 1) &&
      !(decide (zeroARows ≠ 0) && decide (sizeMax / zeroARows < plan.desc.n)) &&
      !(decide (zeroBCols ≠ 0) && decide (sizeMax / zeroBCols < nonzeroARows)) &&
      decide (plan.zeroARowCount = zeroARows) && decide (plan.zeroBColCount = zeroBCols) &&
      decide (plan.zeroRowColProductCount = zeroARows * plan.desc.n + nonzeroARows * zeroBCols)

/-- The contract of a plan whose semantics has no residue ladder (wrap and finite plans). -/
def unladderedContractMatches (plan : Plan) : Bool :=
  decide (plan.desc.boundKind = .none) && decide (plan.desc.bound = 0) &&
    decide (plan.rnsPrefix = 0) && decide (plan.desc.maxPrefix = 0) &&
    decide (plan.modulusProduct = 0) && plan.tileBounds.isEmpty && plan.tileSchedule.isEmpty &&
    plan.desc.tileBounds.isNone && decide (plan.desc.tileBoundsCount = 0) &&
    decide (plan.scheduleMinRequiredPrefix = 0) && decide (plan.scheduleMaxRequiredPrefix = 0) &&
    decide (plan.scheduleMinSelectedPrefix = 0) && decide (plan.scheduleMaxSelectedPrefix = 0) &&
    decide (plan.schedulePrefixGroupCount = 0) && decide (plan.scheduleRangeBitLength = 0) &&
    !plan.scheduleAdaptivePrefixActive && !plan.scheduleAdaptiveSkipActive &&
    decide (plan.desc.flags = ({} : PlanFlags)) && decide (plan.scheduleFlags = ({} : TileFlags)) &&
    decide (plan.desc.lhsBound = 0) && decide (plan.desc.rhsBound = 0)

/-- The part of the contract shared by every plan with a residue ladder. -/
def ladderContractMatches (plan : Plan) : Bool :=
  usesRnsStorage plan.desc.semantics && decide (0 < plan.rnsPrefix) &&
    decide (plan.rnsPrefix ≤ maxSupportedPrefix) && decide (0 < plan.desc.maxPrefix) &&
    decide (plan.desc.maxPrefix ≤ maxSupportedPrefix) &&
    decide (plan.rnsPrefix ≤ plan.desc.maxPrefix) &&
    decide (plan.modulusProduct = modulusProduct plan.rnsPrefix) &&
    !(exactWideSemantics plan.desc.semantics &&
      (decide (plan.desc.boundKind ≠ .none) || decide (plan.desc.bound ≠ 0) ||
        plan.desc.tileBounds.isSome || decide (plan.desc.tileBoundsCount ≠ 0) ||
        decide (plan.desc.lhsBound ≠ 0) || decide (plan.desc.rhsBound ≠ 0) ||
        plan.desc.flags.allowProvenZeroRowColSkips)) &&
    !(decide (plan.desc.semantics = .boundedI64) &&
      decide (plan.desc.boundKind ∉ [.globalMaxAbs, .perTileMaxAbs, .inputRangeAndK])) &&
    !(decide (plan.desc.semantics = .boundedU64) &&
      decide (plan.desc.boundKind ∉ [.globalMaxUnsigned, .perTileMaxUnsigned, .inputRangeAndK])) &&
    !(!isInputRangeBoundKind plan.desc.boundKind &&
      (decide (plan.desc.lhsBound ≠ 0) || decide (plan.desc.rhsBound ≠ 0))) &&
    !(isInputRangeBoundKind plan.desc.boundKind &&
      decide (inputRangeOutputBound plan.desc ≠ some plan.desc.bound))

/-- The contract of a plan with one bound for the whole output. -/
def globalContractMatches (plan : Plan) : Bool :=
  plan.desc.tileBounds.isNone && decide (plan.desc.tileBoundsCount = 0) && plan.tileBounds.isEmpty &&
    plan.tileSchedule.isEmpty && decide (0 < plan.scheduleMinRequiredPrefix) &&
    decide (plan.scheduleMaxRequiredPrefix = plan.scheduleMinRequiredPrefix) &&
    decide (plan.scheduleMinSelectedPrefix = plan.rnsPrefix) &&
    decide (plan.scheduleMaxSelectedPrefix = plan.rnsPrefix) &&
    decide (plan.schedulePrefixGroupCount = 1) && !plan.scheduleAdaptivePrefixActive &&
    decide (plan.scheduleMaxRequiredPrefix ≤ plan.rnsPrefix) &&
    decide (plan.scheduleAdaptiveSkipActive = decide (plan.rnsPrefix < plan.desc.maxPrefix)) &&
    (!plan.desc.flags.forceFixedPrefix || decide (plan.rnsPrefix = plan.desc.maxPrefix)) &&
    !plan.desc.flags.allowProvenZeroTileSkips && !plan.desc.flags.allowProvenZeroRowColSkips &&
    decide (plan.scheduleFlags = ({} : TileFlags))

/-- The flags the contract check expects of the tile of the given index. -/
def expectedTileFlags (plan : Plan) (entry : TileScheduleEntry) (tileBound : ℕ) : TileFlags :=
  let flags : TileFlags :=
    { zeroOutput := plan.desc.flags.allowProvenZeroTileSkips && decide (tileBound = 0) }
  if plan.desc.flags.allowProvenZeroRowColSkips &&
      (maskRangeHasSetValue plan.zeroARows entry.rowOffset (entry.rowOffset + entry.rowExtent) ||
        maskRangeHasSetValue plan.zeroBCols entry.colOffset (entry.colOffset + entry.colExtent)) then
    flags.or { zeroRowColProduct := true }
  else flags

/-- The contract of one schedule entry. -/
def tileEntryContractMatches (plan : Plan) (index : ℕ) (entry : TileScheduleEntry) : Bool :=
  let tileBound := plan.tileBounds.getD index 0
  decide (entry.tileRow = index / plan.scheduleTileCols) &&
    decide (entry.tileCol = index % plan.scheduleTileCols) &&
    decide (0 < entry.rowExtent) && decide (0 < entry.colExtent) &&
    decide (entry.rowOffset < plan.desc.m) && decide (entry.colOffset < plan.desc.n) &&
    decide (entry.rowExtent ≤ plan.desc.m - entry.rowOffset) &&
    decide (entry.colExtent ≤ plan.desc.n - entry.colOffset) &&
    decide (0 < entry.requiredPrefix) && decide (0 < entry.selectedPrefix) &&
    decide (entry.requiredPrefix ≤ entry.selectedPrefix) &&
    decide (entry.selectedPrefix ≤ plan.rnsPrefix) &&
    decide (entry.groupIndex < plan.schedulePrefixGroupCount) &&
    decide (entry.flags = expectedTileFlags plan entry tileBound) &&
    !(entry.flags.zeroOutput && (decide (tileBound ≠ 0) || decide (entry.rangeBitLength ≠ 0)))

/-- The contract of a plan with per-tile bounds. -/
def perTileContractMatches (plan : Plan) : Bool :=
  decide (plan.desc.bound = 0) && decide (plan.desc.tileBoundsCount = plan.tileBounds.length) &&
    decide (plan.desc.tileBoundsCount = plan.scheduleTileCount) && plan.desc.tileBounds.isNone &&
    decide (0 < plan.schedulePrefixGroupCount) && decide (0 < plan.scheduleMinRequiredPrefix) &&
    decide (0 < plan.scheduleMinSelectedPrefix) &&
    decide (plan.scheduleMaxRequiredPrefix ≤ plan.rnsPrefix) &&
    decide (plan.scheduleMaxSelectedPrefix ≤ plan.rnsPrefix) &&
    decide (plan.scheduleMinRequiredPrefix ≤ plan.scheduleMaxRequiredPrefix) &&
    decide (plan.scheduleMinSelectedPrefix ≤ plan.scheduleMaxSelectedPrefix) &&
    (if plan.tileSchedule.isEmpty then tileScheduleRedundant plan
    else
      decide (plan.tileSchedule.length = plan.tileBounds.length) &&
        plan.tileSchedule.zipIdx.all (fun e => tileEntryContractMatches plan e.2 e.1) &&
        decide ((plan.tileSchedule.map (·.flags)).foldl TileFlags.or {} = plan.scheduleFlags))

/-- The schedule half of `plan_schedule_contract_matches`. The other half compares the reported
backend metadata (`backendMetadataMatches`); `planContractMatches` is the whole check. -/
def planScheduleContractMatches (plan : Plan) : Bool :=
  let expectedTileRows := ceilDiv plan.desc.m plan.desc.tileM
  let expectedTileCols := ceilDiv plan.desc.n plan.desc.tileN
  backendSupportsSemantics plan.backend plan.desc.semantics &&
    configuredTileSizeValid plan.desc.tileM && configuredTileSizeValid plan.desc.tileN &&
    !plan.desc.flags.reserved && zeroRowColContractMatches plan &&
    decide (plan.scheduleTileRows = expectedTileRows) &&
    decide (plan.scheduleTileCols = expectedTileCols) &&
    !(decide (expectedTileCols ≠ 0) && decide (sizeMax / expectedTileCols < expectedTileRows)) &&
    decide (plan.scheduleTileCount = expectedTileRows * expectedTileCols) &&
    decide (0 < plan.scheduleTileCount) &&
    (if plan.desc.semantics = .wrapU64Mod2_64 ∨ usesFiniteStorage plan.desc.semantics = true then
      unladderedContractMatches plan
    else
      ladderContractMatches plan &&
        (if isPerTileBoundKind plan.desc.boundKind then perTileContractMatches plan
        else globalContractMatches plan))

end Rns8
