import Rns8.Lib.BumpArena
import Rns8.Api.Workspace

/-!
# The device arena of a workspace

`rns8_create_workspace` for the direct HIP backend in full: the active-prefix schedule, the byte
counts of the five regions, the two passes that cut the arena, and the uploads. A device pointer is
its offset in the arena, `none` the null pointer; sizes are `size_t` words of 64 bits. The workspace
of `Rns8.Api.Workspace` is what remains of it when the arena is forgotten
(`createDeviceWorkspace_toWorkspace`).
-/

namespace Rns8

/-! ### The active-prefix schedule -/

/-- The active entries of all planes with the bookkeeping of every plane. -/
structure ActiveSchedule where
  entries : List TileScheduleEntry := []
  offsets : ℕ → ℕ := fun _ => 0
  counts : ℕ → ℕ := fun _ => 0
  prefixCount : ℕ := 0

/-- One turn of the plane loop of `build_active_prefix_tile_schedule`. -/
def activeScheduleStep (plan : Plan) (s : ActiveSchedule) (p : ℕ) : ActiveSchedule :=
  let entries := s.entries ++ activePrefixEntries plan p
  { s with
    entries
    offsets := Function.update s.offsets p s.entries.length
    counts := Function.update s.counts p (entries.length - s.entries.length) }

/-- `build_active_prefix_tile_schedule`, with the lists it fills. -/
def fillActiveSchedule (plan : Plan) : Option ActiveSchedule :=
  if plan.tileSchedule = [] ∨ plan.scheduleMaxSelectedPrefix = 0 ∨
      maxSupportedPrefix < plan.scheduleMaxSelectedPrefix then none
  else some ((List.range plan.scheduleMaxSelectedPrefix).foldl (activeScheduleStep plan)
    { prefixCount := plan.scheduleMaxSelectedPrefix })

/-- The slice of the entries that belongs to one plane. -/
def ActiveSchedule.plane (s : ActiveSchedule) (p : ℕ) : List TileScheduleEntry :=
  (s.entries.drop (s.offsets p)).take (s.counts p)

/-- `workspace_required_bytes_for_plan` for the direct HIP backend; saturates at the largest word. -/
def workspaceRequiredBytesForPlan (plan : Plan) : ℕ :=
  if plan.backend ≠ .hipDirect ∨ plan.tileSchedule = [] then 0
  else
    let active := (plan.tileSchedule.filter fun entry => !entry.flags.zeroOutput).foldl
      (fun (count : Option ℕ) entry => count.bind fun c =>
        if sizeMax - c < entry.selectedPrefix then none else some (c + entry.selectedPrefix)) (some 0)
    match active with
    | none => sizeMax
    | some active =>
      let scheduleEntries :=
        if hipDirectGemmRequiresDeviceTileSchedule plan then plan.tileSchedule.length else 0
      if sizeMax - active < scheduleEntries then sizeMax
      else if sizeMax / tileScheduleEntryBytes < scheduleEntries + active then sizeMax
      else (scheduleEntries + active) * tileScheduleEntryBytes

/-! ### The arena -/

/-- A pointer into the arena with the size that belongs to it. -/
structure ArenaRegion where
  pointer : Option ℕ := none
  bytes : ℕ := 0
  deriving DecidableEq, Repr

/-- The fields of a workspace that the direct HIP backend fills. -/
structure HipArena where
  arenaBytes : ℕ := 0
  suballocationCount : ℕ := 0
  zeroARows : ArenaRegion := {}
  zeroBCols : ArenaRegion := {}
  tileSchedule : ArenaRegion := {}
  tileScheduleCount : ℕ := 0
  activeEntries : ArenaRegion := {}
  activeEntriesCount : ℕ := 0
  scratch : ArenaRegion := {}
  active : ActiveSchedule := {}

/-- The regions of the arena in the order in which they are reserved. -/
def HipArena.all (a : HipArena) : List ArenaRegion :=
  [a.zeroARows, a.zeroBCols, a.tileSchedule, a.activeEntries, a.scratch]

/-- A workspace with its device arena. -/
structure DeviceWorkspace where
  identity : WorkspaceIdentity
  contract : ScheduleContract
  arena : HipArena

/-- The sizes that the rest of the library reads from the arena. -/
def HipArena.resources (a : HipArena) : WorkspaceResources where
  zeroARowsBytes := a.zeroARows.bytes
  zeroBColsBytes := a.zeroBCols.bytes
  tileScheduleCount := a.tileScheduleCount
  activeSchedule := (List.range a.active.prefixCount).map a.active.plane

/-- The workspace without the layout of its arena. -/
def DeviceWorkspace.toWorkspace (w : DeviceWorkspace) : Workspace :=
  ⟨w.identity, w.contract, w.arena.resources⟩

/-- The alignment of the arena. -/
def arenaAlignment : ℕ := 256

/-- The words of `size_t`. -/
def sizeWords : ℕ := 2 ^ 64

/-- The bytes of the vectors that a plan owns. -/
def Plan.vectorBytes (plan : Plan) : ℕ :=
  8 * plan.tileBounds.length + tileScheduleEntryBytes * plan.tileSchedule.length +
    plan.zeroARows.length + plan.zeroBCols.length

/-- The active entries of a plan; empty without a schedule. The vector grows beside those of the
plan: when they do not fit into the address space together, `push_back` throws and `guard_api`
returns `RNS8_INTERNAL_ERROR`. -/
def createActiveSchedule (plan : Plan) : Except Status ActiveSchedule :=
  if plan.tileSchedule = [] then .ok {}
  else if sizeMax / tileScheduleEntryBytes < plan.tileSchedule.length then .error .rangeError
  else match fillActiveSchedule plan with
    | none => .error .invalidArgument
    | some active =>
      if sizeWords < plan.vectorBytes + tileScheduleEntryBytes * active.entries.length then
        .error .internalError
      else if sizeMax / tileScheduleEntryBytes < active.entries.length then .error .rangeError
      else .ok active

/-- The sizes of the four uploads: the two masks, the schedule and the active entries. -/
def explicitWorkspaceRegions (plan : Plan) (active : ActiveSchedule) : List ℕ :=
  let masks := plan.desc.flags.allowProvenZeroRowColSkips
  [if masks then plan.zeroARows.length else 0, if masks then plan.zeroBCols.length else 0,
    if !plan.tileSchedule.isEmpty && hipDirectGemmRequiresDeviceTileSchedule plan then
      plan.tileSchedule.length * tileScheduleEntryBytes % sizeWords else 0,
    active.entries.length * tileScheduleEntryBytes % sizeWords]

/-- `count_explicit_workspace_region` over all the uploads. -/
def countExplicitWorkspaceRegions (regions : List ℕ) : Option ℕ :=
  regions.foldl (fun total bytes => total.bind fun t =>
    if sizeMax - bytes < t then none else some (t + bytes)) (some 0)

/-- The device calls of workspace creation: what the allocation and each copy return. -/
structure DeviceCalls where
  allocate : ℕ → Status
  copy : ℕ → Status

/-- The first failure among the copies of the regions that hold something. -/
def uploadRegions (device : DeviceCalls) (regions : List ℕ) : Status :=
  (regions.zipIdx.foldl (fun status r =>
    if status = .success ∧ r.1 ≠ 0 then device.copy r.2 else status) Status.success)

/-- The direct HIP part of `rns8_create_workspace`. -/
def createHipArena (device : DeviceCalls) (plan : Plan) : Except Status HipArena :=
  match createActiveSchedule plan with
  | .error status => .error status
  | .ok active =>
    let explicit := explicitWorkspaceRegions plan active
    match countExplicitWorkspaceRegions explicit with
    | none => .error .rangeError
    | some explicitBytes =>
      let declared := workspaceRequiredBytesForPlan plan
      let scratch := if explicitBytes < declared then declared - explicitBytes else 0
      let sizes := explicit ++ [scratch]
      match BumpArena.reserve sizeWords arenaAlignment 0 sizes with
      | none => .error .rangeError
      | some arenaBytes =>
        if arenaBytes = 0 then .ok { active }
        else if device.allocate arenaBytes ≠ .success then .error (device.allocate arenaBytes)
        else
          let pointers := BumpArena.assign sizeWords arenaAlignment 0 sizes
          let region (i : ℕ) : ArenaRegion := ⟨pointers.getD i none, sizes.getD i 0⟩
          if uploadRegions device explicit ≠ .success then .error (uploadRegions device explicit)
          else .ok {
            arenaBytes
            suballocationCount := BumpArena.reservedCount sizes
            zeroARows := region 0
            zeroBCols := region 1
            tileSchedule := region 2
            tileScheduleCount := if sizes.getD 2 0 = 0 then 0 else plan.tileSchedule.length
            activeEntries := region 3
            activeEntriesCount := active.entries.length
            scratch := region 4
            active }

/-- `rns8_create_workspace` with its device calls, for the backends without buffers of their own. -/
def createDeviceWorkspace (device : DeviceCalls) (ctx : Context) (plan : Plan) :
    Except Status DeviceWorkspace :=
  if !planScheduleContractMatches plan then .error .invalidArgument
  else if !contextAcceptsBackend ctx plan.backend then .error .invalidArgument
  else if plan.backend = .hipDirect then
    match createHipArena device plan with
    | .error status => .error status
    | .ok arena => .ok ⟨workspaceIdentity ctx plan, scheduleContract plan, arena⟩
  else if plan.backend = .hipblaslt ∧ ctx.hipblasltHandle = false then .error .unsupportedBackend
  else .ok ⟨workspaceIdentity ctx plan, scheduleContract plan, {}⟩

/-! ### Validation -/

/-- A region has the expected size, and a pointer exactly when the size is not zero. -/
def ArenaRegion.matches (r : ArenaRegion) (expected : ℕ) : Bool :=
  decide (r.bytes = expected) && decide (r.pointer.isNone = decide (expected = 0))

/-- `active_prefix_tile_schedule_workspace_empty`. -/
def activePrefixTileScheduleWorkspaceEmpty (a : HipArena) : Bool :=
  a.activeEntries.matches 0 && decide (a.activeEntriesCount = 0) &&
    decide (a.active.prefixCount = 0) &&
    (List.range maxSupportedPrefix).all fun p =>
      decide (a.active.offsets p = 0) && decide (a.active.counts p = 0)

/-- The number of entries that the validator expects of plane `p`. -/
def expectedActiveCount (plan : Plan) (p : ℕ) : ℕ :=
  plan.tileSchedule.countP fun entry => decide (p < entry.selectedPrefix) && !entry.flags.zeroOutput

/-- `active_prefix_tile_schedule_matches_workspace`. -/
def activePrefixTileScheduleMatchesWorkspace (plan : Plan) (a : HipArena) : Bool :=
  if plan.tileSchedule = [] then activePrefixTileScheduleWorkspaceEmpty a
  else
    let running (p : ℕ) : ℕ := ((List.range p).map (expectedActiveCount plan)).sum
    let total := running plan.scheduleMaxSelectedPrefix
    decide (0 < plan.scheduleMaxSelectedPrefix) &&
      decide (plan.scheduleMaxSelectedPrefix ≤ maxSupportedPrefix) &&
      decide (a.active.prefixCount = plan.scheduleMaxSelectedPrefix) &&
      (List.range plan.scheduleMaxSelectedPrefix).all (fun p =>
        decide (a.active.offsets p = running p) &&
          decide (a.active.counts p = expectedActiveCount plan p)) &&
      ((List.range maxSupportedPrefix).filter (plan.scheduleMaxSelectedPrefix ≤ ·)).all (fun p =>
        decide (a.active.offsets p = 0) && decide (a.active.counts p = 0)) &&
      decide (total ≤ sizeMax / tileScheduleEntryBytes) &&
      a.activeEntries.matches (total * tileScheduleEntryBytes) &&
      decide (a.activeEntriesCount = total)

/-- The direct HIP checks of `validate_plan_context_workspace`. -/
def hipArenaMatches (plan : Plan) (a : HipArena) : Bool :=
  if plan.backend = .hipDirect then
    let masks := plan.desc.flags.allowProvenZeroRowColSkips
    let scheduleBytes :=
      if !plan.tileSchedule.isEmpty && hipDirectGemmRequiresDeviceTileSchedule plan then
        plan.tileSchedule.length * tileScheduleEntryBytes else 0
    a.zeroARows.matches (if masks then plan.desc.m else 0) &&
      a.zeroBCols.matches (if masks then plan.desc.n else 0) &&
      (if plan.tileSchedule = [] then
        a.tileSchedule.matches 0 && decide (a.tileScheduleCount = 0) &&
          activePrefixTileScheduleWorkspaceEmpty a
      else
        decide (plan.tileSchedule.length ≤ sizeMax / tileScheduleEntryBytes) &&
          a.tileSchedule.matches scheduleBytes &&
          decide (a.tileScheduleCount = if scheduleBytes = 0 then 0 else plan.tileSchedule.length) &&
          activePrefixTileScheduleMatchesWorkspace plan a)
  else
    a.tileSchedule.matches 0 && decide (a.tileScheduleCount = 0) &&
      activePrefixTileScheduleWorkspaceEmpty a && a.zeroARows.matches 0 && a.zeroBCols.matches 0

/-- `validate_plan_context_workspace` with the checks of the arena. -/
def validateDeviceWorkspace (ctx : Context) (plan : Plan) (w : DeviceWorkspace) : Status :=
  if !planScheduleContractMatches plan then .invalidArgument
  else if !contextAcceptsBackend ctx plan.backend || decide (w.identity.backend ≠ plan.backend) then
    .invalidArgument
  else if w.identity.semantics ≠ plan.desc.semantics ∨
      w.identity.boundKind ≠ plan.desc.boundKind then .invalidArgument
  else if w.identity.m ≠ plan.desc.m ∨ w.identity.n ≠ plan.desc.n ∨ w.identity.k ≠ plan.desc.k ∨
      w.identity.rnsPrefix ≠ plan.rnsPrefix then .workspaceTooSmall
  else if w.contract ≠ scheduleContract plan then .invalidArgument
  else if hipDeviceBackend plan.backend = true ∧ w.identity.hipDeviceId ≠ ctx.deviceId then
    .invalidArgument
  else if !hipArenaMatches plan w.arena then .invalidArgument
  else .success

/-! ### The active entries -/

section Active

variable {plan : Plan}

/-- The entries of the planes below `q`, one plane after the other. -/
def activeEntriesBelow (plan : Plan) (q : ℕ) : List TileScheduleEntry :=
  (List.range q).flatMap (activePrefixEntries plan)

theorem activeEntriesBelow_succ (plan : Plan) (q : ℕ) :
    activeEntriesBelow plan (q + 1) = activeEntriesBelow plan q ++ activePrefixEntries plan q := by
  simp [activeEntriesBelow, List.range_succ]

theorem length_activePrefixEntries (plan : Plan) (p : ℕ) :
    (activePrefixEntries plan p).length = expectedActiveCount plan p := by
  rw [activePrefixEntries, List.length_map, expectedActiveCount, List.countP_eq_length_filter]

/-- The validator's running offset is the length of the lists before. -/
theorem length_activeEntriesBelow (plan : Plan) (q : ℕ) :
    (activeEntriesBelow plan q).length =
      ((List.range q).map (expectedActiveCount plan)).sum := by
  rw [activeEntriesBelow, List.length_flatMap]
  simp only [length_activePrefixEntries]

/-- The state of the plane loop after the planes below `q`. -/
theorem foldl_activeScheduleStep (plan : Plan) (count q : ℕ) :
    (List.range q).foldl (activeScheduleStep plan) { prefixCount := count } =
      { entries := activeEntriesBelow plan q
        offsets := fun p => if p < q then (activeEntriesBelow plan p).length else 0
        counts := fun p => if p < q then (activePrefixEntries plan p).length else 0
        prefixCount := count } := by
  induction q with
  | zero => rfl
  | succ q ih =>
    rw [List.range_succ, List.foldl_append, ih]
    simp only [List.foldl_cons, List.foldl_nil, activeScheduleStep, activeEntriesBelow_succ,
      List.length_append, Nat.add_sub_cancel_left, ActiveSchedule.mk.injEq, and_true, true_and]
    constructor
    · funext p
      rcases lt_trichotomy p q with h | rfl | h
      · simp [Function.update_of_ne h.ne, h, Nat.lt_succ_of_lt h]
      · simp
      · simp [Function.update_of_ne h.ne', not_lt.2 h.le, Nat.not_lt.2 (Nat.succ_le_of_lt h)]
    · funext p
      rcases lt_trichotomy p q with h | rfl | h
      · simp [Function.update_of_ne h.ne, h, Nat.lt_succ_of_lt h]
      · simp
      · simp [Function.update_of_ne h.ne', not_lt.2 h.le, Nat.not_lt.2 (Nat.succ_le_of_lt h)]

/-- What `build_active_prefix_tile_schedule` fills. -/
structure ActiveSchedule.Lists (plan : Plan) (s : ActiveSchedule) : Prop where
  entries : s.entries = activeEntriesBelow plan s.prefixCount
  offsets : ∀ p, s.offsets p =
    if p < s.prefixCount then (activeEntriesBelow plan p).length else 0
  counts : ∀ p, s.counts p =
    if p < s.prefixCount then (activePrefixEntries plan p).length else 0

theorem fillActiveSchedule_spec {s : ActiveSchedule} (h : fillActiveSchedule plan = some s) :
    s.Lists plan ∧ s.prefixCount = plan.scheduleMaxSelectedPrefix := by
  unfold fillActiveSchedule at h
  split at h
  · cases h
  · rw [foldl_activeScheduleStep] at h
    obtain rfl := Option.some.inj h
    exact ⟨⟨rfl, fun _ => rfl, fun _ => rfl⟩, rfl⟩

theorem lists_empty (plan : Plan) : ActiveSchedule.Lists plan {} :=
  ⟨rfl, fun _ => rfl, fun _ => rfl⟩

/-- **The slice of a plane holds the entries of the plane.** -/
theorem ActiveSchedule.Lists.plane_eq {s : ActiveSchedule} (h : s.Lists plan) {p : ℕ}
    (hp : p < s.prefixCount) : s.plane p = activePrefixEntries plan p := by
  obtain ⟨r, hr⟩ := Nat.exists_eq_add_of_lt hp
  have hsplit : activeEntriesBelow plan s.prefixCount = activeEntriesBelow plan p ++
      (activePrefixEntries plan p ++
        ((List.range r).map fun i => p + 1 + i).flatMap (activePrefixEntries plan)) := by
    rw [hr, show p + r + 1 = (p + 1) + r by omega, activeEntriesBelow, List.range_add,
      List.flatMap_append, ← activeEntriesBelow, activeEntriesBelow_succ, List.append_assoc]
  rw [ActiveSchedule.plane, h.entries, h.offsets, h.counts, if_pos hp, if_pos hp, hsplit,
    List.drop_left, List.take_left]

/-- The pairs of a tile and a plane that the entries list. -/
def ActiveSchedule.pairs (s : ActiveSchedule) : List ((ℕ × ℕ) × ℕ) :=
  s.entries.map fun entry => ((entry.tileRow, entry.tileCol), entry.groupIndex)

theorem mem_activePrefixEntries {p : ℕ} {e : TileScheduleEntry} :
    e ∈ activePrefixEntries plan p ↔ ∃ entry ∈ plan.tileSchedule, p < entry.selectedPrefix ∧
      entry.flags.zeroOutput = false ∧ e = { entry with groupIndex := p } := by
  simp only [activePrefixEntries, List.mem_map, List.mem_filter, Bool.and_eq_true,
    decide_eq_true_eq, Bool.not_eq_true']
  constructor
  · rintro ⟨entry, ⟨he, hsel, hz⟩, rfl⟩
    exact ⟨entry, he, hsel, hz, rfl⟩
  · rintro ⟨entry, he, hsel, hz, rfl⟩
    exact ⟨entry, ⟨he, hsel, hz⟩, rfl⟩

/-- **The schedule lists the active pairs**, and no others. -/
theorem ActiveSchedule.Lists.mem_pairs {s : ActiveSchedule} (h : s.Lists plan)
    (hsel : ∀ entry ∈ plan.tileSchedule, entry.selectedPrefix ≤ s.prefixCount)
    (tile : ℕ × ℕ) (p : ℕ) :
    (tile, p) ∈ s.pairs ↔ ∃ entry ∈ plan.tileSchedule, (entry.tileRow, entry.tileCol) = tile ∧
      p < entry.selectedPrefix ∧ entry.flags.zeroOutput = false := by
  simp only [ActiveSchedule.pairs, h.entries, activeEntriesBelow, List.mem_map, List.mem_flatMap,
    List.mem_range, mem_activePrefixEntries]
  constructor
  · rintro ⟨e, ⟨q, -, entry, he, hq, hz, rfl⟩, heq⟩
    obtain ⟨rfl, rfl⟩ := Prod.mk.inj heq
    exact ⟨entry, he, rfl, hq, hz⟩
  · rintro ⟨entry, he, rfl, hp, hz⟩
    exact ⟨{ entry with groupIndex := p }, ⟨p, hp.trans_le (hsel entry he), entry, he, hp, hz, rfl⟩,
      rfl⟩

/-- **No pair is listed twice** when no tile is. -/
theorem ActiveSchedule.Lists.nodup_pairs {s : ActiveSchedule} (h : s.Lists plan)
    (htiles : (plan.tileSchedule.map fun entry => (entry.tileRow, entry.tileCol)).Nodup) :
    s.pairs.Nodup := by
  rw [ActiveSchedule.pairs, h.entries, activeEntriesBelow, List.map_flatMap, List.nodup_flatMap]
  constructor
  · intro p _
    rw [activePrefixEntries, List.map_map]
    have hsub : (plan.tileSchedule.filter fun entry =>
        decide (p < entry.selectedPrefix) && !entry.flags.zeroOutput).map
          (fun entry => (entry.tileRow, entry.tileCol)) |>.Nodup :=
      htiles.sublist (List.filter_sublist.map _)
    refine List.Nodup.of_map Prod.fst ?_
    simpa only [List.map_map, Function.comp_def] using hsub
  · refine List.nodup_range.imp fun {p q} hne pair hp hq => hne ?_
    obtain ⟨e, he, rfl⟩ := List.mem_map.1 hp
    obtain ⟨e', he', heq⟩ := List.mem_map.1 hq
    obtain ⟨entry, -, -, -, rfl⟩ := mem_activePrefixEntries.1 he
    obtain ⟨entry', -, -, -, rfl⟩ := mem_activePrefixEntries.1 he'
    exact (Prod.mk.inj heq).2.symm

end Active

/-! ### The layout of the arena -/

section Layout

variable {plan : Plan}

/-- A checked running sum that stays in range is the sum. -/
theorem foldl_checkedAdd (l : List ℕ) (c : ℕ) (h : c + l.sum ≤ sizeMax) :
    l.foldl (fun (count : Option ℕ) x => count.bind fun c =>
      if sizeMax - c < x then none else some (c + x)) (some c) = some (c + l.sum) := by
  induction l generalizing c with
  | nil => rfl
  | cons x l ih =>
    rw [List.sum_cons] at h ⊢
    have hx : ¬ sizeMax - c < x := by omega
    rw [List.foldl_cons, Option.bind_some, if_neg hx, ih (c + x) (by omega), Nat.add_assoc]

theorem sum_countP_range (l : List TileScheduleEntry) (q : ℕ) :
    ((List.range q).map fun p => l.countP fun entry =>
      decide (p < entry.selectedPrefix) && !entry.flags.zeroOutput).sum =
      ((l.filter fun entry => !entry.flags.zeroOutput).map fun entry =>
        min entry.selectedPrefix q).sum := by
  induction q with
  | zero => simp
  | succ q ih =>
    rw [List.range_succ, List.map_append, List.sum_append, ih]
    clear ih
    simp only [List.map_cons, List.map_nil, List.sum_singleton]
    induction l with
    | nil => rfl
    | cons entry l ih =>
      rw [List.countP_cons]
      cases hz : entry.flags.zeroOutput
      · by_cases hq : q < entry.selectedPrefix
        · simp only [List.filter_cons, hz, Bool.not_false, if_true, List.map_cons, List.sum_cons,
            hq, decide_true, Bool.and_true] at ih ⊢
          omega
        · simp only [List.filter_cons, hz, Bool.not_false, if_true, List.map_cons, List.sum_cons,
            hq, decide_false, Bool.false_and, Bool.false_eq_true, if_false] at ih ⊢
          omega
      · simpa [List.filter_cons, hz] using ih

/-- The active entries are counted by the selected prefixes of the tiles. -/
theorem length_activeEntriesBelow_eq (q : ℕ)
    (hsel : ∀ entry ∈ plan.tileSchedule, entry.selectedPrefix ≤ q) :
    (activeEntriesBelow plan q).length =
      ((plan.tileSchedule.filter fun entry => !entry.flags.zeroOutput).map
        (·.selectedPrefix)).sum := by
  rw [length_activeEntriesBelow]
  unfold expectedActiveCount
  rw [sum_countP_range]
  refine congrArg List.sum (List.map_congr_left fun entry he => ?_)
  exact min_eq_left (hsel entry (List.mem_of_mem_filter he))

/-- What the plan contract says of the schedule that the arena stores. -/
structure StoredSchedule (plan : Plan) : Prop where
  bounds_length : plan.tileBounds.length = plan.tileSchedule.length
  rows_le : plan.desc.m ≤ 512 * plan.tileSchedule.length
  cols_le : plan.desc.n ≤ 512 * plan.tileSchedule.length
  max_pos : 0 < plan.scheduleMaxSelectedPrefix
  max_le : plan.scheduleMaxSelectedPrefix ≤ maxSupportedPrefix
  tiles : (plan.tileSchedule.map fun entry => (entry.tileRow, entry.tileCol)).Nodup

/-- A side of the output has at most `512` rows or columns for each tile. -/
private theorem side_le {size tile tiles others : ℕ} (hlo : 0 < tile) (hhi : tile ≤ 512)
    (htiles : tiles = ceilDiv size tile) (hothers : 0 < others) :
    size ≤ 512 * (tiles * others) := by
  have hcover : size ≤ tiles * tile := htiles ▸ BumpArena.le_alignUp hlo size
  calc size ≤ tiles * tile := hcover
    _ ≤ tiles * 512 := Nat.mul_le_mul_left _ hhi
    _ ≤ tiles * others * 512 := Nat.mul_le_mul_right _ (Nat.le_mul_of_pos_right _ hothers)
    _ = 512 * (tiles * others) := Nat.mul_comm _ _

/-- The positions of the entries are their indices in the grid. -/
theorem nodup_tiles (h : ∀ i entry, plan.tileSchedule[i]? = some entry →
      entry.tileRow = i / plan.scheduleTileCols ∧ entry.tileCol = i % plan.scheduleTileCols) :
    (plan.tileSchedule.map fun entry => (entry.tileRow, entry.tileCol)).Nodup := by
  refine List.Nodup.of_map (fun t : ℕ × ℕ => plan.scheduleTileCols * t.1 + t.2) ?_
  have hindex : ((plan.tileSchedule.map fun entry => (entry.tileRow, entry.tileCol)).map
      fun t : ℕ × ℕ => plan.scheduleTileCols * t.1 + t.2) = List.range plan.tileSchedule.length := by
    refine List.ext_getElem (by simp) fun i hi _ => ?_
    simp only [List.length_map] at hi
    obtain ⟨hrow, hcol⟩ := h i _ (List.getElem?_eq_getElem hi)
    simp only [List.getElem_map, List.getElem_range, hrow, hcol, Nat.div_add_mod]
  rw [hindex]
  exact List.nodup_range

theorem planScheduleContractMatches_stored (h : planScheduleContractMatches plan = true)
    (hne : plan.tileSchedule ≠ []) : StoredSchedule plan := by
  have hempty : plan.tileSchedule.isEmpty = false := by simpa using hne
  simp only [planScheduleContractMatches, Bool.and_eq_true, decide_eq_true_eq] at h
  obtain ⟨⟨⟨⟨⟨⟨⟨⟨⟨⟨-, htm⟩, htn⟩, -⟩, -⟩, hrows⟩, hcols⟩, -⟩, hcount⟩, hpos⟩, hkind⟩ := h
  simp only [configuredTileSizeValid, Bool.and_eq_true, decide_eq_true_eq] at htm htn
  -- only a plan with tile bounds has entries
  split at hkind
  · simp [unladderedContractMatches, hempty] at hkind
  · obtain ⟨hladder, hsched⟩ := Bool.and_eq_true_iff.1 hkind
    split at hsched
    · simp only [perTileContractMatches, hempty, Bool.false_eq_true, if_false, Bool.and_eq_true,
        decide_eq_true_eq, List.all_eq_true] at hsched
      have hlen : plan.tileSchedule.length = plan.tileBounds.length := by tauto
      have hbounds : plan.desc.tileBoundsCount = plan.tileBounds.length := by tauto
      have htiles : plan.desc.tileBoundsCount = plan.scheduleTileCount := by tauto
      have hmin : 0 < plan.scheduleMinSelectedPrefix := by tauto
      have hle : plan.scheduleMinSelectedPrefix ≤ plan.scheduleMaxSelectedPrefix := by tauto
      have hmax : plan.scheduleMaxSelectedPrefix ≤ plan.rnsPrefix := by tauto
      have hentries : ∀ e ∈ plan.tileSchedule.zipIdx,
          tileEntryContractMatches plan e.2 e.1 = true := by tauto
      have hprefix : plan.rnsPrefix ≤ maxSupportedPrefix := by
        simp only [ladderContractMatches, Bool.and_eq_true, decide_eq_true_eq] at hladder
        tauto
      rw [← hrows, ← hcols] at hcount
      -- the counts of the contract bound the two axes of the grid
      have htotal : plan.tileSchedule.length = plan.scheduleTileRows * plan.scheduleTileCols := by
        omega
      have hcells : 0 < plan.scheduleTileRows * plan.scheduleTileCols := hcount ▸ hpos
      refine ⟨hlen.symm, ?_, ?_, hmin.trans_le hle, hmax.trans hprefix, ?_⟩
      · rw [htotal]
        exact side_le (by omega) htm.1.2 hrows (Nat.pos_of_mul_pos_left hcells)
      · rw [htotal, Nat.mul_comm plan.scheduleTileRows]
        exact side_le (by omega) htn.1.2 hcols (Nat.pos_of_mul_pos_right hcells)
      -- each entry is checked against its own position, so no tile comes twice
      · refine nodup_tiles fun i entry hi => ?_
        have hmem : (entry, i) ∈ plan.tileSchedule.zipIdx := by
          rw [List.mk_mem_zipIdx_iff_getElem?]
          exact hi
        have hentry := hentries _ hmem
        simp only [tileEntryContractMatches, Bool.and_eq_true, decide_eq_true_eq] at hentry
        tauto
    · simp [globalContractMatches, hempty] at hsched

/-- What `createActiveSchedule` guarantees of the vectors in memory. -/
structure ActiveFits (plan : Plan) (active : ActiveSchedule) : Prop where
  lists : active.Lists plan
  prefixCount : active.prefixCount =
    if plan.tileSchedule = [] then 0 else plan.scheduleMaxSelectedPrefix
  memory : plan.tileSchedule ≠ [] →
    plan.vectorBytes + tileScheduleEntryBytes * active.entries.length ≤ sizeWords
  empty : plan.tileSchedule = [] → active.entries = []

theorem createActiveSchedule_fits {active : ActiveSchedule}
    (h : createActiveSchedule plan = .ok active) : ActiveFits plan active := by
  unfold createActiveSchedule at h
  split at h
  · next hnil =>
    obtain rfl := Except.ok.inj h
    exact ⟨lists_empty plan, by rw [if_pos hnil], fun hne => absurd hnil hne, fun _ => rfl⟩
  · next hne =>
    split at h
    · cases h
    · split at h
      · cases h
      · next built hbuilt =>
        split at h
        · cases h
        · next hmem =>
          split at h
          · cases h
          · obtain rfl := Except.ok.inj h
            obtain ⟨hlists, hcount⟩ := fillActiveSchedule_spec hbuilt
            exact ⟨hlists, by rw [if_neg hne, hcount], fun _ => not_lt.1 hmem,
              fun hnil => absurd hnil hne⟩

/-- The sizes of the device copies in unbounded arithmetic. -/
def uploadedBytes (plan : Plan) (active : ActiveSchedule) : List ℕ :=
  let masks := plan.desc.flags.allowProvenZeroRowColSkips
  [if masks then plan.desc.m else 0, if masks then plan.desc.n else 0,
    if hipDirectGemmRequiresDeviceTileSchedule plan then
      plan.tileSchedule.length * tileScheduleEntryBytes else 0,
    active.entries.length * tileScheduleEntryBytes]

theorem hipDirectGemmRequiresDeviceTileSchedule_ne_nil
    (h : hipDirectGemmRequiresDeviceTileSchedule plan = true) : plan.tileSchedule ≠ [] := by
  rintro hnil
  simp [hipDirectGemmRequiresDeviceTileSchedule, hnil] at h

section Sizes

variable {active : ActiveSchedule} (hc : planScheduleContractMatches plan = true)
  (hfit : ActiveFits plan active)
include hc hfit

/-- The vectors in memory bound the copies. -/
theorem memory_le (hne : plan.tileSchedule ≠ []) :
    88 * plan.tileSchedule.length + plan.zeroARows.length + plan.zeroBCols.length +
      80 * active.entries.length ≤ 2 ^ 64 := by
  have hmem := hfit.memory hne
  have hlen := (planScheduleContractMatches_stored hc hne).bounds_length
  simp only [Plan.vectorBytes, tileScheduleEntryBytes, sizeWords] at hmem
  omega

/-- **No size of an upload wraps.** -/
theorem explicitWorkspaceRegions_eq :
    explicitWorkspaceRegions plan active = uploadedBytes plan active := by
  have hmasks : plan.desc.flags.allowProvenZeroRowColSkips = true →
      plan.zeroARows.length = plan.desc.m ∧ plan.zeroBCols.length = plan.desc.n :=
    planScheduleContractMatches_masks hc
  by_cases hne : plan.tileSchedule = []
  · have hno : hipDirectGemmRequiresDeviceTileSchedule plan = false :=
      Bool.not_eq_true _ ▸ fun h => hipDirectGemmRequiresDeviceTileSchedule_ne_nil h hne
    by_cases hm : plan.desc.flags.allowProvenZeroRowColSkips = true
    · simp [explicitWorkspaceRegions, uploadedBytes, hno, hm, hmasks hm, hfit.empty hne]
    · simp [explicitWorkspaceRegions, uploadedBytes, hno, hm, hfit.empty hne]
  · have hmem := memory_le hc hfit hne
    have hempty : plan.tileSchedule.isEmpty = false := by simpa using hne
    have hpos := List.length_pos_of_ne_nil hne
    have h1 : plan.tileSchedule.length * tileScheduleEntryBytes % sizeWords =
        plan.tileSchedule.length * tileScheduleEntryBytes :=
      Nat.mod_eq_of_lt (by simp only [tileScheduleEntryBytes, sizeWords]; omega)
    have h2 : active.entries.length * tileScheduleEntryBytes % sizeWords =
        active.entries.length * tileScheduleEntryBytes :=
      Nat.mod_eq_of_lt (by simp only [tileScheduleEntryBytes, sizeWords]; omega)
    simp only [explicitWorkspaceRegions, uploadedBytes, hempty, h1, h2, Bool.not_false,
      Bool.true_and]
    split
    · next hm => rw [(hmasks hm).1, (hmasks hm).2]
    · rfl

/-- **The uploads take all that the plan declares**, so no scratch region remains. -/
theorem workspaceRequiredBytes_le
    (hsel : ∀ entry ∈ plan.tileSchedule, entry.selectedPrefix ≤ plan.scheduleMaxSelectedPrefix) :
    workspaceRequiredBytesForPlan plan ≤ (uploadedBytes plan active).sum := by
  unfold workspaceRequiredBytesForPlan
  split
  · exact Nat.zero_le _
  · next hb =>
    obtain ⟨-, hne⟩ := not_or.1 hb
    have hmem := memory_le hc hfit hne
    have hcount : active.entries.length =
        ((plan.tileSchedule.filter fun entry => !entry.flags.zeroOutput).map
          (·.selectedPrefix)).sum := by
      rw [hfit.lists.entries, hfit.prefixCount, if_neg hne, length_activeEntriesBelow_eq _ hsel]
    have hfold := foldl_checkedAdd ((plan.tileSchedule.filter fun entry =>
      !entry.flags.zeroOutput).map (·.selectedPrefix)) 0 (by
        rw [← hcount, sizeMax]
        omega)
    rw [List.foldl_map, Nat.zero_add, ← hcount] at hfold
    clear hcount
    simp only [hfold]
    simp only [tileScheduleEntryBytes, sizeMax, uploadedBytes, List.sum_cons, List.sum_nil]
    by_cases hreq : hipDirectGemmRequiresDeviceTileSchedule plan = true
    · simp only [hreq, if_true]
      rw [if_neg (by omega), if_neg (by omega)]
      omega
    · simp only [hreq, Bool.false_eq_true, if_false]
      rw [if_neg (by omega), if_neg (by omega)]
      omega

/-- The sizes of the copies against the vectors in memory. -/
theorem uploadedBytes_bounds (hm : plan.desc.m ≤ int64Max) (hn : plan.desc.n ≤ int64Max) :
    ∃ zeroA zeroB schedule entries, uploadedBytes plan active = [zeroA, zeroB, schedule, entries] ∧
      zeroA ≤ int64Max ∧ zeroB ≤ int64Max ∧ schedule < 2 ^ 64 ∧ entries < 2 ^ 64 ∧
      (schedule ≠ 0 ∨ entries ≠ 0 → zeroA + zeroB + schedule + 1021 < 2 ^ 64) := by
  refine ⟨_, _, _, _, rfl, by split <;> omega, by split <;> omega, ?_⟩
  by_cases hne : plan.tileSchedule = []
  · have hno : hipDirectGemmRequiresDeviceTileSchedule plan = false :=
      Bool.not_eq_true _ ▸ fun h => hipDirectGemmRequiresDeviceTileSchedule_ne_nil h hne
    simp [hno, hfit.empty hne]
  · have hmem := memory_le hc hfit hne
    have hpos := List.length_pos_of_ne_nil hne
    obtain ⟨-, hrows, hcols, -, -, -⟩ := planScheduleContractMatches_stored hc hne
    have hmasks := planScheduleContractMatches_masks hc
    have hzero : (if plan.desc.flags.allowProvenZeroRowColSkips = true then plan.desc.m else 0) +
        (if plan.desc.flags.allowProvenZeroRowColSkips = true then plan.desc.n else 0) ≤
        plan.zeroARows.length + plan.zeroBCols.length := by
      split
      · next h => rw [(hmasks h).1, (hmasks h).2]
      · omega
    have hsides : (if plan.desc.flags.allowProvenZeroRowColSkips = true then plan.desc.m else 0) +
        (if plan.desc.flags.allowProvenZeroRowColSkips = true then plan.desc.n else 0) ≤
        1024 * plan.tileSchedule.length := by
      split <;> omega
    have hsched : (if hipDirectGemmRequiresDeviceTileSchedule plan = true then
        plan.tileSchedule.length * tileScheduleEntryBytes else 0) ≤
        80 * plan.tileSchedule.length := by
      simp only [tileScheduleEntryBytes]
      split <;> omega
    refine ⟨by omega, by simp only [tileScheduleEntryBytes]; omega, fun _ => by omega⟩

/-- **No cursor of the arena comes near the word size.** -/
theorem roomy_uploadedBytes (hm : plan.desc.m ≤ int64Max) (hn : plan.desc.n ≤ int64Max) :
    BumpArena.Roomy sizeWords arenaAlignment 0 (uploadedBytes plan active ++ [0]) := by
  obtain ⟨zeroA, zeroB, schedule, entries, hsizes, hA, hB, -, -, hroom⟩ :=
    uploadedBytes_bounds hc hfit hm hn
  rw [hsizes]
  have h1 := BumpArena.advance_le arenaAlignment 0 zeroA
  have h2 := BumpArena.advance_le arenaAlignment (BumpArena.advance arenaAlignment 0 zeroA) zeroB
  have h3 := BumpArena.advance_le arenaAlignment (BumpArena.advance arenaAlignment
    (BumpArena.advance arenaAlignment 0 zeroA) zeroB) schedule
  simp only [arenaAlignment, int64Max, sizeWords] at *
  refine ⟨fun _ => by omega, fun _ => by omega, fun h => ?_, fun h => ?_, fun h => absurd rfl h,
    trivial⟩
  · have := hroom (Or.inl h)
    omega
  · have := hroom (Or.inr h)
    omega

end Sizes

/-- A counted total is the sum of the regions. -/
theorem countExplicitWorkspaceRegions_sum {regions : List ℕ} {total : ℕ}
    (h : countExplicitWorkspaceRegions regions = some total) : total = regions.sum := by
  have hstep : ∀ (l : List ℕ) (t : ℕ), l.foldl (fun total bytes => total.bind fun t =>
      if sizeMax - bytes < t then none else some (t + bytes)) (some t) = some total →
      total = t + l.sum := by
    intro l
    induction l with
    | nil => exact fun t h => (Option.some.inj h).symm
    | cons bytes l ih =>
      intro t h
      rw [List.foldl_cons, Option.bind_some] at h
      by_cases hover : sizeMax - bytes < t
      · have hnone : ∀ l : List ℕ, l.foldl (fun total bytes => total.bind fun t =>
            if sizeMax - bytes < t then none else some (t + bytes)) (none : Option ℕ) = none := by
          intro l
          induction l with
          | nil => rfl
          | cons _ _ ih => exact ih
        rw [if_pos hover, hnone] at h
        cases h
      · rw [if_neg hover] at h
        rw [ih _ h, List.sum_cons, Nat.add_assoc]
  rw [hstep regions 0 h, Nat.zero_add]

/-- **The arena of a created workspace** is the layout of the copies in unbounded arithmetic. -/
structure HipArena.Layout (plan : Plan) (a : HipArena) : Prop where
  fits : ActiveFits plan a.active
  regions : a.all = ((BumpArena.offsets arenaAlignment 0 (uploadedBytes plan a.active ++ [0])).zip
    (uploadedBytes plan a.active ++ [0])).map fun r => ⟨r.1, r.2⟩
  arenaBytes : a.arenaBytes =
    BumpArena.extent arenaAlignment 0 (uploadedBytes plan a.active ++ [0])
  arenaBytes_lt : a.arenaBytes < sizeWords
  tileScheduleCount : a.tileScheduleCount =
    if a.tileSchedule.bytes = 0 then 0 else plan.tileSchedule.length
  activeEntriesCount : a.activeEntriesCount = a.active.entries.length

theorem createHipArena_layout {device : DeviceCalls} {arena : HipArena}
    (h : createHipArena device plan = .ok arena) (hc : planScheduleContractMatches plan = true)
    (hsel : ∀ entry ∈ plan.tileSchedule, entry.selectedPrefix ≤ plan.scheduleMaxSelectedPrefix)
    (hm : plan.desc.m ≤ int64Max) (hn : plan.desc.n ≤ int64Max) : arena.Layout plan := by
  unfold createHipArena at h
  split at h
  · cases h
  · next active hactive =>
    -- the sizes of the four copies fit, so nothing below overflows
    have hfit := createActiveSchedule_fits hactive
    have hroom := roomy_uploadedBytes hc hfit hm hn
    have hdeclared := workspaceRequiredBytes_le hc hfit hsel
    simp only [explicitWorkspaceRegions_eq hc hfit] at h
    split at h
    · cases h
    · next explicitBytes hexplicit =>
      have htotal := countExplicitWorkspaceRegions_sum hexplicit
      rw [if_neg (by omega)] at h
      split at h
      · cases h
      · next arenaBytes hreserve =>
        have hbytes := BumpArena.reserve_eq hroom hreserve
        have hlt : arenaBytes < sizeWords := by
          refine BumpArena.reserve_lt (by decide) ?_ hreserve
          obtain ⟨zeroA, zeroB, schedule, entries, hsizes, hA, hB, hS, hE, -⟩ :=
            uploadedBytes_bounds hc hfit hm hn
          rw [hsizes]
          simp only [int64Max, sizeWords, List.cons_append, List.nil_append, List.mem_cons,
            List.not_mem_nil, or_false] at *
          omega
        split at h
        -- an empty arena is not allocated: all four sizes are zero
        · next hzero =>
          obtain rfl := Except.ok.inj h
          have hall : ∀ b ∈ uploadedBytes plan active ++ [0], b = 0 := fun b hb =>
            Nat.le_zero.1 (hzero ▸ hbytes ▸ BumpArena.le_extent_of_mem (by decide) hb)
          have hzeros : uploadedBytes plan active = [0, 0, 0, 0] :=
            List.eq_replicate_iff.2 ⟨rfl, fun b hb => hall b (List.mem_append_left _ hb)⟩
          have hentries : active.entries.length = 0 := by
            have := hall (active.entries.length * tileScheduleEntryBytes) (by simp [uploadedBytes])
            simpa [tileScheduleEntryBytes] using this
          refine ⟨hfit, ?_, ?_, Nat.two_pow_pos 64, rfl, hentries.symm⟩
          · rw [hzeros]
            rfl
          · rw [hzeros]
            rfl
        · split at h
          · cases h
          · split at h
            · cases h
            · obtain rfl := Except.ok.inj h
              -- otherwise the regions follow each other at aligned offsets
              rw [BumpArena.assign_eq (by decide) hroom (hbytes ▸ hlt)]
              exact ⟨hfit, rfl, hbytes, hlt, rfl, rfl⟩

end Layout

end Rns8
