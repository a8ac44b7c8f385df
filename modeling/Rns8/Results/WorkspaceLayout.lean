import Rns8.Api.WorkspaceArena
import Rns8.Results.PlanAgreement
import Mathlib.Order.CompletePartialOrder

/-!
# Workspaces and their arenas

A workspace that `rns8_create_workspace` returns for a created plan of the CPU or the direct HIP
backend passes the validator that the GEMM and export entry points run, although one computes the
layout and the other derives it again. The regions of its device arena are aligned, disjoint and
inside the arena, with sizes that agree with unbounded arithmetic, and the active-prefix schedule
lists the pairs of a tile and a plane that the GEMM multiplies, each once.
-/

namespace Rns8

/-! ### The regions -/

/-- The bytes of the arena that a region occupies. -/
def ArenaRegion.span (r : ArenaRegion) : Set ℕ :=
  {i | ∃ pointer ∈ r.pointer, pointer ≤ i ∧ i < pointer + r.bytes}

/-- **The arena is well laid out.** -/
structure HipArena.WellLaid (plan : Plan) (a : HipArena) : Prop where
  aligned : ∀ r ∈ a.all, ∀ pointer ∈ r.pointer, arenaAlignment ∣ pointer
  inside : ∀ r ∈ a.all, ∀ pointer ∈ r.pointer, pointer + r.bytes ≤ a.arenaBytes
  disjoint : a.all.Pairwise fun r s => Disjoint r.span s.span
  pointers : ∀ r ∈ a.all, r.pointer = none ↔ r.bytes = 0
  sizes : a.all.map (·.bytes) = uploadedBytes plan a.active ++ [0]
  arenaBytes_lt : a.arenaBytes < sizeWords

/-- The active-prefix schedule lists every active pair of a tile and a plane once, plane by plane. -/
structure HipArena.ListsActivePairs (plan : Plan) (a : HipArena) : Prop where
  mem : ∀ tile p, (tile, p) ∈ a.active.pairs ↔ ∃ entry ∈ plan.tileSchedule,
    (entry.tileRow, entry.tileCol) = tile ∧ p < entry.selectedPrefix ∧
      entry.flags.zeroOutput = false
  nodup : a.active.pairs.Nodup
  plane : ∀ p < a.active.prefixCount, a.active.plane p = activePrefixEntries plan p

namespace HipArena.Layout

variable {plan : Plan} {arena : HipArena}

/-- The regions of the arena among those of the unbounded layout. -/
private theorem mem_regions {r : ArenaRegion} {sizes : List ℕ} {pointer : ℕ}
    (hr : r ∈ ((BumpArena.offsets arenaAlignment 0 sizes).zip sizes).map
      fun r => (⟨r.1, r.2⟩ : ArenaRegion)) (hp : pointer ∈ r.pointer) :
    ⟨pointer, r.bytes⟩ ∈ BumpArena.regions arenaAlignment 0 sizes := by
  obtain ⟨p, hp', rfl⟩ := List.mem_map.1 hr
  have hpointer : p.1 = some pointer := hp
  exact List.mem_filterMap.2 ⟨p, hp', by rw [hpointer]; rfl⟩

theorem wellLaid (h : arena.Layout plan) : arena.WellLaid plan := by
  have hspec := BumpArena.regions_spec (show 0 < arenaAlignment by decide) 0
    (uploadedBytes plan arena.active ++ [0])
  have hpair := BumpArena.regions_pairwise (show 0 < arenaAlignment by decide) 0
    (uploadedBytes plan arena.active ++ [0])
  have hnull := BumpArena.offset_eq_none_iff arenaAlignment 0
    (uploadedBytes plan arena.active ++ [0])
  refine ⟨fun r hr pointer hp => ?_, fun r hr pointer hp => ?_, ?_, fun r hr => ?_, ?_,
    h.arenaBytes_lt⟩
  · exact (hspec _ (mem_regions (h.regions ▸ hr) hp)).1
  · rw [h.arenaBytes]
    exact (hspec _ (mem_regions (h.regions ▸ hr) hp)).2.2.2
  · rw [h.regions, List.pairwise_map]
    refine (List.pairwise_filterMap.1 hpair).imp fun {p q} hord => ?_
    refine Set.disjoint_left.2 fun i hi hj => ?_
    obtain ⟨x, hx, -, hxi⟩ := hi
    obtain ⟨y, hy, hyi, -⟩ := hj
    have hx : p.1 = some x := hx
    have hy : q.1 = some y := hy
    have hle := hord ⟨x, p.2⟩ (by rw [hx]; rfl) ⟨y, q.2⟩ (by rw [hy]; rfl)
    dsimp only at hle hxi hyi
    omega
  · rw [h.regions] at hr
    obtain ⟨p, hp, rfl⟩ := List.mem_map.1 hr
    exact hnull p hp
  · rw [h.regions, List.map_map]
    change ((BumpArena.offsets arenaAlignment 0 _).zip _).map Prod.snd = _
    exact List.map_snd_zip (BumpArena.length_offsets _ _ _).ge

/-- The sizes of the single regions. -/
theorem bytes_eq (h : arena.Layout plan) :
    [arena.zeroARows.bytes, arena.zeroBCols.bytes, arena.tileSchedule.bytes,
      arena.activeEntries.bytes, arena.scratch.bytes] = uploadedBytes plan arena.active ++ [0] :=
  h.wellLaid.sizes

theorem listsActivePairs (h : arena.Layout plan) (hc : planScheduleContractMatches plan = true)
    (hsel : ∀ entry ∈ plan.tileSchedule, entry.selectedPrefix ≤ plan.scheduleMaxSelectedPrefix) :
    arena.ListsActivePairs plan := by
  refine ⟨fun tile p => h.fits.lists.mem_pairs (fun entry he => ?_) tile p,
    h.fits.lists.nodup_pairs ?_, fun p hp => h.fits.lists.plane_eq hp⟩
  · rw [h.fits.prefixCount, if_neg (List.ne_nil_of_mem he)]
    exact hsel entry he
  · by_cases hne : plan.tileSchedule = []
    · rw [hne]
      exact List.nodup_nil
    · exact (planScheduleContractMatches_stored hc hne).tiles

/-- A region of the layout passes the size check. -/
private theorem matches_of (h : arena.Layout plan) {r : ArenaRegion} (hr : r ∈ arena.all)
    {expected : ℕ} (hbytes : r.bytes = expected) : r.matches expected = true := by
  have hnull := h.wellLaid.pointers r hr
  rw [hbytes] at hnull
  by_cases hzero : expected = 0
  · simp [ArenaRegion.matches, hbytes, hnull.2 hzero, hzero]
  · obtain ⟨pointer, hp⟩ := Option.ne_none_iff_exists'.1 fun hnone => hzero (hnull.1 hnone)
    simp [ArenaRegion.matches, hbytes, hp, hzero]

/-- The number of schedule entries on the device. -/
private theorem tileScheduleCount_eq (h : arena.Layout plan) : arena.tileScheduleCount =
    if hipDirectGemmRequiresDeviceTileSchedule plan then plan.tileSchedule.length else 0 := by
  obtain ⟨-, -, hbytes, -⟩ : arena.zeroARows.bytes = _ ∧ arena.zeroBCols.bytes = _ ∧
      arena.tileSchedule.bytes = _ ∧ _ := by
    simpa only [uploadedBytes, List.cons_append, List.cons.injEq] using h.bytes_eq
  rw [h.tileScheduleCount, hbytes]
  by_cases hreq : hipDirectGemmRequiresDeviceTileSchedule plan = true
  · have := List.length_pos_of_ne_nil (hipDirectGemmRequiresDeviceTileSchedule_ne_nil hreq)
    rw [if_pos hreq, if_pos hreq, if_neg (by simp only [tileScheduleEntryBytes]; omega)]
  · rw [if_neg hreq, if_neg hreq, if_pos rfl]

/-- **The arena refines the sizes that the rest of the library reads.** -/
theorem resources_eq (h : arena.Layout plan) (hc : planScheduleContractMatches plan = true)
    (hb : plan.backend = .hipDirect) : arena.resources = workspaceResources plan := by
  have hmasks := planScheduleContractMatches_masks hc
  obtain ⟨hzeroA, hzeroB, -⟩ : arena.zeroARows.bytes = _ ∧ arena.zeroBCols.bytes = _ ∧ _ := by
    simpa only [uploadedBytes, List.cons_append, List.cons.injEq] using h.bytes_eq
  have hactive : (List.range arena.active.prefixCount).map arena.active.plane =
      buildActivePrefixTileSchedule plan := by
    have hplanes : (List.range arena.active.prefixCount).map arena.active.plane =
        (List.range arena.active.prefixCount).map (activePrefixEntries plan) :=
      List.map_congr_left fun p hp => h.fits.lists.plane_eq (List.mem_range.1 hp)
    rw [hplanes, h.fits.prefixCount, buildActivePrefixTileSchedule]
    split <;> rfl
  simp only [HipArena.resources, workspaceResources, if_pos hb, hactive, tileScheduleCount_eq h,
    hzeroA, hzeroB, WorkspaceResources.mk.injEq, and_true]
  constructor
  · split
    · next hm => rw [(hmasks hm).1]
    · rfl
  · split
    · next hm => rw [(hmasks hm).2]
    · rfl

/-- Without a schedule the active part is empty. -/
private theorem active_empty (h : arena.Layout plan) (hnil : plan.tileSchedule = []) :
    activePrefixTileScheduleWorkspaceEmpty arena = true := by
  have hentries := h.fits.empty hnil
  have hcount : arena.active.prefixCount = 0 := by rw [h.fits.prefixCount, if_pos hnil]
  obtain ⟨-, -, -, hbytes, -⟩ : arena.zeroARows.bytes = _ ∧ arena.zeroBCols.bytes = _ ∧
      arena.tileSchedule.bytes = _ ∧ arena.activeEntries.bytes = _ ∧ _ := by
    simpa only [uploadedBytes, List.cons_append, List.cons.injEq] using h.bytes_eq
  rw [hentries] at hbytes
  have hmatch := matches_of h (by simp [HipArena.all]) (hbytes.trans (Nat.zero_mul _))
  simp only [activePrefixTileScheduleWorkspaceEmpty, hmatch, h.activeEntriesCount, hentries, hcount,
    h.fits.lists.offsets, h.fits.lists.counts, Nat.not_lt_zero, if_false, List.length_nil,
    decide_true, Bool.and_true]
  decide

/-- With a schedule the active part agrees with what the validator counts. -/
private theorem active_matches (h : arena.Layout plan) (hc : planScheduleContractMatches plan = true)
    (hne : plan.tileSchedule ≠ []) :
    activePrefixTileScheduleMatchesWorkspace plan arena = true := by
  obtain ⟨-, -, -, hpos, hle, -⟩ := planScheduleContractMatches_stored hc hne
  have hmem := memory_le hc h.fits hne
  have hcount : arena.active.prefixCount = plan.scheduleMaxSelectedPrefix := by
    rw [h.fits.prefixCount, if_neg hne]
  have htotal : arena.active.entries.length = ((List.range plan.scheduleMaxSelectedPrefix).map
      (expectedActiveCount plan)).sum := by
    rw [h.fits.lists.entries, hcount, length_activeEntriesBelow]
  obtain ⟨-, -, -, hbytes, -⟩ : arena.zeroARows.bytes = _ ∧ arena.zeroBCols.bytes = _ ∧
      arena.tileSchedule.bytes = _ ∧ arena.activeEntries.bytes = _ ∧ _ := by
    simpa only [uploadedBytes, List.cons_append, List.cons.injEq] using h.bytes_eq
  rw [htotal] at hbytes hmem
  have hmatch := matches_of h (by simp [HipArena.all]) hbytes
  have hsize : ((List.range plan.scheduleMaxSelectedPrefix).map (expectedActiveCount plan)).sum ≤
      sizeMax / tileScheduleEntryBytes := by
    simp only [sizeMax, tileScheduleEntryBytes]
    omega
  -- below the largest prefix in use the lists are the tiles of each prefix, one after another
  have hbelow : ∀ p < plan.scheduleMaxSelectedPrefix,
      arena.active.offsets p = ((List.range p).map (expectedActiveCount plan)).sum ∧
        arena.active.counts p = expectedActiveCount plan p := fun p hp => by
    rw [h.fits.lists.offsets, h.fits.lists.counts, hcount, if_pos hp, if_pos hp,
      length_activeEntriesBelow, length_activePrefixEntries]
    exact ⟨rfl, rfl⟩
  -- beyond it the validator wants zeros, and creation left zeros
  have habove : ∀ p, plan.scheduleMaxSelectedPrefix ≤ p →
      arena.active.offsets p = 0 ∧ arena.active.counts p = 0 := fun p hp => by
    rw [h.fits.lists.offsets, h.fits.lists.counts, hcount, if_neg (not_lt.2 hp),
      if_neg (not_lt.2 hp)]
    exact ⟨rfl, rfl⟩
  simp only [activePrefixTileScheduleMatchesWorkspace, if_neg hne, hcount, hmatch,
    h.activeEntriesCount, htotal, hpos, hle, hsize, decide_true, Bool.true_and, Bool.and_true,
    Bool.and_eq_true, List.all_eq_true, List.mem_range, List.mem_filter, decide_eq_true_eq]
  exact ⟨hbelow, fun p hp => habove p hp.2⟩

/-- **The validator accepts the layout.** -/
theorem hipArenaMatches (h : arena.Layout plan) (hc : planScheduleContractMatches plan = true)
    (hb : plan.backend = .hipDirect) : hipArenaMatches plan arena = true := by
  obtain ⟨hzeroA, hzeroB, hsched, -⟩ : arena.zeroARows.bytes = _ ∧ arena.zeroBCols.bytes = _ ∧
      arena.tileSchedule.bytes = _ ∧ _ := by
    simpa only [uploadedBytes, List.cons_append, List.cons.injEq] using h.bytes_eq
  have hA := matches_of h (by simp [HipArena.all]) hzeroA
  have hB := matches_of h (by simp [HipArena.all]) hzeroB
  have hcount := tileScheduleCount_eq h
  by_cases hne : plan.tileSchedule = []
  · have hno : hipDirectGemmRequiresDeviceTileSchedule plan = false :=
      Bool.not_eq_true _ ▸ fun hreq => hipDirectGemmRequiresDeviceTileSchedule_ne_nil hreq hne
    rw [hno, if_neg Bool.false_ne_true] at hsched hcount
    have hS := matches_of h (by simp [HipArena.all]) hsched
    simp only [Rns8.hipArenaMatches, if_pos hb, hA, hB, if_pos hne, hS, hcount,
      active_empty h hne, decide_true, Bool.and_true]
  · have hmem := memory_le hc h.fits hne
    have hempty : plan.tileSchedule.isEmpty = false := by simpa using hne
    have hS : arena.tileSchedule.matches arena.tileSchedule.bytes = true :=
      matches_of h (by simp [HipArena.all]) rfl
    have hsize : plan.tileSchedule.length ≤ sizeMax / tileScheduleEntryBytes := by
      simp only [sizeMax, tileScheduleEntryBytes]
      omega
    simp only [Rns8.hipArenaMatches, if_pos hb, hA, hB, if_neg hne, hempty, Bool.not_false,
      Bool.true_and, hS, hsize, active_matches h hc hne, ← hsched, h.tileScheduleCount, decide_true,
      Bool.and_true]

end HipArena.Layout

/-! ### Created workspaces -/

/-- No tile of a created plan selects more planes than the schedule records. -/
theorem selectedPrefix_le_max (plan : Plan) (backend : BackendKind) (h : CreatedPlan plan)
    (hc : planScheduleContractMatches { plan with backend } = true) :
    ∀ entry ∈ plan.tileSchedule, entry.selectedPrefix ≤ plan.scheduleMaxSelectedPrefix := by
  intro entry he
  have hempty : plan.tileSchedule.isEmpty = false := by
    simpa using List.ne_nil_of_mem he
  have hkind := (Bool.and_eq_true_iff.1 hc).2
  split at hkind
  · simp [unladderedContractMatches, hempty] at hkind
  · obtain ⟨hladder, hsched⟩ := Bool.and_eq_true_iff.1 hkind
    split at hsched
    · next htiles =>
      have hrns : usesRnsStorage plan.desc.semantics = true := by
        simp only [ladderContractMatches, Bool.and_eq_true] at hladder
        tauto
      obtain ⟨i, hi⟩ := List.mem_iff_getElem?.1 he
      exact ((h.perTile hrns htiles).choice i entry hi).2
    · simp [globalContractMatches, hempty] at hsched

section Created

variable {τ : Type} [LT τ] [DecidableLT τ]

/-- The part of an automatically placed plan that does not depend on the backend. -/
private theorem createdPlan_auto {hit : Plan → Option τ} {ctx : Context} {desc : GemmDesc}
    {plan : Plan} (h : rns8CreatePlanAuto hit ctx desc = .ok plan)
    (hc : planScheduleContractMatches plan = true) :
    plan.desc.m = desc.m ∧ plan.desc.n = desc.n ∧
      ∀ entry ∈ plan.tileSchedule, entry.selectedPrefix ≤ plan.scheduleMaxSelectedPrefix := by
  unfold rns8CreatePlanAuto at h
  split at h
  · cases h
  · next created hcreate =>
    obtain ⟨-, -, -, ⟨hm, hn, -⟩, -⟩ := rns8CreatePlan_fields hcreate
    have hplan : ∃ backend, plan = { created with backend } := by
      rw [← Except.ok.inj h]
      split
      · rcases selectAutoBackend_cases hit ctx created with hsame | ⟨backend, -, hother⟩
        · exact ⟨created.backend, hsame⟩
        · exact ⟨backend, hother⟩
      · exact ⟨created.backend, rfl⟩
    obtain ⟨backend, rfl⟩ := hplan
    exact ⟨hm, hn, selectedPrefix_le_max created backend (rns8CreatePlan_created hcreate) hc⟩

/-- **Workspace creation and validation agree, and the arena is well laid out.** -/
theorem createdWorkspace_wellLaid {hit : Plan → Option τ} {ctx ctx' : Context} {desc : GemmDesc}
    {plan : Plan} {device : DeviceCalls} {workspace : DeviceWorkspace}
    (hm : desc.m ≤ int64Max) (hn : desc.n ≤ int64Max)
    (hplan : rns8CreatePlanAuto hit ctx desc = .ok plan)
    (hbackend : plan.backend = .cpuReference ∨ plan.backend = .hipDirect)
    (h : createDeviceWorkspace device ctx' plan = .ok workspace) :
    validateDeviceWorkspace ctx' plan workspace = .success ∧
      rns8CreateWorkspace ctx' plan = .ok workspace.toWorkspace ∧
      (plan.backend = .cpuReference → workspace.arena = {}) ∧
      (plan.backend = .hipDirect →
        workspace.arena.WellLaid plan ∧ workspace.arena.ListsActivePairs plan) := by
  unfold createDeviceWorkspace at h
  split at h
  · cases h
  · next hc =>
    have hc : planScheduleContractMatches plan = true := by simpa using hc
    obtain ⟨hm', hn', hsel⟩ := createdPlan_auto hplan hc
    split at h
    · cases h
    · next ha =>
      have ha : contextAcceptsBackend ctx' plan.backend = true := by simpa using ha
      -- identity and schedule are the host's on either backend
      have hcreate : rns8CreateWorkspace ctx' plan =
          .ok ⟨workspaceIdentity ctx' plan, scheduleContract plan, workspaceResources plan⟩ := by
        have hlt : ¬ (plan.backend = .hipblaslt ∧ ctx'.hipblasltHandle = false) := by
          rcases hbackend with hb | hb <;> simp [hb]
        simp only [rns8CreateWorkspace, hc, ha, hlt, Bool.not_true, Bool.false_eq_true, if_false]
      -- validation compares the same fields, so it accepts any arena that matches
      have hvalid : ∀ arena, hipArenaMatches plan arena = true →
          validateDeviceWorkspace ctx' plan
            ⟨workspaceIdentity ctx' plan, scheduleContract plan, arena⟩ = .success := by
        intro arena harena
        have hid : ¬ (hipDeviceBackend plan.backend = true ∧
            (workspaceIdentity ctx' plan).hipDeviceId ≠ ctx'.deviceId) := fun hd => hd.2 (if_pos hd.1)
        simp only [validateDeviceWorkspace, hc, ha, harena, hid, Bool.not_true, Bool.false_or,
          Bool.false_eq_true, if_false]
        simp [workspaceIdentity]
      split at h
      -- on the CPU there is none
      · next hb =>
        split at h
        · cases h
        · next arena harena =>
          obtain rfl := Except.ok.inj h
          -- on the device the arena is laid out by creation
          have hlayout := createHipArena_layout harena hc hsel (hm'.trans_le hm) (hn'.trans_le hn)
          refine ⟨hvalid arena (hlayout.hipArenaMatches hc hb), ?_, fun hcpu => ?_, fun _ =>
            ⟨hlayout.wellLaid, hlayout.listsActivePairs hc hsel⟩⟩
          · rw [hcreate, DeviceWorkspace.toWorkspace, hlayout.resources_eq hc hb]
          · rw [hb] at hcpu
            cases hcpu
      · next hb =>
        split at h
        · cases h
        · obtain rfl := Except.ok.inj h
          refine ⟨hvalid {} ?_, ?_, fun _ => rfl, fun hhip => absurd hhip hb⟩
          · rw [hipArenaMatches, if_neg hb]
            decide
          · rw [hcreate, workspaceResources, if_neg hb]
            rfl

end Created

/-- A context of the direct HIP backend, and a product of `65 × 65` cells in four tiles, one of them
with bound zero. -/
def directContext : Context := { backend := .hipDirect, deviceId := 0 }

/-- See `directContext`. -/
def fourTileDesc : GemmDesc where
  semantics := .boundedI64
  boundKind := .perTileMaxAbs
  requestedBackend := .hipDirect
  m := 65
  n := 65
  k := 1
  tileM := 64
  tileN := 64
  flags := { allowProvenZeroTileSkips := true }
  tileBounds := some fun i => if i = 2 then 0 else 1000 ^ i
  tileBoundsCount := 4

/-- A device whose calls succeed. -/
def workingDevice : DeviceCalls := ⟨fun _ => .success, fun _ => .success⟩

theorem createdWorkspace_wellLaid_fourTiles :
    ∃ plan ∈ (rns8CreatePlanAuto (fun _ => (none : Option ℕ)) directContext fourTileDesc).toOption,
      ∃ workspace ∈ (createDeviceWorkspace workingDevice directContext plan).toOption,
        validateDeviceWorkspace directContext plan workspace = .success ∧
          workspace.arena.WellLaid plan ∧ workspace.arena.ListsActivePairs plan := by
  have hmade : (rns8CreatePlanAuto (fun _ => (none : Option ℕ)) directContext fourTileDesc).toOption.any
      (fun plan => decide (plan.backend = .hipDirect) &&
        (createDeviceWorkspace workingDevice directContext plan).toOption.isSome) = true := by
    decide +kernel
  cases hplan : rns8CreatePlanAuto (fun _ => (none : Option ℕ)) directContext fourTileDesc with
  | error status =>
    rw [hplan] at hmade
    cases hmade
  | ok plan =>
    rw [hplan] at hmade
    obtain ⟨hback, hsome⟩ : plan.backend = .hipDirect ∧
        (createDeviceWorkspace workingDevice directContext plan).toOption.isSome = true := by
      simpa [Except.toOption] using hmade
    cases hwork : createDeviceWorkspace workingDevice directContext plan with
    | error status =>
      rw [hwork] at hsome
      cases hsome
    | ok workspace =>
      obtain ⟨hvalid, -, -, hhip⟩ := createdWorkspace_wellLaid (by decide) (by decide) hplan
        (Or.inr hback) hwork
      exact ⟨plan, rfl, workspace, by rw [hwork]; rfl, hvalid, hhip hback⟩

end Rns8
