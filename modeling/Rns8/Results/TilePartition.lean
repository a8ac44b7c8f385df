import Rns8.Hip.TileContractExact
import Rns8.Plan.Contract
import Rns8.Cpu.GemmRns

/-!
# The tile schedule partitions the output

The tiles of a created plan are a row-major grid of clipped rectangles, the lookup of a cell finds its
tile, and the bound table has one bound for each tile in the same order. The device check of a
schedule accepts nothing but such grids, and it accepts the schedules of the planner as far as their
offsets are an `int`.
-/

namespace Rns8

/-! ### The schedule of a created plan -/

/-- What the tile loop leaves in the entries besides the rectangles. -/
structure CreatedSchedule (plan : Plan) : Prop where
  prefix_le : plan.rnsPrefix ≤ maxSupportedPrefix
  tileM_valid : configuredTileSizeValid plan.desc.tileM = true
  tileN_valid : configuredTileSizeValid plan.desc.tileN = true
  position : ∀ index entry, plan.tileSchedule[index]? = some entry →
    entry.tileRow = index / plan.scheduleTileCols ∧ entry.tileCol = index % plan.scheduleTileCols
  group : ∀ (index : ℕ) (entry : TileScheduleEntry), plan.tileSchedule[index]? = some entry →
    entry.groupIndex = groupIndexOf (prefixGroups plan.tileSchedule) entry.selectedPrefix

/-- A descriptor with per-tile bounds is only valid for a supported prefix. -/
theorem validateGemmDesc_perTile {desc : GemmDesc} {r : ℕ} (h : validateGemmDesc desc r = .success)
    (htile : isPerTileBoundKind desc.boundKind = true) : r ≤ maxSupportedPrefix := by
  have hkind : desc.boundKind ≠ .inputRangeAndK := by
    intro h0
    rw [h0] at htile
    cases htile
  have hnone : desc.boundKind ≠ .none := by
    intro h0
    rw [h0] at htile
    cases htile
  unfold validateGemmDesc at h
  split at h
  · cases h
  · split at h
    · rw [if_pos (Or.inl hnone)] at h
      cases h
    · split at h
      · rw [if_pos (Or.inl hnone)] at h
        cases h
      · split at h
        · rw [if_pos (Or.inl hnone)] at h
          cases h
        · replace h : validateBoundContract desc.semantics desc.boundKind desc.bound r =
              .success := by simpa only [if_neg hkind] using h
          unfold validateBoundContract at h
          split at h
          · cases h
          · split at h
            · cases h
            · next hbudget' => omega

theorem fillTileSchedule_groups (p : Plan) (entries : List TileScheduleEntry) :
    prefixGroups (fillTileSchedule p entries).tileSchedule = prefixGroups entries := by
  simp only [fillTileSchedule, prefixGroups, List.map_map]
  rfl

/-- **The entries of a created schedule.** -/
theorem rns8CreatePlan_schedule {ctx : Context} {desc : GemmDesc} {plan : Plan}
    (h : rns8CreatePlan ctx desc = .ok plan) (hne : plan.tileSchedule ≠ []) :
    CreatedSchedule plan := by
  obtain ⟨hval, -, bound, -, -, hconf⟩ := rns8CreatePlan_ok h
  obtain ⟨-, ⟨-, htm, htn⟩, -, hmask, -⟩ := gemmDescCommonOk_spec (validateGemmDesc_commonOk hval)
  obtain ⟨-, aRows, bCols, aCount, bCount, product, -, hcases⟩ := configurePlanSchedule_ok hconf
    (defaultedTile_pos desc.tileM).ne' (defaultedTile_pos desc.tileN).ne' hmask
  rcases hcases with ⟨-, rfl⟩ | ⟨-, htile, hq⟩ | ⟨-, -, -, -, rfl⟩
  · exact absurd rfl hne
  · obtain ⟨hd, hbudget', -⟩ := configureTileSchedule_fields hq
    obtain ⟨bounds, entries, -, -, hloop, hplan⟩ := configureTileSchedule_ok hq
    have hentry : ∀ index entry, plan.tileSchedule[index]? = some entry →
        (entry.tileRow = index / plan.scheduleTileCols ∧
          entry.tileCol = index % plan.scheduleTileCols) ∧
        entry.groupIndex = groupIndexOf (prefixGroups plan.tileSchedule) entry.selectedPrefix := by
      split at hplan
      · rw [hplan] at hne
        exact absurd rfl hne
      · intro index entry hentry
        rw [hplan] at hentry ⊢
        obtain ⟨made, hmade, rfl⟩ := fillTileSchedule_getElem? hentry
        obtain ⟨-, hok⟩ := (scheduleTiles_getElem? hloop).2 index made hmade
        obtain ⟨-, -, -, rfl⟩ := scheduleTile_ok hok
        rw [fillTileSchedule_groups]
        exact ⟨⟨rfl, rfl⟩, rfl⟩
    refine ⟨?_, ?_, ?_, fun index entry he => (hentry index entry he).1,
      fun index entry he => (hentry index entry he).2⟩
    · rw [hbudget']
      exact validateGemmDesc_perTile hval htile
    · rw [hd]
      exact configuredTileSizeValid_default htm
    · rw [hd]
      exact configuredTileSizeValid_default htn
  · exact absurd rfl hne

/-- A plan with a tile schedule has per-tile bounds. -/
theorem CreatedPlan.perTile_of_schedule {plan : Plan} (h : CreatedPlan plan)
    (hne : plan.tileSchedule ≠ []) :
    usesRnsStorage plan.desc.semantics = true ∧ isPerTileBoundKind plan.desc.boundKind = true := by
  have hrns : usesRnsStorage plan.desc.semantics = true := by
    by_contra hrns
    exact hne (h.unladdered (by simpa using hrns)).1
  refine ⟨hrns, ?_⟩
  by_contra htile
  exact hne (h.global hrns (by simpa using htile)).tileSchedule

/-! ### The partition -/

/-- The tile schedule of a plan partitions its output, and every lookup of a cell finds the tile of the
cell. -/
structure PartitionsOutput (plan : Plan) : Prop where
  rectangle : ∀ entry ∈ plan.tileSchedule, 0 < entry.rowExtent ∧ 0 < entry.colExtent ∧
    entry.rowOffset + entry.rowExtent ≤ plan.desc.m ∧
    entry.colOffset + entry.colExtent ≤ plan.desc.n
  clipped : ∀ index entry, plan.tileSchedule[index]? = some entry → TileAt plan index entry
  disjoint : plan.tileSchedule.Pairwise fun e e' => ∀ row col, e.Covers row col → ¬ e'.Covers row col
  covered : ∀ row < plan.desc.m, ∀ col < plan.desc.n, ∃ entry ∈ plan.tileSchedule,
    entry.Covers row col
  bounds_length : plan.tileBounds.length = plan.tileSchedule.length
  bound : ∀ index entry, plan.tileSchedule[index]? = some entry → TileChoice plan index entry
  lookup : ∀ index entry row col, plan.tileSchedule[index]? = some entry → entry.Covers row col →
    tileScheduleEntryForCell plan row col = some entry ∧
      selectedPrefixForCell plan row col = entry.selectedPrefix ∧
      boundForCell plan row col = plan.tileBounds.getD index 0
  gemm : ∀ p, ∀ row < plan.desc.m, ∀ col < plan.desc.n,
    (∃ call ∈ cpuGemmCalls plan, call.Covers p row col) ↔ p < selectedPrefixForCell plan row col

theorem CreatedPlan.rectangle {plan : Plan} (h : CreatedPlan plan) {index : ℕ}
    {entry : TileScheduleEntry} (hentry : plan.tileSchedule[index]? = some entry) :
    0 < entry.rowExtent ∧ 0 < entry.colExtent ∧ entry.rowOffset + entry.rowExtent ≤ plan.desc.m ∧
      entry.colOffset + entry.colExtent ≤ plan.desc.n := by
  have hat := h.grid.tile index entry hentry
  have hidx := (List.getElem?_eq_some_iff.1 hentry).1
  rw [h.grid.length (List.ne_nil_of_mem (List.mem_of_getElem? hentry)), h.grid.tileRows] at hidx
  obtain ⟨hi, hj⟩ := RowMajor.div_mod_lt hidx
  have hrow := RowMajor.tile_start_lt h.grid.tileM_pos hi
  rw [h.grid.tileCols] at hj
  have hcol := RowMajor.tile_start_lt h.grid.tileN_pos hj
  have hM := h.grid.tileM_pos
  have hN := h.grid.tileN_pos
  rw [← h.grid.tileCols] at hcol
  rw [← hat.rowOffset] at hrow
  rw [← hat.colOffset] at hcol
  rw [hat.rowExtent, hat.colExtent]
  omega

theorem CreatedPlan.partitionsOutput {plan : Plan} (h : CreatedPlan plan)
    (hne : plan.tileSchedule ≠ []) : PartitionsOutput plan := by
  obtain ⟨hrns, htile⟩ := h.perTile_of_schedule hne
  have hts := h.perTile hrns htile
  have hlength : plan.tileBounds.length = plan.tileSchedule.length := by
    rw [hts.bounds_length, h.tileCount, h.grid.length hne]
  refine ⟨fun entry he => ?_, h.grid.tile, h.grid.pairwise_covers, fun row hrow col hcol => ?_,
    hlength, fun index entry he => (hts.choice index entry he).1,
    fun index entry row col he hcov => ?_, fun p row hrow col hcol => ?_⟩
  · obtain ⟨index, hindex⟩ := List.mem_iff_getElem?.1 he
    exact h.rectangle hindex
  · obtain ⟨entry, -, he, hcov⟩ := h.grid.exists_entry hne hrow hcol
    exact ⟨entry, he, hcov⟩
  · have hlookup := h.grid.entry_eq_of_covers (List.mem_of_getElem? he) hcov
    refine ⟨hlookup, by rw [selectedPrefixForCell, hlookup], ?_⟩
    have hlt : index < plan.tileBounds.length := hlength ▸ (List.getElem?_eq_some_iff.1 he).1
    rw [boundForCell, ← h.grid.index_eq_of_covers he hcov]
    simp [List.getD, List.getElem?_eq_getElem hlt]
  · exact exists_covers_iff h.grid hrow hcol

/-- The choice of a backend leaves the schedule. -/
theorem PartitionsOutput.withBackend {plan : Plan} (h : PartitionsOutput plan)
    (backend : BackendKind) : PartitionsOutput { plan with backend } :=
  ⟨h.rectangle, fun index entry he => ⟨(h.clipped index entry he).1, (h.clipped index entry he).2,
      (h.clipped index entry he).3, (h.clipped index entry he).4⟩, h.disjoint, h.covered,
    h.bounds_length, fun index entry he => ⟨(h.bound index entry he).1, (h.bound index entry he).2,
      (h.bound index entry he).3, (h.bound index entry he).4, (h.bound index entry he).5,
      (h.bound index entry he).6⟩, h.lookup, h.gemm⟩

/-! ### The device check -/

/-- A schedule entry as the ABI passes it to the device code. -/
def TileScheduleEntry.toHost (entry : TileScheduleEntry) : HostTileEntry where
  flags := (if entry.flags.zeroOutput then 1 else 0) ||| (if entry.flags.zeroRowColProduct then 2 else 0)
  tileRow := entry.tileRow
  tileCol := entry.tileCol
  rowOffset := entry.rowOffset
  colOffset := entry.colOffset
  rowExtent := entry.rowExtent
  colExtent := entry.colExtent
  requiredPrefix := entry.requiredPrefix
  selectedPrefix := entry.selectedPrefix
  groupIndex := entry.groupIndex
  rangeBitLength := entry.rangeBitLength

/-- The device check of a plan's schedule. -/
def deviceAcceptsSchedule (plan : Plan) : Bool :=
  (checkedTileScheduleContract (plan.tileSchedule.map TileScheduleEntry.toHost) plan.desc.m
    plan.desc.n).isSome

theorem toHost_flags (entry : TileScheduleEntry) :
    entry.toHost.flags &&& ~~~knownTileScheduleFlags = 0 := by
  have key : ∀ zero product : Bool, ((if zero then 1 else 0) ||| (if product then 2 else 0)) &&&
      ~~~knownTileScheduleFlags = (0 : UInt32) := by
    decide
  exact key entry.flags.zeroOutput entry.flags.zeroRowColProduct

/-- The check of one entry of a created schedule is about the machine `int`. -/
theorem checkedTileEntry_toHost {plan : Plan} (h : CreatedPlan plan) (hs : CreatedSchedule plan)
    (hne : plan.tileSchedule ≠ []) {entry : TileScheduleEntry} (he : entry ∈ plan.tileSchedule) :
    checkedTileEntry entry.toHost plan.desc.m plan.desc.n = true ↔
      (entry.rowOffset ≤ intMax ∧ entry.colOffset ≤ intMax) ∧
        entry.rowExtent ≤ intMax ∧ entry.colExtent ≤ intMax := by
  obtain ⟨hrns, htile⟩ := h.perTile_of_schedule hne
  obtain ⟨index, hindex⟩ := List.mem_iff_getElem?.1 he
  obtain ⟨hr, hc, hm, hn⟩ := h.rectangle hindex
  have hchoice := ((h.perTile hrns htile).choice index entry hindex).1
  have hreq := hchoice.required_ne
  obtain ⟨hle, hle'⟩ := hchoice.required_le_selected
  have hmax := hs.prefix_le
  rw [checkedTileEntry_iff, toHost_flags]
  simp only [TileScheduleEntry.toHost, and_self, true_and]
  omega

/-- **The schedule of a created plan is a grid** in the sense of the device check. -/
theorem CreatedPlan.tileGrid {plan : Plan} (h : CreatedPlan plan) (hs : CreatedSchedule plan)
    (hne : plan.tileSchedule ≠ []) :
    TileGrid (plan.tileSchedule.map TileScheduleEntry.toHost) plan.desc.m plan.desc.n
      plan.scheduleTileRows plan.scheduleTileCols
      ⟨fun i => i * plan.desc.tileM, fun i => min plan.desc.tileM (plan.desc.m - i * plan.desc.tileM)⟩
      ⟨fun i => i * plan.desc.tileN,
        fun i => min plan.desc.tileN (plan.desc.n - i * plan.desc.tileN)⟩ := by
  have hentry : ∀ (index : ℕ) (entry : HostTileEntry),
      (plan.tileSchedule.map TileScheduleEntry.toHost)[index]? = some entry →
      ∃ e, plan.tileSchedule[index]? = some e ∧ entry = e.toHost := by
    intro index entry he
    rw [List.getElem?_map, Option.map_eq_some_iff] at he
    obtain ⟨e, hget, rfl⟩ := he
    exact ⟨e, hget, rfl⟩
  refine ⟨?_, ?_, ?_, fun index entry he => ?_, fun index entry he => ?_, fun index entry he => ?_,
    fun index entry he => ?_, fun index entry he => ?_⟩
  · rw [h.grid.tileRows]
    exact AxisCut.regular h.grid.tileM_pos
  · rw [h.grid.tileCols]
    exact AxisCut.regular h.grid.tileN_pos
  · rw [List.length_map]
    exact h.grid.length hne
  · obtain ⟨e, hget, rfl⟩ := hentry index entry he
    exact (hs.position index e hget).1
  · obtain ⟨e, hget, rfl⟩ := hentry index entry he
    exact (hs.position index e hget).2
  · obtain ⟨e, hget, rfl⟩ := hentry index entry he
    have hat := h.grid.tile index e hget
    refine ⟨congrArg Nat.cast hat.rowOffset, congrArg Nat.cast ?_⟩
    rw [hat.rowExtent, hat.rowOffset]
  · obtain ⟨e, hget, rfl⟩ := hentry index entry he
    have hat := h.grid.tile index e hget
    refine ⟨congrArg Nat.cast hat.colOffset, congrArg Nat.cast ?_⟩
    rw [hat.colExtent, hat.colOffset]
  · obtain ⟨e, hget, rfl⟩ := hentry index entry he
    have hgroup := hs.group index e hget
    unfold selectedPrefixRank
    rw [List.map_map]
    exact hgroup

/-- The configured tile sizes. -/
theorem configuredTileSizeValid_cases {t : ℕ} (h : configuredTileSizeValid t = true) :
    t = 64 ∨ t = 128 ∨ t = 256 ∨ t = 512 := by
  have hle : t ≤ 512 := by
    simp only [configuredTileSizeValid, Bool.and_eq_true, decide_eq_true_eq] at h
    exact h.1.2
  have key : ∀ t < 513, configuredTileSizeValid t = true →
      t = 64 ∨ t = 128 ∨ t = 256 ∨ t = 512 := by
    decide +kernel
  exact key t (by omega) h

/-- The last tile of an axis starts at an `int` exactly when the axis is no longer than `2 ^ 31`. -/
theorem last_tile_start_iff {t n : ℕ} (ht : configuredTileSizeValid t = true) (hn : 0 < n) :
    (ceilDiv n t - 1) * t ≤ intMax ↔ n ≤ 2 ^ 31 := by
  unfold ceilDiv intMax
  rcases configuredTileSizeValid_cases ht with rfl | rfl | rfl | rfl <;> omega

/-- **The device check accepts a created schedule exactly when no dimension of the output is above
`2 ^ 31`.** -/
theorem deviceAcceptsSchedule_iff {ctx : Context} {desc : GemmDesc} {plan : Plan}
    (h : rns8CreatePlan ctx desc = .ok plan) (hne : plan.tileSchedule ≠ []) :
    deviceAcceptsSchedule plan = true ↔ plan.desc.m ≤ 2 ^ 31 ∧ plan.desc.n ≤ 2 ^ 31 := by
  have hplan := rns8CreatePlan_created h
  have hs := rns8CreatePlan_schedule h hne
  have hgrid := hplan.tileGrid hs hne
  have hrows := ceilDiv_pos hplan.m_pos hplan.grid.tileM_pos.ne'
  have hcols := ceilDiv_pos hplan.n_pos hplan.grid.tileN_pos.ne'
  rw [← hplan.grid.tileRows] at hrows
  rw [← hplan.grid.tileCols] at hcols
  constructor
  · intro hok
    obtain ⟨schedule, hsome⟩ := Option.isSome_iff_exists.1 hok
    obtain ⟨-, -, hchecked, -⟩ := checkedTileScheduleContract_grid hsome
    -- the last entry is the last tile of both axes
    have hlast : (plan.scheduleTileRows - 1) * plan.scheduleTileCols + (plan.scheduleTileCols - 1) <
        plan.tileSchedule.length := by
      rw [hplan.grid.length hne]
      exact RowMajor.offset_lt (by omega) (by omega)
    obtain ⟨hdiv, hmod⟩ := RowMajor.offset_parts (plan.scheduleTileRows - 1)
      (show plan.scheduleTileCols - 1 < plan.scheduleTileCols by omega)
    have hentry := List.getElem?_eq_getElem hlast
    have hat := hplan.grid.tile _ _ hentry
    have hmem := List.mem_of_getElem? hentry
    obtain ⟨⟨hro, hco⟩, -⟩ := (checkedTileEntry_toHost hplan hs hne hmem).1
      (hchecked _ (List.mem_map_of_mem hmem))
    rw [hat.rowOffset, hdiv, hplan.grid.tileRows, last_tile_start_iff hs.tileM_valid hplan.m_pos] at hro
    rw [hat.colOffset, hmod, hplan.grid.tileCols, last_tile_start_iff hs.tileN_valid hplan.n_pos] at hco
    exact ⟨hro, hco⟩
  -- every entry and both tile counts stay below the limits of the check
  · rintro ⟨hm, hn⟩
    refine checkedTileScheduleContract_isSome hplan.m_pos hplan.n_pos (fun e he => ?_) hgrid ?_ ?_
    · obtain ⟨entry, hentry, rfl⟩ := List.mem_map.1 he
      obtain ⟨index, hindex⟩ := List.mem_iff_getElem?.1 hentry
      have hrect := hplan.rectangle hindex
      have htM := (hplan.grid.rowExtent_le hentry).2
      have htN := (hplan.grid.colExtent_le hentry).2
      have hM := configuredTileSizeValid_cases hs.tileM_valid
      have hN := configuredTileSizeValid_cases hs.tileN_valid
      refine (checkedTileEntry_toHost hplan hs hne hentry).2 ?_
      unfold intMax
      omega
    · rw [hplan.grid.tileRows]
      unfold ceilDiv intMax
      rcases configuredTileSizeValid_cases hs.tileM_valid with ht | ht | ht | ht <;> rw [ht] <;> omega
    · rw [hplan.grid.tileCols]
      unfold ceilDiv intMax
      rcases configuredTileSizeValid_cases hs.tileN_valid with ht | ht | ht | ht <;> rw [ht] <;> omega

/-! ### The result -/

/-- **The tile schedule partitions the output**: of every created plan, also of one whose backend comes
from the autotune cache, with the bound table in the order of the entries. The device check accepts the
schedule exactly when no dimension is above `2 ^ 31`, and nothing but grid partitions with ranks as
group indices. -/
theorem tileSchedule_partitions :
    (∀ ctx desc plan, rns8CreatePlan ctx desc = .ok plan → plan.tileSchedule ≠ [] →
      PartitionsOutput plan ∧
        (deviceAcceptsSchedule plan = true ↔ plan.desc.m ≤ 2 ^ 31 ∧ plan.desc.n ≤ 2 ^ 31)) ∧
    (∀ (hit : Plan → Option ℕ) ctx desc plan, rns8CreatePlanAuto hit ctx desc = .ok plan →
      plan.tileSchedule ≠ [] → PartitionsOutput plan) ∧
    (∀ ctx desc plan, rns8CreatePlan ctx desc = .ok plan →
      isPerTileBoundKind plan.desc.boundKind = true →
      ∀ row < plan.desc.m, ∀ col < plan.desc.n, ∃ entry,
        selectedPrefixForCell plan row col = entry.selectedPrefix ∧
        TileChoice plan (tileIndexForCell plan row col) entry ∧
        plan.tileBounds[tileIndexForCell plan row col]? = some (boundForCell plan row col)) ∧
    ∀ entries rows cols schedule,
      checkedTileScheduleContract entries rows cols = some schedule →
      (∃ tileRows tileCols, TileGrid entries rows.toNat cols.toNat tileRows tileCols
        schedule.rowAxis schedule.colAxis) ∧
      (∀ entry ∈ entries, (0 ≤ entry.rowOffset ∧ 0 < entry.rowExtent ∧
          entry.rowOffset + entry.rowExtent ≤ rows) ∧
        0 ≤ entry.colOffset ∧ 0 < entry.colExtent ∧ entry.colOffset + entry.colExtent ≤ cols) ∧
      ∀ row col : ℕ, row < rows → col < cols → ∃! index : ℕ, ∃ entry,
        entries[index]? = some entry ∧ HostTileEntry.Covers entry row col := by
  refine ⟨fun ctx desc plan h hne => ?_, fun hit ctx desc plan h hne => ?_,
    fun ctx desc plan h htile row hrow col hcol => ?_, fun entries rows cols schedule h => ?_⟩
  · exact ⟨(rns8CreatePlan_created h).partitionsOutput hne, deviceAcceptsSchedule_iff h hne⟩
  · unfold rns8CreatePlanAuto at h
    split at h
    · cases h
    · next base hbase =>
      obtain rfl := Except.ok.inj h
      -- whatever the cache holds, the choice changes the backend only
      have hbackend : ∃ backend, (if desc.requestedBackend = .auto then selectAutoBackend hit ctx base
          else base) = { base with backend } := by
        unfold selectAutoBackend
        split
        · split
          · exact ⟨base.backend, rfl⟩
          · dsimp only
            split
            · exact ⟨base.backend, rfl⟩
            · next best _ => exact ⟨best.1, rfl⟩
        · exact ⟨base.backend, rfl⟩
      obtain ⟨backend, heq⟩ := hbackend
      rw [heq] at hne ⊢
      exact ((rns8CreatePlan_created hbase).partitionsOutput hne).withBackend backend
  · have hplan := rns8CreatePlan_created h
    -- bounds of tiles are accepted for residue planes only
    have hrns : usesRnsStorage plan.desc.semantics = true := by
      by_contra hrns
      have hval := (rns8CreatePlan_ok h).1
      obtain ⟨hsem, -, hkind, -⟩ := rns8CreatePlan_fields h
      rw [hsem] at hrns
      rw [hkind, (validateGemmDesc_validBound hval).kindOther (Or.inl (by simpa using hrns))] at htile
      cases htile
    obtain ⟨entry, hsel, hchoice⟩ := hplan.exists_choice hrns htile hrow hcol
    refine ⟨entry, hsel, hchoice, ?_⟩
    -- the bound table has an entry for every tile
    have hlt : tileIndexForCell plan row col < plan.tileBounds.length := by
      rw [(hplan.perTile hrns htile).bounds_length]
      exact hplan.tileIndex_lt hrow hcol
    rw [boundForCell, List.getD, List.getElem?_eq_getElem hlt, Option.getD_some]
  · obtain ⟨hrows, hcols, -, tileRows, tileCols, hgrid⟩ := checkedTileScheduleContract_grid h
    refine ⟨⟨tileRows, tileCols, hgrid⟩, fun entry he => ?_, fun row col hrow hcol => ?_⟩
    · have hrect := hgrid.rectangle he
      omega
    · exact hgrid.existsUnique (by omega) (by omega)

/-- A tall output of one column, with the same bound for every tile. -/
def tallDesc (m : ℕ) : GemmDesc where
  semantics := .boundedI64
  boundKind := .perTileMaxAbs
  requestedBackend := .hipDirect
  m := m
  n := 1
  k := 1
  tileBounds := some fun _ => 1
  tileBoundsCount := ceilDiv m 128

/-- The tile loop succeeds if every tile can be scheduled. -/
theorem scheduleTiles_isOk {plan : Plan} {count : ℕ}
    (h : ∀ i < count, ∃ entry, scheduleTile plan i = .ok entry) :
    ∃ entries, scheduleTiles plan count = .ok entries := by
  induction count with
  | zero => exact ⟨[], rfl⟩
  | succ count ih =>
    obtain ⟨entries, hentries⟩ := ih fun i hi => h i (by omega)
    obtain ⟨entry, hentry⟩ := h count (Nat.lt_succ_self count)
    exact ⟨entries ++ [entry], by rw [scheduleTiles, hentries]; simp [hentry]⟩

/-- The per-tile part of the planner, when every tile is planned and the tiles differ. -/
theorem configureTileSchedule_of_tiles {p : Plan} {bounds : ℕ → ℕ}
    {entries : List TileScheduleEntry} (hbounds : p.desc.tileBounds = some bounds)
    (hcount : p.desc.tileBoundsCount = p.scheduleTileCount)
    (hloop : scheduleTiles { p with
      tileBounds := (List.range p.desc.tileBoundsCount).map bounds
      desc := { p.desc with tileBounds := none } } p.scheduleTileCount = .ok entries)
    (hredundant : tileScheduleRedundant (fillTileSchedule { p with
      tileBounds := (List.range p.desc.tileBoundsCount).map bounds
      desc := { p.desc with tileBounds := none } } entries) = false) :
    configureTileSchedule p = .ok (fillTileSchedule { p with
      tileBounds := (List.range p.desc.tileBoundsCount).map bounds
      desc := { p.desc with tileBounds := none } } entries) := by
  unfold configureTileSchedule
  rw [hbounds]
  dsimp only
  rw [if_neg (not_not.2 hcount), hloop]
  dsimp only
  rw [hredundant]
  rfl

/-- The planner schedules an output of any height below `2 ^ 63`. -/
theorem rns8CreatePlan_tall {m : ℕ} (hm : 0 < m) (hmax : m < 2 ^ 63) :
    ∃ plan, rns8CreatePlan { backend := .hipDirect } (tallDesc m) = .ok plan ∧
      plan.tileSchedule ≠ [] ∧ plan.desc.m = m := by
  have hbudget' : requestedPrefix (tallDesc m).semantics (tallDesc m).maxPrefix = 9 := rfl
  have hcommon : gemmDescCommonOk (tallDesc m) = true := by
    simp only [gemmDescCommonOk, tallDesc, hm, decide_true]
    rfl
  -- no check of the descriptor looks at the height
  have hval : validateGemmDesc (tallDesc m) 9 = .success := by
    unfold validateGemmDesc
    rw [hcommon]
    rfl
  set plan := initialPlan (tallDesc m) 9 0 .hipDirect with hplan
  have hcreate : rns8CreatePlan { backend := .hipDirect } (tallDesc m) = configurePlanSchedule plan := by
    unfold rns8CreatePlan
    simp only [hbudget', hval]
    rfl
  have hone : ceilDiv 1 128 = 1 := by decide
  have hrows : 0 < ceilDiv m 128 := ceilDiv_pos hm (by decide)
  -- one column of tiles: the tile count does not overflow
  have hfit : ¬ (ceilDiv 1 128 ≠ 0 ∧ sizeMax / ceilDiv 1 128 < ceilDiv m 128) := by
    rw [hone]
    unfold ceilDiv sizeMax
    omega
  have hcount : ¬ sizeMax < ceilDiv m 128 * ceilDiv 1 128 := by
    rw [hone]
    unfold ceilDiv sizeMax
    omega
  -- without masks, planning goes on with the tiles
  obtain ⟨p, hp, hbounds, hboundsCount, htiles, hsem, hbudget, hforce, hdim⟩ :
      ∃ p : Plan, configurePlanSchedule plan = configureTileSchedule p ∧
        p.desc.tileBounds = some (fun _ => 1) ∧ p.desc.tileBoundsCount = ceilDiv m 128 ∧
        p.scheduleTileCount = ceilDiv m 128 ∧ p.desc.semantics = .boundedI64 ∧ p.rnsPrefix = 9 ∧
        p.desc.flags.forceFixedPrefix = false ∧ p.desc.m = m := by
    have hmul : ceilDiv m 128 * ceilDiv 1 128 = ceilDiv m 128 := by rw [hone, Nat.mul_one]
    refine ⟨{ plan.withGrid.withMasks [] [] 0 0 0 with
        scheduleRangeBitLength :=
          bitLength (scheduleRequiredRange (plan.withGrid.withMasks [] [] 0 0 0).desc) },
      ?_, rfl, rfl, hmul, rfl, rfl, rfl, rfl⟩
    unfold configurePlanSchedule
    change (if ceilDiv 1 128 ≠ 0 ∧ sizeMax / ceilDiv 1 128 < ceilDiv m 128 then _ else _) = _
    rw [if_neg hfit]
    change (if sizeMax < ceilDiv m 128 * ceilDiv 1 128 then _ else _) = _
    rw [if_neg hcount]
    rfl
  set p' : Plan := { p with
    tileBounds := (List.range p.desc.tileBoundsCount).map fun _ => 1
    desc := { p.desc with tileBounds := none } } with hp'
  have hbound : ∀ i < p'.scheduleTileCount, p'.tileBounds.getD i 0 = 1 := by
    intro i hi
    have hi' : i < p.desc.tileBoundsCount := by rw [hboundsCount, ← htiles]; exact hi
    simp [hp', List.getD, hi']
  have hone' : requiredPrefixForRange (boundedRangeFromBound .boundedI64 1) = 1 := by decide +kernel
  -- every tile has the bound one, which one modulus carries
  obtain ⟨entries, hloop⟩ : ∃ entries, scheduleTiles p' p'.scheduleTileCount = .ok entries := by
    refine scheduleTiles_isOk fun i hi => ?_
    unfold scheduleTile
    rw [hbound i hi, show p'.desc.semantics = .boundedI64 from hsem]
    simp only [hone', show p'.rnsPrefix = 9 from hbudget]
    exact ⟨_, rfl⟩
  have hpos : 0 < p'.scheduleTileCount := htiles.symm ▸ hrows
  -- no tile needs the nine planes of the plan, so the schedule is kept
  have hredundant : tileScheduleRedundant (fillTileSchedule p' entries) = false := by
    refine Bool.eq_false_iff.2 fun hred => ?_
    obtain ⟨e, he⟩ := List.exists_mem_of_ne_nil _ (entries_ne_nil hloop hpos)
    obtain ⟨i, hi, -, hchoice⟩ := scheduleTiles_choice_of_mem hloop he
    have hselected := hchoice.selected
    rw [show p'.desc.flags.forceFixedPrefix = false from hforce, hchoice.required, hbound i hi,
      show p'.desc.semantics = .boundedI64 from hsem, hone', selected_eq_of_redundant hred he,
      show p'.rnsPrefix = 9 from hbudget] at hselected
    simp at hselected
  refine ⟨fillTileSchedule p' entries, ?_, ?_, hdim⟩
  · rw [hcreate, hp]
    exact configureTileSchedule_of_tiles hbounds (by rw [hboundsCount, htiles]) hloop hredundant
  · intro hnil
    exact entries_ne_nil hloop hpos (List.map_eq_nil_iff.1 hnil)

/-- The planner builds a schedule that the device check does not accept. -/
theorem tall_schedule_rejected : ∃ ctx desc plan, rns8CreatePlan ctx desc = .ok plan ∧
    plan.tileSchedule ≠ [] ∧ deviceAcceptsSchedule plan = false := by
  obtain ⟨plan, hplan, hne, hm⟩ := rns8CreatePlan_tall (m := 2 ^ 31 + 1) (by decide) (by decide)
  refine ⟨_, _, plan, hplan, hne, Bool.eq_false_iff.2 fun hok => ?_⟩
  have := ((deviceAcceptsSchedule_iff hplan hne).1 hok).1
  omega

end Rns8
