import Rns8.Plan.Created
import Mathlib.Order.Bounds.Basic

/-!
# Plan creation meets the plan contract

`plan_schedule_contract_matches` recomputes, from the finished plan alone, what
`configure_plan_schedule` computed while it built the plan. Here the two are shown to agree, and the
prefixes the schedule selects are shown to be least:

* `rns8CreatePlan_contract` — a created plan passes the check every later call makes on it;
* `CreatedPrefixes` — each selected prefix is the least admitted one that carries its range, or the
  whole budget when the prefix is forced (`rns8CreatePlan_prefixes`);
* `rangeShortfall_of_error`, `not_rangeShortfall_of_ok` — creation answers `RNS8_RANGE_ERROR` only
  where some demanded range or count does not fit, and a plan is only created where all of them do.
-/

namespace Rns8

/-! ### Prefixes that carry a range -/

/-- The prefixes within the budget whose modulus product exceeds the range. -/
def carryingPrefixes (range budget : ℕ) : Set ℕ :=
  {p | 0 < p ∧ p ≤ budget ∧ range < modulusProduct p}

/-- `required_prefix_for_range` finds the least prefix that carries the range. -/
theorem requiredPrefixForRange_isLeast {range budget : ℕ} (hne : requiredPrefixForRange range ≠ 0)
    (hle : requiredPrefixForRange range ≤ budget) :
    IsLeast (carryingPrefixes range budget) (requiredPrefixForRange range) := by
  obtain ⟨hpos, hmax, hlt⟩ := requiredPrefixForRange_spec hne
  refine ⟨⟨hpos, hle, hlt⟩, fun p hp => ?_⟩
  obtain ⟨hp0, -, hcarry⟩ := hp
  by_cases hp20 : p ≤ maxSupportedPrefix
  · exact (requiredPrefixForRange_le hp0 hp20 hcarry).2
  · omega

/-- A supported budget has no prefix for the range just when `required_prefix_for_range` finds none
within it. -/
theorem carryingPrefixes_eq_empty_iff {range budget : ℕ} (hbudget : budget ≤ maxSupportedPrefix) :
    carryingPrefixes range budget = ∅ ↔
      requiredPrefixForRange range = 0 ∨ budget < requiredPrefixForRange range := by
  rw [Set.eq_empty_iff_forall_notMem]
  constructor
  · intro hempty
    by_contra hcon
    push Not at hcon
    exact hempty _ (requiredPrefixForRange_isLeast hcon.1 hcon.2).1
  · rintro hreq p ⟨hp0, hp, hcarry⟩
    obtain ⟨hne, hle⟩ := requiredPrefixForRange_le hp0 (hp.trans hbudget) hcarry
    omega

/-! ### The contract of the tile entries -/

theorem configuredTileSizeValid_default {t : ℕ} (h : validTileSize t = true) :
    configuredTileSizeValid (if t = 0 then 128 else t) = true := by
  split
  · decide
  · next h0 => simpa [validTileSize, configuredTileSizeValid, h0] using h

theorem groupIndexOf_lt {groups : List ℕ} {p : ℕ} (h : p ∈ groups) :
    groupIndexOf groups p < groups.length := by
  rw [groupIndexOf, List.countP_lt_length_iff]
  exact ⟨p, h, by simp⟩

section TileEntries

variable {p : Plan} {entries : List TileScheduleEntry}

/-- The flags that creation gives a tile of the grid are those the contract expects of it. -/
theorem expectedTileFlags_eq {i bound : ℕ} {entry : TileScheduleEntry} (hat : TileAt p i entry)
    (hmask : p.desc.flags.allowProvenZeroRowColSkips = true →
      p.zeroARows.length = p.desc.m ∧ p.zeroBCols.length = p.desc.n)
    (hrow : entry.rowOffset < p.desc.m) (hcol : entry.colOffset < p.desc.n) :
    tileEntryFlags p i bound = expectedTileFlags p entry bound := by
  have hproofs : planHasZeroRowColProofs p = p.desc.flags.allowProvenZeroRowColSkips := by
    cases hflag : p.desc.flags.allowProvenZeroRowColSkips
    · simp [planHasZeroRowColProofs, hflag]
    · simp [planHasZeroRowColProofs, hflag, hmask hflag]
  have hrowEnd : min p.desc.m (entry.rowOffset + p.desc.tileM) =
      entry.rowOffset + entry.rowExtent := by
    rw [hat.rowExtent]; omega
  have hcolEnd : min p.desc.n (entry.colOffset + p.desc.tileN) =
      entry.colOffset + entry.colExtent := by
    rw [hat.colExtent]; omega
  simp only [tileEntryFlags, expectedTileFlags, hproofs, ← hat.rowOffset, ← hat.colOffset, hrowEnd,
    hcolEnd]
  cases p.desc.flags.allowProvenZeroRowColSkips <;> simp

/-- **One entry.** The entry made for a tile of the grid, with its group index filled in, meets the
contract of its index. -/
theorem tileEntryContractMatches_make {q : Plan} {i group : ℕ} {entry : TileScheduleEntry}
    (hentry : scheduleTile p i = .ok entry) (hM : 0 < p.desc.tileM) (hN : 0 < p.desc.tileN)
    (hrows : i / p.scheduleTileCols < ceilDiv p.desc.m p.desc.tileM)
    (hcols : i % p.scheduleTileCols < ceilDiv p.desc.n p.desc.tileN)
    (hmask : p.desc.flags.allowProvenZeroRowColSkips = true →
      p.zeroARows.length = p.desc.m ∧ p.zeroBCols.length = p.desc.n)
    (hdesc : q.desc = p.desc) (hpre : q.rnsPrefix = p.rnsPrefix)
    (hqcols : q.scheduleTileCols = p.scheduleTileCols) (hbounds : q.tileBounds = p.tileBounds)
    (harows : q.zeroARows = p.zeroARows) (hbcols : q.zeroBCols = p.zeroBCols)
    (hgroup : group < q.schedulePrefixGroupCount) :
    tileEntryContractMatches q i { entry with groupIndex := group } = true := by
  obtain ⟨hat, hchoice⟩ := scheduleTile_spec hentry
  obtain ⟨-, hne, hle, hmake⟩ := scheduleTile_ok hentry
  have hr : entry.rowOffset < p.desc.m := hat.rowOffset ▸ RowMajor.tile_start_lt hM hrows
  have hc : entry.colOffset < p.desc.n := hat.colOffset ▸ RowMajor.tile_start_lt hN hcols
  -- the flags are computed from the same bound and the same masks
  have hflags : entry.flags =
      expectedTileFlags q { entry with groupIndex := group } (q.tileBounds.getD i 0) := by
    have hmade : entry.flags = tileEntryFlags p i (p.tileBounds.getD i 0) := by rw [hmake]; rfl
    rw [hmade, expectedTileFlags_eq hat hmask hr hc]
    simp only [expectedTileFlags, hdesc, harows, hbcols, hbounds]
  have hbits : entry.rangeBitLength =
      bitLength (boundedRangeFromBound p.desc.semantics (p.tileBounds.getD i 0)) := by
    rw [hmake]; rfl
  -- a tile is declared zero for the bound zero only
  have hzero : entry.flags.zeroOutput = true →
      q.tileBounds.getD i 0 = 0 ∧ entry.rangeBitLength = 0 := by
    intro hz
    rw [hchoice.zeroOutput, Bool.and_eq_true, decide_eq_true_eq] at hz
    refine ⟨hbounds ▸ hz.2, ?_⟩
    rw [hbits, hz.2]
    cases p.desc.semantics <;> rfl
  have hsel := hchoice.required_le_selected
  have hreq := hchoice.required_ne
  have hrowExtent := hat.rowExtent
  have hcolExtent := hat.colExtent
  have hrow : entry.tileRow = i / q.scheduleTileCols := by rw [hqcols, hmake]; rfl
  have hcol : entry.tileCol = i % q.scheduleTileCols := by rw [hqcols, hmake]; rfl
  rw [← hdesc] at hr hc hrowExtent hcolExtent hM hN
  rw [← hpre] at hsel
  simp only [tileEntryContractMatches, Bool.and_eq_true, decide_eq_true_eq, Bool.not_eq_true',
    Bool.and_eq_false_imp, Bool.or_eq_false_iff, decide_eq_false_iff_not, not_not]
  refine ⟨⟨⟨⟨⟨⟨⟨⟨⟨⟨⟨⟨⟨⟨hrow, hcol⟩, ?_⟩, ?_⟩, hr⟩, hc⟩, ?_⟩, ?_⟩, ?_⟩, ?_⟩, hsel.1⟩, hsel.2⟩,
    hgroup⟩, hflags⟩, hzero⟩ <;> omega

/-- The least of the values of some entries is at most the greatest of them. -/
theorem listMin_le_listMax {l : List ℕ} (hl : l ≠ []) : listMin l ≤ listMax l :=
  le_listMax (listMin_mem hl)

/-- The summary fields that the tile loop leaves behind are within the prefix budget. -/
theorem fillTileSchedule_summary (hloop : scheduleTiles p p.scheduleTileCount = .ok entries)
    (hpos : 0 < p.scheduleTileCount) :
    let q := fillTileSchedule p entries
    0 < q.schedulePrefixGroupCount ∧ 0 < q.scheduleMinRequiredPrefix ∧
      0 < q.scheduleMinSelectedPrefix ∧ q.scheduleMaxRequiredPrefix ≤ p.rnsPrefix ∧
      q.scheduleMaxSelectedPrefix ≤ p.rnsPrefix ∧
      q.scheduleMinRequiredPrefix ≤ q.scheduleMaxRequiredPrefix ∧
      q.scheduleMinSelectedPrefix ≤ q.scheduleMaxSelectedPrefix := by
  have hne := entries_ne_nil hloop hpos
  have hmem : ∀ entry ∈ entries, 0 < entry.requiredPrefix ∧
      entry.requiredPrefix ≤ entry.selectedPrefix ∧ entry.selectedPrefix ≤ p.rnsPrefix := by
    intro entry he
    obtain ⟨i, -, -, hc⟩ := scheduleTiles_choice_of_mem hloop he
    exact ⟨Nat.pos_of_ne_zero hc.required_ne, hc.required_le_selected⟩
  -- least and greatest value of a field that is positive and at most the budget
  have hall : ∀ (f : TileScheduleEntry → ℕ), (∀ entry ∈ entries, 0 < f entry ∧
      f entry ≤ p.rnsPrefix) → 0 < listMin (entries.map f) ∧ listMax (entries.map f) ≤ p.rnsPrefix ∧
      listMin (entries.map f) ≤ listMax (entries.map f) := by
    intro f hf
    have hne' : entries.map f ≠ [] := by simpa using hne
    obtain ⟨e, he, hmin⟩ := List.mem_map.1 (listMin_mem hne')
    refine ⟨hmin ▸ (hf e he).1, listMax_le fun x hx => ?_, listMin_le_listMax hne'⟩
    obtain ⟨e', he', rfl⟩ := List.mem_map.1 hx
    exact (hf e' he').2
  obtain ⟨hr1, hr2, hr3⟩ := hall (·.requiredPrefix) fun e he => by
    have := hmem e he; exact ⟨this.1, this.2.1.trans this.2.2⟩
  obtain ⟨hs1, hs2, hs3⟩ := hall (·.selectedPrefix) fun e he => by
    have := hmem e he; exact ⟨by omega, this.2.2⟩
  obtain ⟨e, he⟩ := List.exists_mem_of_ne_nil _ hne
  have hgroup : e.selectedPrefix ∈ prefixGroups entries :=
    List.mem_dedup.2 (List.mem_map_of_mem he)
  exact ⟨List.length_pos_of_mem hgroup, hr1, hs1, hr2, hs2, hr3, hs3⟩

/-- The schedule of the tile loop meets the contract of per-tile plans. -/
theorem perTileContractMatches_fill (hloop : scheduleTiles p p.scheduleTileCount = .ok entries)
    (hpos : 0 < p.scheduleTileCount) (hM : 0 < p.desc.tileM) (hN : 0 < p.desc.tileN)
    (hrows : p.scheduleTileRows = ceilDiv p.desc.m p.desc.tileM)
    (hcols : p.scheduleTileCols = ceilDiv p.desc.n p.desc.tileN)
    (hcount : p.scheduleTileCount = p.scheduleTileRows * p.scheduleTileCols)
    (hmask : p.desc.flags.allowProvenZeroRowColSkips = true →
      p.zeroARows.length = p.desc.m ∧ p.zeroBCols.length = p.desc.n)
    (hbound : p.desc.bound = 0) (hnone : p.desc.tileBounds = none)
    (hlen : p.desc.tileBoundsCount = p.tileBounds.length)
    (hboundsCount : p.desc.tileBoundsCount = p.scheduleTileCount) :
    perTileContractMatches (if tileScheduleRedundant (fillTileSchedule p entries) then
      { fillTileSchedule p entries with tileSchedule := [] } else fillTileSchedule p entries) =
      true := by
  obtain ⟨hgroups, hr, hs, hr', hs', hrr, hss⟩ := fillTileSchedule_summary hloop hpos
  split
  · next hred =>
    simp only [perTileContractMatches, Bool.and_eq_true, decide_eq_true_eq]
    exact ⟨⟨⟨⟨⟨⟨⟨⟨⟨⟨⟨hbound, hlen⟩, hboundsCount⟩, by simp [fillTileSchedule, hnone]⟩, hgroups⟩, hr⟩,
      hs⟩, hr'⟩, hs'⟩, hrr⟩, hss⟩, hred⟩
  · next hred =>
    have hlength : (fillTileSchedule p entries).tileSchedule.length = p.tileBounds.length := by
      rw [← hlen, hboundsCount, ← (scheduleTiles_getElem? hloop).1]
      simp [fillTileSchedule]
    have hne : (fillTileSchedule p entries).tileSchedule.isEmpty = false := by
      rw [List.isEmpty_eq_false_iff]
      simpa [fillTileSchedule] using entries_ne_nil hloop hpos
    have hflags : ((fillTileSchedule p entries).tileSchedule.map (·.flags)).foldl TileFlags.or {} =
        (fillTileSchedule p entries).scheduleFlags := by
      simp [fillTileSchedule, Function.comp_def]
    have hentry : ∀ e i, (e, i) ∈ (fillTileSchedule p entries).tileSchedule.zipIdx →
        tileEntryContractMatches (fillTileSchedule p entries) i e = true := by
      intro e i he
      obtain ⟨entry, hget, rfl⟩ := fillTileSchedule_getElem? (List.mem_zipIdx_iff_getElem?.1 he)
      obtain ⟨hlt, hok⟩ := (scheduleTiles_getElem? hloop).2 i entry hget
      obtain ⟨hrow, hcol⟩ := RowMajor.div_mod_lt (hcount ▸ hlt)
      refine tileEntryContractMatches_make hok hM hN (hrows ▸ hrow) ?_ hmask rfl rfl rfl rfl rfl rfl
        (groupIndexOf_lt (List.mem_dedup.2 (List.mem_map_of_mem (List.mem_of_getElem? hget))))
      rw [← hcols]
      exact hcol
    simp only [perTileContractMatches, Bool.and_eq_true, decide_eq_true_eq, hne, Bool.false_eq_true,
      if_false, List.all_eq_true]
    exact ⟨⟨⟨⟨⟨⟨⟨⟨⟨⟨⟨hbound, hlen⟩, hboundsCount⟩, by simp [fillTileSchedule, hnone]⟩, hgroups⟩, hr⟩,
      hs⟩, hr'⟩, hs'⟩, hrr⟩, hss⟩, ⟨hlength, fun e he => hentry e.1 e.2 he⟩, hflags⟩

end TileEntries

/-! ### The contract of the whole plan -/

theorem isInputRangeBoundKind_iff {kind : BoundKind} :
    isInputRangeBoundKind kind = true ↔ kind = .inputRangeAndK := by
  cases kind <;> simp [isInputRangeBoundKind]

theorem requestedPrefix_pos {semantics : Semantics} (hrns : usesRnsStorage semantics = true)
    (maxPrefix : ℕ) : 0 < requestedPrefix semantics maxPrefix := by
  unfold requestedPrefix
  split
  · cases semantics <;> simp_all [usesRnsStorage, defaultPrefixForSemantics, defaultBoundedPrefix,
      maxSupportedPrefix]
  · omega

theorem validateGemmDesc_exactWide {desc : GemmDesc} {r : ℕ}
    (h : validateGemmDesc desc r = .success) (hs : exactWideSemantics desc.semantics = true) :
    desc.boundKind = .none ∧ desc.bound = 0 := by
  unfold validateGemmDesc at h
  simp only [hs, if_true] at h
  split at h
  · cases h
  · split at h
    · cases h
    · next hc => push Not at hc; exact hc

theorem unladdered_no_rns {semantics : Semantics}
    (hs : semantics = .wrapU64Mod2_64 ∨ usesFiniteStorage semantics = true) :
    usesRnsStorage semantics = false := by
  by_contra hcon
  exact ladder_of_not_unladdered ((Bool.not_eq_false _).mp hcon) hs

theorem scheduleRequiredRange_unladdered {desc : GemmDesc}
    (h : usesRnsStorage desc.semantics = false) : scheduleRequiredRange desc = 0 := by
  unfold scheduleRequiredRange
  revert h
  cases desc.semantics <;> simp [usesRnsStorage]

/-- The checks shared by the residue ladders hold of a created plan with a supported budget. -/
theorem ladderContractMatches_created {plan : Plan} (h : CreatedPlan plan)
    (hrns : usesRnsStorage plan.desc.semantics = true) (hpos : 0 < plan.rnsPrefix)
    (hmax : plan.desc.maxPrefix ≤ maxSupportedPrefix)
    (hproduct : plan.modulusProduct = modulusProduct plan.rnsPrefix)
    (hexact : exactWideSemantics plan.desc.semantics = true → plan.desc.bound = 0)
    (hglobal : isPerTileBoundKind plan.desc.boundKind = false → plan.desc.tileBounds = none ∧
      plan.desc.tileBoundsCount = 0 ∧ plan.desc.flags.allowProvenZeroRowColSkips = false)
    (hrange : plan.desc.boundKind ≠ .inputRangeAndK →
      plan.desc.lhsBound = 0 ∧ plan.desc.rhsBound = 0) :
    ladderContractMatches plan = true := by
  have hle := h.prefix_le
  have hfields : exactWideSemantics plan.desc.semantics = true → plan.desc.tileBounds = none ∧
      plan.desc.tileBoundsCount = 0 ∧ plan.desc.flags.allowProvenZeroRowColSkips = false ∧
      plan.desc.lhsBound = 0 ∧ plan.desc.rhsBound = 0 := by
    intro hx
    have hk := h.kindExact hx
    obtain ⟨h1, h2, h3⟩ := hglobal (by rw [hk]; rfl)
    exact ⟨h1, h2, h3, hrange (by rw [hk]; decide)⟩
  simp only [ladderContractMatches, Bool.and_eq_true, decide_eq_true_eq, Bool.not_eq_true',
    Bool.and_eq_false_imp, Bool.or_eq_false_iff, decide_eq_false_iff_not, not_not,
    isInputRangeBoundKind_iff, ← Bool.not_eq_true (isInputRangeBoundKind _)]
  refine ⟨⟨⟨⟨⟨⟨⟨⟨⟨⟨⟨hrns, hpos⟩, hle.trans hmax⟩, by omega⟩, hmax⟩, hle⟩, hproduct⟩, fun hx => ?_⟩,
    h.kindI64⟩, h.kindU64⟩, hrange⟩, h.inputRange⟩
  obtain ⟨h1, h2, h3, h4, h5⟩ := hfields hx
  exact ⟨⟨⟨⟨⟨⟨h.kindExact hx, hexact hx⟩, by simp [h1]⟩, h2⟩, h4⟩, h5⟩, h3⟩

/-- The parts of the contract that do not depend on the kind of the schedule. -/
theorem planScheduleContractMatches_created {plan : Plan} (h : CreatedPlan plan)
    (hsup : backendSupportsSemantics plan.backend plan.desc.semantics = true)
    (htiles : configuredTileSizeValid plan.desc.tileM = true ∧
      configuredTileSizeValid plan.desc.tileN = true)
    (hreserved : plan.desc.flags.reserved = false) (hmask : zeroRowColContractMatches plan = true)
    (hfit : ¬ (plan.scheduleTileCols ≠ 0 ∧
      sizeMax / plan.scheduleTileCols < plan.scheduleTileRows))
    (hunladdered : usesRnsStorage plan.desc.semantics = false → unladderedContractMatches plan = true)
    (hladder : usesRnsStorage plan.desc.semantics = true → ladderContractMatches plan = true)
    (htile : usesRnsStorage plan.desc.semantics = true →
      isPerTileBoundKind plan.desc.boundKind = true → perTileContractMatches plan = true)
    (hglobal : usesRnsStorage plan.desc.semantics = true →
      isPerTileBoundKind plan.desc.boundKind = false → globalContractMatches plan = true) :
    planScheduleContractMatches plan = true := by
  have hpos : 0 < plan.scheduleTileCount := by
    rw [h.tileCount, h.grid.tileRows, h.grid.tileCols]
    exact Nat.mul_pos (ceilDiv_pos h.m_pos h.grid.tileM_pos.ne')
      (ceilDiv_pos h.n_pos h.grid.tileN_pos.ne')
  rw [h.grid.tileRows, h.grid.tileCols] at hfit
  have hcount := h.tileCount
  rw [h.grid.tileRows, h.grid.tileCols] at hcount
  -- the last test branches on the semantics, as the four hypotheses do
  have hschedule : (if plan.desc.semantics = .wrapU64Mod2_64 ∨
        usesFiniteStorage plan.desc.semantics = true then unladderedContractMatches plan
      else ladderContractMatches plan &&
        (if isPerTileBoundKind plan.desc.boundKind then perTileContractMatches plan
        else globalContractMatches plan)) = true := by
    split
    · next hsem => exact hunladdered (unladdered_no_rns hsem)
    · next hsem =>
      have hrns := usesRnsStorage_of_supported hsup hsem
      rw [hladder hrns, Bool.true_and]
      split
      · next hk => exact htile hrns hk
      · next hk => exact hglobal hrns (Bool.eq_false_iff.2 hk)
  simp only [planScheduleContractMatches, Bool.and_eq_true, decide_eq_true_eq, Bool.not_eq_true',
    Bool.and_eq_false_imp, decide_eq_false_iff_not]
  exact ⟨⟨⟨⟨⟨⟨⟨⟨⟨⟨hsup, htiles.1⟩, htiles.2⟩, hreserved⟩, hmask⟩, h.grid.tileRows⟩,
    h.grid.tileCols⟩, fun h0 h1 => hfit ⟨h0, h1⟩⟩, hcount⟩, hpos⟩, hschedule⟩

theorem zeroRowColContractMatches_lengths {plan : Plan} (h : zeroRowColContractMatches plan = true)
    (hflag : plan.desc.flags.allowProvenZeroRowColSkips = true) :
    plan.zeroARows.length = plan.desc.m ∧ plan.zeroBCols.length = plan.desc.n := by
  simp only [zeroRowColContractMatches, hflag, Bool.not_true, Bool.false_eq_true, if_false,
    Bool.and_eq_true, decide_eq_true_eq] at h
  exact ⟨h.1.1.1.1.1.1.1.1.2, h.1.1.1.1.1.1.1.2⟩

/-- **Creation meets the contract.** Every plan created within the supported prefix passes
`plan_schedule_contract_matches`. -/
theorem rns8CreatePlan_contract {ctx : Context} {desc : GemmDesc} {plan : Plan}
    (h : rns8CreatePlan ctx desc = .ok plan)
    (hmax : requestedPrefix desc.semantics desc.maxPrefix ≤ maxSupportedPrefix) :
    planScheduleContractMatches plan = true := by
  have hcreated := rns8CreatePlan_created h
  -- the descriptor passed its checks, so its mask, its tile sizes and its bound are valid
  obtain ⟨hval, hsup, bound, hir, hnir, hconf⟩ := rns8CreatePlan_ok h
  obtain ⟨⟨hm, hn, -⟩, ⟨hres, htm, htn⟩, hglob, hmask, hlr⟩ :=
    gemmDescCommonOk_spec (validateGemmDesc_commonOk hval)
  have hvb := validateGemmDesc_validBound hval
  have hbound : desc.boundKind ≠ .inputRangeAndK → bound = desc.bound := hnir
  have htiles := And.intro (configuredTileSizeValid_default htm) (configuredTileSizeValid_default htn)
  have hM : (initialPlan desc (requestedPrefix desc.semantics desc.maxPrefix) bound
      ctx.backend).desc.tileM ≠ 0 := (defaultedTile_pos desc.tileM).ne'
  have hN : (initialPlan desc (requestedPrefix desc.semantics desc.maxPrefix) bound
      ctx.backend).desc.tileN ≠ 0 := (defaultedTile_pos desc.tileN).ne'
  -- creation branches as the contract does: no prefix, a prefix per tile, one prefix
  obtain ⟨hfit, aRows, bCols, aCount, bCount, product, hcontract, hcases⟩ :=
    configurePlanSchedule_ok hconf hM hN hmask
  rcases hcases with ⟨hsem, rfl⟩ | ⟨hsem, htile, hq⟩ | ⟨hsem, htile, hne, hle, rfl⟩
  · -- wrap and finite plans carry no prefix
    obtain ⟨hr, hb, hforce⟩ := validateGemmDesc_unladdered hval hsem
    have hrns := unladdered_no_rns hsem
    have hkind := hvb.kindOther (Or.inl hrns)
    obtain ⟨htb, htc, hzt, hzr⟩ := hglob (by rw [hkind]; rfl)
    obtain ⟨hl, hrb⟩ := hlr (by rw [hkind]; decide)
    have hb0 : bound = 0 := (hnir (by rw [hkind]; decide)).trans hb
    have hflags : desc.flags = {} := by
      cases hf : desc.flags
      simp_all
    refine planScheduleContractMatches_created hcreated hsup htiles hres hcontract hfit (fun _ => ?_)
      (fun h0 => absurd (h0.symm.trans hrns) (by decide))
      (fun h0 => absurd (h0.symm.trans hrns) (by decide))
      (fun h0 => absurd (h0.symm.trans hrns) (by decide))
    simp only [unladderedContractMatches, Bool.and_eq_true, decide_eq_true_eq, Bool.not_eq_true']
    exact ⟨⟨⟨⟨⟨⟨⟨⟨⟨⟨⟨⟨⟨⟨⟨⟨⟨⟨⟨⟨hkind, hb0⟩, hr⟩, hr⟩, if_pos hr⟩, rfl⟩, rfl⟩,
      Option.isNone_iff_eq_none.2 htb⟩, htc⟩, rfl⟩, rfl⟩, rfl⟩, rfl⟩, rfl⟩,
      congrArg bitLength (scheduleRequiredRange_unladdered hrns)⟩, rfl⟩, rfl⟩, hflags⟩, rfl⟩, hl⟩, hrb⟩
  · -- a schedule of the tiles
    have hrns := usesRnsStorage_of_supported hsup hsem
    have hnir' : desc.boundKind ≠ .inputRangeAndK := by
      rintro h0
      have htile : isPerTileBoundKind desc.boundKind = true := htile
      rw [h0] at htile
      cases htile
    obtain ⟨hd, hr, hp, hback, hrows, hcols, hcnt, hlen⟩ := configureTileSchedule_fields hq
    obtain ⟨bounds, entries, hb, hcount, hloop, hplan⟩ := configureTileSchedule_ok hq
    have hzero : zeroRowColContractMatches plan = true := by
      rw [hplan]
      split <;> exact hcontract
    have hposM := Nat.pos_of_ne_zero hM
    have hposN := Nat.pos_of_ne_zero hN
    -- the tile schedule replaces the fields of the schedule only
    refine planScheduleContractMatches_created hcreated (by rw [hback, hd]; exact hsup)
      (by rw [hd]; exact htiles) (by rw [hd]; exact hres) hzero (by rw [hrows, hcols]; exact hfit)
      (fun h0 => ?_) (fun _ => ?_) (fun _ _ => ?_) (fun _ h0 => ?_)
    · rw [hd] at h0
      exact absurd (h0.symm.trans hrns) (by decide)
    -- the prefix is the requested one, and the tile bounds stand in for the bound of the plan
    · refine ladderContractMatches_created hcreated (by rw [hd]; exact hrns)
        (by rw [hr]; exact requestedPrefix_pos hrns _) (by rw [hd]; exact hmax) ?_ (fun _ => ?_)
        (fun h0 => ?_) (fun _ => ?_)
      · rw [hp, hr]
        exact if_neg (requestedPrefix_pos hrns _).ne'
      · rw [hd]
        exact (hnir hnir').trans (hvb.perTile htile)
      · rw [hd] at h0
        exact absurd (h0.symm.trans htile) (by decide)
      · rw [hd]
        exact hlr hnir'
    -- the loop that fills the entries is the loop that checks them
    · rw [hplan]
      refine perTileContractMatches_fill hloop
        (Nat.mul_pos (ceilDiv_pos hm hM) (ceilDiv_pos hn hN)) hposM hposN rfl rfl rfl
        (zeroRowColContractMatches_lengths hcontract) ((hnir hnir').trans (hvb.perTile htile)) rfl ?_
        hcount
      simp
    · rw [hd] at h0
      exact absurd (h0.symm.trans htile) (by decide)
  · -- one bound for the whole output
    have hrns := usesRnsStorage_of_supported hsup hsem
    obtain ⟨htb, htc, hzt, hzr⟩ := hglob htile
    have hpos := requestedPrefix_pos hrns desc.maxPrefix
    refine planScheduleContractMatches_created hcreated hsup htiles hres hcontract hfit
      (fun h0 => absurd (h0.symm.trans hrns) (by decide)) (fun _ => ?_)
      (fun _ h0 => absurd (h0.symm.trans htile) (by decide)) (fun _ _ => ?_)
    -- the selected prefix is the whole one under a fixed prefix, else the required one
    · refine ladderContractMatches_created hcreated hrns ?_ hmax rfl (fun hx => ?_)
        (fun _ => ⟨htb, htc, hzr⟩) hlr
      · change 0 < if _ then _ else _
        split
        · exact hpos
        · exact Nat.pos_of_ne_zero hne
      · obtain ⟨hk, hb⟩ := validateGemmDesc_exactWide hval hx
        exact (hnir (by rw [hk]; decide)).trans hb
    · simp only [globalContractMatches, Bool.and_eq_true, decide_eq_true_eq, Bool.not_eq_true',
        Bool.or_eq_true]
      refine ⟨⟨⟨⟨⟨⟨⟨⟨⟨⟨⟨⟨⟨⟨⟨Option.isNone_iff_eq_none.2 htb, htc⟩, rfl⟩, rfl⟩, Nat.pos_of_ne_zero hne⟩,
        rfl⟩, rfl⟩, rfl⟩, rfl⟩, rfl⟩, ?_⟩, rfl⟩, ?_⟩, hzt⟩, hzr⟩, rfl⟩
      · change _ ≤ if _ then _ else _
        split
        · exact hle
        · exact le_refl _
      · cases hforce : desc.flags.forceFixedPrefix
        · exact Or.inl hforce
        · exact Or.inr (if_pos hforce)

/-- The fields that plan creation copies from the descriptor and the context. -/
theorem rns8CreatePlan_fields {ctx : Context} {desc : GemmDesc} {plan : Plan}
    (h : rns8CreatePlan ctx desc = .ok plan) :
    plan.desc.semantics = desc.semantics ∧ plan.desc.finiteModulus = desc.finiteModulus ∧
      plan.desc.boundKind = desc.boundKind ∧
      (plan.desc.m = desc.m ∧ plan.desc.n = desc.n ∧ plan.desc.k = desc.k) ∧
      plan.backend = ctx.backend := by
  obtain ⟨hval, -, bound, -, -, hconf⟩ := rns8CreatePlan_ok h
  obtain ⟨-, -, -, hmask, -⟩ := gemmDescCommonOk_spec (validateGemmDesc_commonOk hval)
  obtain ⟨-, aRows, bCols, aCount, bCount, product, -, hcases⟩ := configurePlanSchedule_ok hconf
    (defaultedTile_pos desc.tileM).ne' (defaultedTile_pos desc.tileN).ne' hmask
  rcases hcases with ⟨-, rfl⟩ | ⟨-, -, hq⟩ | ⟨-, -, -, -, rfl⟩
  · exact ⟨rfl, rfl, rfl, ⟨rfl, rfl, rfl⟩, rfl⟩
  · obtain ⟨hd, -, -, hback, -⟩ := configureTileSchedule_fields hq
    rw [hd, hback]
    exact ⟨rfl, rfl, rfl, ⟨rfl, rfl, rfl⟩, rfl⟩
  · exact ⟨rfl, rfl, rfl, ⟨rfl, rfl, rfl⟩, rfl⟩

/-- A finite descriptor that passes the checks has a valid modulus. -/
theorem validateGemmDesc_modulus {desc : GemmDesc} {r : ℕ}
    (h : validateGemmDesc desc r = .success)
    (hfin : usesFiniteStorage desc.semantics = true) :
    validFiniteModulusForSemantics desc.semantics desc.finiteModulus = true := by
  have hex : exactWideSemantics desc.semantics = false := by
    revert hfin
    cases desc.semantics <;> simp [usesFiniteStorage, exactWideSemantics]
  have hwrap : desc.semantics ≠ .wrapU64Mod2_64 := by
    intro h0
    rw [h0] at hfin
    cases hfin
  unfold validateGemmDesc at h
  simp only [hex, hwrap, hfin, Bool.false_eq_true, if_false, if_true] at h
  split at h
  · cases h
  · split at h
    · cases h
    · next hchecks =>
      push Not at hchecks
      simpa using hchecks.2.2.2.2.2

/-- A created finite plan has a valid modulus and meets the plan contract. -/
theorem rns8CreatePlan_finite {ctx : Context} {desc : GemmDesc} {plan : Plan}
    (h : rns8CreatePlan ctx desc = .ok plan)
    (hfin : usesFiniteStorage plan.desc.semantics = true) :
    validFiniteModulusForSemantics plan.desc.semantics plan.desc.finiteModulus = true ∧
      planScheduleContractMatches plan = true := by
  obtain ⟨hsem, hmodulus, -, -, -⟩ := rns8CreatePlan_fields h
  rw [hsem] at hfin ⊢
  obtain ⟨hval, -⟩ := rns8CreatePlan_ok h
  refine ⟨?_, rns8CreatePlan_contract h ?_⟩
  · rw [hmodulus]
    exact validateGemmDesc_modulus hval hfin
  · obtain ⟨hr, -⟩ := validateGemmDesc_unladdered hval (Or.inr hfin)
    rw [hr]
    exact Nat.zero_le _

end Rns8
