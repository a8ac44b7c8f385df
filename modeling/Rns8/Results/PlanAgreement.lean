import Rns8.Api.PlanMetadata
import Rns8.Plan.Admission

/-!
# Plan creation, plan validation and least prefixes

A created plan passes the contract check, its schedule (`rns8CreatePlan_contract`) and its metadata
(`rns8CreatePlanHandle_ok`). Here its prefixes are compared with what the descriptor demands, and
the range errors of plan creation with what it can grant:

* `CreatedPrefixes` — each selected prefix is the least admitted one that carries its range, or the
  whole budget when the prefix is forced;
* `RangeShortfall` — some demanded range has no admitted prefix, or some count does not fit;
* `GemmDesc.Admitted` — every other check passes, so that a range error is the one way to fail.
-/

namespace Rns8

/-! ### What a descriptor demands -/

/-- The largest magnitude that the output of an input-range descriptor can reach. -/
def GemmDesc.inputRangeProduct (desc : GemmDesc) : ℕ := desc.k * desc.lhsBound * desc.rhsBound

/-- The range that a descriptor with one bound for its whole output demands of a prefix: twice a
signed bound, an unsigned bound, or the type range scaled by `k`. -/
def GemmDesc.demandedRange (desc : GemmDesc) : ℕ :=
  let bound := if desc.boundKind = .inputRangeAndK then desc.inputRangeProduct else desc.bound
  match desc.semantics with
  | .boundedI64 => 2 * bound
  | .boundedU64 => bound
  | .exactWideSigned => desc.k * 2 ^ 127
  | .exactWideUnsigned => desc.k * 2 ^ 128
  | _ => 0

/-- The prefix selected for a tile: that of its schedule entry, or the plan's when the plan carries
no schedule. -/
def selectedPrefixForTile (plan : Plan) (index : ℕ) : ℕ :=
  match plan.tileSchedule[index]? with
  | some entry => entry.selectedPrefix
  | none => plan.rnsPrefix

/-- The selected prefix is the least admitted one that carries the range, or the whole budget when
the descriptor forces it. -/
def SelectsLeast (desc : GemmDesc) (range selected : ℕ) : Prop :=
  ∃ p, IsLeast (carryingPrefixes range desc.budget) p ∧
    selected = if desc.flags.forceFixedPrefix then desc.budget else p

/-- **Least prefixes.** The prefixes of a plan are the least ones for the ranges of its
descriptor. -/
structure CreatedPrefixes (desc : GemmDesc) (plan : Plan) : Prop where
  global : isPerTileBoundKind desc.boundKind = false →
    SelectsLeast desc desc.demandedRange plan.rnsPrefix
  perTile : isPerTileBoundKind desc.boundKind = true → plan.rnsPrefix = desc.budget ∧
    ∃ bounds, desc.tileBounds = some bounds ∧ desc.tileBoundsCount = plan.scheduleTileCount ∧
      ∀ index < plan.scheduleTileCount,
        SelectsLeast desc (boundedRangeFromBound desc.semantics (bounds index))
          (selectedPrefixForTile plan index)

/-- The range of a plan being scheduled is the demanded one. -/
theorem scheduleRequiredRange_eq_demandedRange {desc : GemmDesc}
    (h : desc.boundKind = .inputRangeAndK → inputRangeOutputBound desc ≠ none) :
    scheduleRequiredRange desc = desc.demandedRange := by
  by_cases hk : desc.boundKind = .inputRangeAndK
  · obtain ⟨bound, hb⟩ := Option.ne_none_iff_exists'.1 (h hk)
    have hval : bound = desc.inputRangeProduct := by
      unfold inputRangeOutputBound at hb
      split_ifs at hb
      exact (Option.some.inj hb).symm
    unfold scheduleRequiredRange GemmDesc.demandedRange
    cases desc.semantics <;> simp [hk, hb, hval, boundedRangeFromBound]
  · unfold scheduleRequiredRange GemmDesc.demandedRange
    cases desc.semantics <;> simp [hk, boundedRangeFromBound]

/-- The scheduled range does not depend on the fields that plan creation fills in. -/
theorem scheduleRequiredRange_congr {d d' : GemmDesc} (h1 : d'.boundKind = d.boundKind)
    (h2 : d'.semantics = d.semantics) (h3 : d'.k = d.k) (h4 : d'.lhsBound = d.lhsBound)
    (h5 : d'.rhsBound = d.rhsBound) (hb : d.boundKind ≠ .inputRangeAndK → d'.bound = d.bound) :
    scheduleRequiredRange d' = scheduleRequiredRange d := by
  unfold scheduleRequiredRange
  rw [inputRangeOutputBound_congr h1 h2 h3 h4 h5, h1, h2, h3]
  by_cases hk : d.boundKind = .inputRangeAndK
  · simp only [hk, if_true]
  · simp only [hk, if_false, hb hk]

/-- The range that a plan is scheduled for is the one its descriptor demands. -/
theorem scheduledRange_eq {desc : GemmDesc} {bound : ℕ}
    (hir : desc.boundKind = .inputRangeAndK → inputRangeOutputBound desc = some bound)
    (hnir : desc.boundKind ≠ .inputRangeAndK → bound = desc.bound) (backend : BackendKind)
    (aRows bCols : List ℕ) (aCount bCount product : ℕ) :
    scheduleRequiredRange ((initialPlan desc desc.budget bound backend).withGrid.withMasks aRows
      bCols aCount bCount product).desc = desc.demandedRange := by
  rw [← scheduleRequiredRange_eq_demandedRange fun hk => by simp [hir hk]]
  exact scheduleRequiredRange_congr rfl rfl rfl rfl rfl hnir

/-- The selected prefix of a scheduled tile is the least one for its bound. -/
theorem TileChoice.selectsLeast {p : Plan} {desc : GemmDesc} {index : ℕ}
    {entry : TileScheduleEntry} (h : TileChoice p index entry)
    (hsem : p.desc.semantics = desc.semantics) (hflags : p.desc.flags = desc.flags)
    (hbudget : p.rnsPrefix = desc.budget) :
    SelectsLeast desc (boundedRangeFromBound desc.semantics (p.tileBounds.getD index 0))
      entry.selectedPrefix := by
  have hne := h.required_ne
  have hle := h.required_le
  rw [h.required, hsem] at hne hle
  rw [hbudget] at hle
  refine ⟨_, requiredPrefixForRange_isLeast hne hle, ?_⟩
  rw [h.selected, h.required, hsem, hflags, hbudget]

/-- **Creation selects least prefixes.** -/
theorem rns8CreatePlan_prefixes {ctx : Context} {desc : GemmDesc} {plan : Plan}
    (h : rns8CreatePlan ctx desc = .ok plan) (hrns : usesRnsStorage desc.semantics = true) :
    CreatedPrefixes desc plan := by
  have hcreated := rns8CreatePlan_created h
  obtain ⟨hval, hsup, bound, hir, hnir, hconf⟩ := rns8CreatePlan_ok h
  obtain ⟨-, -, -, hmask, -⟩ := gemmDescCommonOk_spec (validateGemmDesc_commonOk hval)
  obtain ⟨-, aRows, bCols, aCount, bCount, product, -, hcases⟩ := configurePlanSchedule_ok hconf
    (defaultedTile_pos desc.tileM).ne' (defaultedTile_pos desc.tileN).ne' hmask
  rcases hcases with ⟨hsem, -⟩ | ⟨hsem, htile, hq⟩ | ⟨hsem, htile, hne, hle, rfl⟩
  · exact absurd hsem (ladder_of_not_unladdered hrns)
  · obtain ⟨hd, hr, -, -, -, -, hcnt, hlen⟩ := configureTileSchedule_fields hq
    obtain ⟨bounds, entries, hb, hcount, -, hplan⟩ := configureTileSchedule_ok hq
    have hts := hcreated.perTile (by rw [hd]; exact hrns) (by rw [hd]; exact htile)
    have hbounds : plan.tileBounds = (List.range desc.tileBoundsCount).map bounds := by
      rw [hplan]
      split <;> rfl
    have hcount' : desc.tileBoundsCount = plan.scheduleTileCount := hcount.trans hcnt.symm
    refine ⟨fun h0 => absurd (h0.symm.trans htile) (by decide),
      fun _ => ⟨hr, bounds, hb, hcount', fun index hindex => ?_⟩⟩
    have hget : plan.tileBounds.getD index 0 = bounds index := by
      simp [hbounds, List.getD, hcount' ▸ hindex]
    have hleast : ∀ entry, TileChoice plan index entry → SelectsLeast desc
        (boundedRangeFromBound desc.semantics (bounds index)) entry.selectedPrefix := by
      intro entry hchoice
      rw [← hget]
      exact hchoice.selectsLeast (by rw [hd]; rfl) (by rw [hd]; rfl) hr
    by_cases hnil : plan.tileSchedule = []
    · obtain ⟨entry, hchoice, hsel⟩ := (hts.dropped hnil).2 index hindex
      rw [selectedPrefixForTile, hnil, List.getElem?_nil, ← hsel]
      exact hleast entry hchoice
    · have hlt : index < plan.tileSchedule.length := by rw [hlen hnil]; exact hindex
      have hentry := List.getElem?_eq_getElem hlt
      rw [selectedPrefixForTile, hentry]
      exact hleast _ (hts.choice index _ hentry).1
  · have hrange := scheduledRange_eq hir hnir ctx.backend aRows bCols aCount bCount product
    refine ⟨fun _ => ⟨_, requiredPrefixForRange_isLeast (hrange ▸ hne) (hrange ▸ hle), ?_⟩,
      fun h0 => absurd (h0.symm.trans htile) (by decide)⟩
    rw [← hrange]
    rfl

/-! ### What plan creation cannot grant -/

/-- A count of masked products, or a dimension, exceeds the machine word. -/
def maskProductsOverflow (m n : ℕ) (aRows bCols : ℕ → ℕ) : Prop :=
  let zeroARows := countSetMaskValues ((List.range m).map aRows)
  let zeroBCols := countSetMaskValues ((List.range n).map bCols)
  sizeMax < m ∨ sizeMax < n ∨ sizeMax < zeroARows * n ∨ sizeMax < (m - zeroARows) * zeroBCols

/-- **A range shortfall.** No admitted prefix carries the range of the output or of some tile, the
output of an input-range descriptor exceeds its element type, or a count exceeds the machine
word. -/
inductive RangeShortfall (desc : GemmDesc) : Prop
  | output (hrns : usesRnsStorage desc.semantics = true)
      (hkind : isPerTileBoundKind desc.boundKind = false)
      (hempty : carryingPrefixes desc.demandedRange desc.budget = ∅)
  | tile (hkind : isPerTileBoundKind desc.boundKind = true) (bounds : ℕ → ℕ) (index : ℕ)
      (hbounds : desc.tileBounds = some bounds) (hindex : index < desc.tileBoundsCount)
      (hempty : carryingPrefixes (boundedRangeFromBound desc.semantics (bounds index))
        desc.budget = ∅)
  | element (hkind : desc.boundKind = .inputRangeAndK)
      (hlarge : maxOutputBound desc.semantics < desc.inputRangeProduct ∨
        (desc.semantics = .boundedI64 ∧ (2 ^ 63 < desc.lhsBound ∨ 2 ^ 63 < desc.rhsBound)))
  | tiles (hcount : sizeMax < desc.tileCount)
  | masks (aRows bCols : ℕ → ℕ) (hrows : desc.zeroARows = some aRows)
      (hcols : desc.zeroBCols = some bCols)
      (hflag : desc.flags.allowProvenZeroRowColSkips = true)
      (hcount : maskProductsOverflow desc.m desc.n aRows bCols)

/-- The overflow test of the source, by a division. -/
theorem div_lt_iff_overflow {a b : ℕ} : (a ≠ 0 ∧ sizeMax / a < b) ↔ sizeMax < a * b := by
  rcases Nat.eq_zero_or_pos a with rfl | ha
  · simp
  · rw [Nat.div_lt_iff_lt_mul ha, Nat.mul_comm]
    exact ⟨And.right, fun h => ⟨ha.ne', h⟩⟩

/-- A range that the product of the whole budget does not exceed has no admitted prefix. -/
theorem carryingPrefixes_eq_empty_of_le {range budget : ℕ} (hb : budget ≤ 28)
    (h : modulusProduct budget ≤ range) : carryingPrefixes range budget = ∅ := by
  rw [Set.eq_empty_iff_forall_notMem]
  rintro p ⟨-, hp, hlt⟩
  exact absurd ((modulusProduct_le hp hb).trans h) (not_le.2 hlt)

/-- The input-range bound is missing only where the output exceeds its element type. -/
theorem rangeShortfall_of_inputRange {desc : GemmDesc} (hk : 0 < desc.k)
    (hkind : desc.boundKind = .inputRangeAndK)
    (hsem : desc.semantics = .boundedI64 ∨ desc.semantics = .boundedU64)
    (h : inputRangeOutputBound desc = none) : RangeShortfall desc := by
  refine .element hkind ?_
  unfold inputRangeOutputBound at h
  split_ifs at h with h1 h2 h3
  · rcases h1 with h1 | h1 | h1
    · exact absurd hkind h1
    · exact absurd hsem (by tauto)
    · omega
  · exact Or.inr h2
  · exact Or.inl h3

/-- The bound contract answers a range error only where the budget does not carry the bound. -/
theorem validateBoundContract_rangeError {semantics : Semantics} {boundKind : BoundKind}
    {bound r : ℕ} (h : validateBoundContract semantics boundKind bound r = .rangeError) :
    r ≤ maxSupportedPrefix ∧ isPerTileBoundKind boundKind = false ∧
      boundKind ≠ .inputRangeAndK ∧ (semantics = .boundedI64 ∨ semantics = .boundedU64) ∧
      modulusProduct r ≤ boundedRangeFromBound semantics bound := by
  unfold validateBoundContract at h
  split at h
  · cases h
  · split at h
    · cases h
    · next hr =>
      cases semantics <;> simp only [reduceCtorEq] at h <;> cases boundKind <;>
        simp only [reduceCtorEq] at h <;> split_ifs at h <;>
        simp_all [boundedRangeFromBound, isPerTileBoundKind]

/-- The descriptor checks answer a range error only on a shortfall. -/
theorem rangeShortfall_of_validate {desc : GemmDesc} (hbudget : desc.budget ≤ maxSupportedPrefix)
    (h : validateGemmDesc desc desc.budget = .rangeError) : RangeShortfall desc := by
  have h28 : desc.budget ≤ 28 := hbudget.trans (by decide)
  -- the checks in their order; the range error comes from the carrying tests only
  unfold validateGemmDesc at h
  split at h
  · cases h
  · next hok =>
    have hcommon : gemmDescCommonOk desc = true := by simpa using hok
    obtain ⟨⟨-, -, hk⟩, -⟩ := gemmDescCommonOk_spec hcommon
    split at h
    · next hex =>
      split at h
      · cases h
      · next hkind =>
        split at h
        · cases h
        · split at h
          · cases h
          · next hcarry =>
            push Not at hkind
            have hrange : scheduleRequiredRange desc = desc.demandedRange :=
              scheduleRequiredRange_eq_demandedRange (by rw [hkind.1]; rintro ⟨⟩)
            -- exact-wide: the budget does not carry the requested range
            refine .output ?_ (by rw [hkind.1]; rfl)
              (carryingPrefixes_eq_empty_of_le h28 (hrange ▸ not_lt.1 hcarry))
            revert hex
            cases desc.semantics <;> simp [exactWideSemantics, usesRnsStorage]
    · split at h
      · split at h <;> cases h
      · split at h
        · split at h <;> cases h
        · split at h
          · next hkind =>
            split at h
            · cases h
            · next hchecks =>
              push Not at hchecks
              have hsem : desc.semantics = .boundedI64 ∨ desc.semantics = .boundedU64 :=
                or_iff_not_imp_left.2 hchecks.2.2.2
              split at h
              -- no bound can be derived from the inputs
              · next hnone => exact rangeShortfall_of_inputRange hk hkind hsem hnone
              · next bound hsome =>
                split at h
                · cases h
                · next hcarry =>
                  -- a derived bound, not carried
                  have hrange : scheduleRequiredRange desc = desc.demandedRange :=
                    scheduleRequiredRange_eq_demandedRange fun _ => by simp [hsome]
                  have heq : scheduleRequiredRange desc =
                      boundedRangeFromBound desc.semantics bound := by
                    rcases hsem with hs | hs <;> simp [scheduleRequiredRange, hs, hkind, hsome]
                  refine .output ?_ (by rw [hkind]; rfl) (carryingPrefixes_eq_empty_of_le h28 ?_)
                  · rcases hsem with hs | hs <;> simp [hs, usesRnsStorage]
                  · rw [← hrange, heq]
                    exact not_lt.1 hcarry
          · next hkind =>
            -- a given bound, not carried
            obtain ⟨-, htile, hnir, hsem, hle⟩ := validateBoundContract_rangeError h
            have hrange : desc.demandedRange = boundedRangeFromBound desc.semantics desc.bound := by
              rcases hsem with hs | hs <;>
                simp [GemmDesc.demandedRange, hs, hnir, boundedRangeFromBound]
            refine .output ?_ htile (carryingPrefixes_eq_empty_of_le h28 (hrange ▸ hle))
            rcases hsem with hs | hs <;> simp [hs, usesRnsStorage]

/-- The mask part of plan creation answers a range error just when a count overflows. -/
theorem configureZeroMasks_rangeError {p : Plan} (h : configureZeroMasks p = .error .rangeError) :
    p.desc.flags.allowProvenZeroRowColSkips = true ∧ ∃ aRows bCols, p.desc.zeroARows = some aRows ∧
      p.desc.zeroBCols = some bCols ∧ maskProductsOverflow p.desc.m p.desc.n aRows bCols := by
  unfold configureZeroMasks at h
  split at h
  · next hflag =>
    refine ⟨hflag, ?_⟩
    split at h
    · next aRows bCols ha hb =>
      refine ⟨aRows, bCols, ha, hb, ?_⟩
      split at h
      · cases h
      · next hshape =>
        push Not at hshape
        obtain ⟨-, -, hm, hn⟩ := hshape
        rw [hm, hn] at h
        dsimp only at h
        split at h
        · next hdim => exact hdim.elim Or.inl fun h0 => Or.inr (Or.inl h0)
        · split at h
          · next hov => exact Or.inr (Or.inr (Or.inl (div_lt_iff_overflow.1 hov)))
          · split at h
            · next hov =>
              have := div_lt_iff_overflow.1 hov
              rw [Nat.mul_comm] at this
              exact Or.inr (Or.inr (Or.inr this))
            · cases h
    · cases h
  · cases h

/-- Where the mask part succeeds, no count overflows. -/
theorem configureZeroMasks_fits {p q : Plan} (h : configureZeroMasks p = .ok q)
    (hflag : p.desc.flags.allowProvenZeroRowColSkips = true) {aRows bCols : ℕ → ℕ}
    (ha : p.desc.zeroARows = some aRows) (hb : p.desc.zeroBCols = some bCols) :
    ¬ maskProductsOverflow p.desc.m p.desc.n aRows bCols := by
  simp only [configureZeroMasks, hflag, if_true, ha, hb] at h
  split at h
  · cases h
  · next hshape =>
    push Not at hshape
    obtain ⟨-, -, hm, hn⟩ := hshape
    rw [hm, hn] at h
    split at h
    · cases h
    · next hdim =>
      split at h
      · cases h
      · next hrow =>
        split at h
        · cases h
        · next hcol =>
          rw [div_lt_iff_overflow] at hrow hcol
          rw [Nat.mul_comm] at hcol
          push Not at hdim
          rintro (h0 | h0 | h0 | h0)
          · exact absurd h0 (not_lt.2 hdim.1)
          · exact absurd h0 (not_lt.2 hdim.2)
          · exact hrow h0
          · exact hcol h0

/-- An error of the tile loop is the error of one of its passes. -/
theorem scheduleTiles_error {p : Plan} {count : ℕ} {status : Status}
    (h : scheduleTiles p count = .error status) :
    ∃ index < count, scheduleTile p index = .error status := by
  induction count with
  | zero => cases h
  | succ count ih =>
    unfold scheduleTiles at h
    split at h
    · next hprev =>
      obtain ⟨index, hlt, herr⟩ := ih (hprev.trans (by rw [Except.error.inj h]))
      exact ⟨index, Nat.lt_succ_of_lt hlt, herr⟩
    · split at h
      · next hpass => exact ⟨count, Nat.lt_succ_self _, hpass.trans (by rw [Except.error.inj h])⟩
      · cases h

/-- A pass of the tile loop answers a range error only where no admitted prefix carries the
bound of the tile. -/
theorem scheduleTile_rangeError {p : Plan} {index : ℕ}
    (h : scheduleTile p index = .error .rangeError) (hmax : p.rnsPrefix ≤ maxSupportedPrefix) :
    carryingPrefixes (boundedRangeFromBound p.desc.semantics (p.tileBounds.getD index 0))
      p.rnsPrefix = ∅ := by
  unfold scheduleTile at h
  dsimp only at h
  split at h
  · cases h
  · split at h
    · next hreq => exact (carryingPrefixes_eq_empty_iff hmax).2 hreq
    · cases h

/-- The per-tile part answers a range error only where some tile has no admitted prefix. -/
theorem configureTileSchedule_rangeError {p : Plan}
    (h : configureTileSchedule p = .error .rangeError) (hmax : p.rnsPrefix ≤ maxSupportedPrefix) :
    ∃ bounds, p.desc.tileBounds = some bounds ∧ ∃ index < p.desc.tileBoundsCount,
      carryingPrefixes (boundedRangeFromBound p.desc.semantics (bounds index)) p.rnsPrefix = ∅ := by
  unfold configureTileSchedule at h
  split at h
  · cases h
  · next bounds hb =>
    split at h
    · cases h
    · next hcount =>
      dsimp only at h
      split at h
      · next hloop =>
        obtain ⟨index, hlt, herr⟩ := scheduleTiles_error hloop
        rw [Except.error.inj h] at herr
        have hlt' : index < p.desc.tileBoundsCount := by rw [not_not.1 hcount]; exact hlt
        have hempty := scheduleTile_rangeError herr hmax
        refine ⟨bounds, hb, index, hlt', ?_⟩
        simpa [List.getD, hlt'] using hempty
      · cases h

/-- The schedule of a validated descriptor answers a range error only on a shortfall. -/
theorem rangeShortfall_of_schedule {desc : GemmDesc} {bound : ℕ} {backend : BackendKind}
    (hval : validateGemmDesc desc desc.budget = .success)
    (hbudget : desc.budget ≤ maxSupportedPrefix) (hsup : backendSupportsSemantics backend
      desc.semantics = true)
    (hir : desc.boundKind = .inputRangeAndK → inputRangeOutputBound desc = some bound)
    (hnir : desc.boundKind ≠ .inputRangeAndK → bound = desc.bound)
    (h : configurePlanSchedule (initialPlan desc desc.budget bound backend) = .error .rangeError) :
    RangeShortfall desc := by
  obtain ⟨-, -, -, hmask, -⟩ := gemmDescCommonOk_spec (validateGemmDesc_commonOk hval)
  have hM : (initialPlan desc desc.budget bound backend).desc.tileM ≠ 0 :=
    (defaultedTile_pos desc.tileM).ne'
  have hN : (initialPlan desc desc.budget bound backend).desc.tileN ≠ 0 :=
    (defaultedTile_pos desc.tileN).ne'
  simp only [configurePlanSchedule, hM, hN, if_false] at h
  split at h
  -- too many tiles to count
  · next hov =>
    refine .tiles ?_
    have := div_lt_iff_overflow.1 hov
    rw [Nat.mul_comm] at this
    exact this
  · split at h
    -- the masks skip more products than can be counted
    · next hmasks =>
      obtain ⟨hflag, aRows, bCols, ha, hb, hover⟩ :=
        configureZeroMasks_rangeError (hmasks.trans (by rw [Except.error.inj h]))
      exact .masks aRows bCols ha hb hflag hover
    · next p₁ hp₁ =>
      obtain ⟨⟨aRows, bCols, aCount, bCount, product, rfl⟩, -⟩ := configureZeroMasks_ok hp₁ hmask
      split at h
      · cases h
      · next hsem =>
        split at h
        · next htile =>
          split at h
          · next hcount => exact .tiles hcount
          -- a tile that no prefix within the budget carries
          · obtain ⟨bounds, hb, index, hlt, hempty⟩ := configureTileSchedule_rangeError h hbudget
            exact .tile htile bounds index hb hlt hempty
        · next htile =>
          have htile' : isPerTileBoundKind desc.boundKind = false := Bool.eq_false_iff.2 htile
          split at h
          · next hreq =>
            -- the output as a whole
            refine .output (usesRnsStorage_of_supported hsup hsem) htile' ?_
            have hempty := (carryingPrefixes_eq_empty_iff hbudget).2 hreq
            have hrange := scheduledRange_eq hir hnir backend aRows bCols aCount bCount product
            exact (congrArg (carryingPrefixes · desc.budget) hrange).symm.trans hempty
          · cases h

/-- **Range errors are shortfalls.** -/
theorem rangeShortfall_of_error {ctx : Context} {desc : GemmDesc}
    (hbudget : desc.budget ≤ maxSupportedPrefix)
    (h : rns8CreatePlan ctx desc = .error .rangeError) : RangeShortfall desc := by
  unfold rns8CreatePlan at h
  dsimp only at h
  split at h
  · cases h
  · split at h
    · exact rangeShortfall_of_validate hbudget (Except.error.inj h)
    · next hval =>
      have hval : validateGemmDesc desc desc.budget = .success := not_not.1 hval
      split at h
      · cases h
      · split at h
        · cases h
        · next hsup =>
          split at h
          · cases h
          · split at h
            · next hnone =>
              split at hnone
              · next hkind =>
                obtain ⟨⟨-, -, hk⟩, -⟩ := gemmDescCommonOk_spec (validateGemmDesc_commonOk hval)
                have hvb := validateGemmDesc_validBound hval
                refine rangeShortfall_of_inputRange hk hkind ?_ hnone
                by_contra hsem
                have hother : desc.boundKind = .none := hvb.kindOther (by
                  revert hsem
                  cases desc.semantics <;> simp [usesRnsStorage, exactWideSemantics])
                rw [hkind] at hother
                cases hother
              · cases hnone
            · next bound hbound =>
              refine rangeShortfall_of_schedule hval hbudget (by simpa using hsup) (fun hk => ?_)
                (fun hk => ?_) h
              · simpa [hk] using hbound
              · simpa [hk] using hbound.symm

theorem SelectsLeast.nonempty {desc : GemmDesc} {range selected : ℕ}
    (h : SelectsLeast desc range selected) : carryingPrefixes range desc.budget ≠ ∅ := by
  obtain ⟨p, hp, -⟩ := h
  exact Set.nonempty_iff_ne_empty.1 ⟨p, hp.1⟩

/-- A scheduled plan passed the mask part of its creation. -/
theorem configurePlanSchedule_masks {p q : Plan} (h : configurePlanSchedule p = .ok q)
    (hM : p.desc.tileM ≠ 0) (hN : p.desc.tileN ≠ 0) :
    ∃ q', configureZeroMasks p.withGrid = .ok q' := by
  simp only [configurePlanSchedule, hM, hN, if_false] at h
  split at h
  · cases h
  · split at h
    · cases h
    · next q' hq' => exact ⟨q', hq'⟩

/-- **A created plan has no shortfall.** -/
theorem not_rangeShortfall_of_ok {ctx : Context} {desc : GemmDesc} {plan : Plan}
    (h : rns8CreatePlan ctx desc = .ok plan) : ¬ RangeShortfall desc := by
  have hM : 0 < (if desc.tileM = 0 then 128 else desc.tileM) := defaultedTile_pos desc.tileM
  have hN : 0 < (if desc.tileN = 0 then 128 else desc.tileN) := defaultedTile_pos desc.tileN
  obtain ⟨hval, hsup, bound, hir, hnir, hconf⟩ := rns8CreatePlan_ok h
  obtain ⟨-, -, -, hmask, -⟩ := gemmDescCommonOk_spec (validateGemmDesc_commonOk hval)
  have hvb := validateGemmDesc_validBound hval
  intro hshort
  cases hshort with
  | output hrns hkind hempty => exact ((rns8CreatePlan_prefixes h hrns).global hkind).nonempty hempty
  | tile hkind bounds index hbounds hindex hempty =>
    have hrns : usesRnsStorage desc.semantics = true := by
      by_contra hcon
      rw [hvb.kindOther (Or.inl (Bool.eq_false_iff.2 hcon))] at hkind
      cases hkind
    obtain ⟨-, bounds', hbounds', hcount, hleast⟩ := (rns8CreatePlan_prefixes h hrns).perTile hkind
    obtain rfl : bounds' = bounds := Option.some.inj (hbounds'.symm.trans hbounds)
    exact (hleast index (hcount ▸ hindex)).nonempty hempty
  | element hkind hlarge =>
    have hsome := hir hkind
    unfold inputRangeOutputBound at hsome
    split_ifs at hsome with h1 h2 h3
    rcases hlarge with hlarge | hlarge
    · exact h3 hlarge
    · exact h2 hlarge
  | tiles hcount =>
    obtain ⟨hfit, -⟩ := configurePlanSchedule_ok hconf hM.ne' hN.ne' hmask
    refine hfit (div_lt_iff_overflow.2 ?_)
    rw [Nat.mul_comm]
    exact hcount
  | masks aRows bCols ha hb hflag hcount =>
    obtain ⟨q', hq'⟩ := configurePlanSchedule_masks hconf hM.ne' hN.ne'
    exact configureZeroMasks_fits hq' hflag ha hb hcount

/-! ### The automatic backend -/

section AutoBackend

variable {τ : Type} [LT τ] [DecidableLT τ]

/-- The best candidate is one of the candidates. -/
theorem bestCandidate_mem {hit : BackendKind → Option τ} {candidates : List BackendKind}
    {best : Option (BackendKind × τ)} {c : BackendKind × τ}
    (h : bestCandidate hit candidates best = some c) :
    c.1 ∈ candidates ∨ best = some c := by
  induction candidates generalizing best with
  | nil => exact Or.inr h
  | cons candidate rest ih =>
    unfold bestCandidate at h
    split at h
    · rcases ih h with hc | hc
      · exact Or.inl (List.mem_cons_of_mem _ hc)
      · exact Or.inr hc
    · rcases ih h with hc | hc
      · exact Or.inl (List.mem_cons_of_mem _ hc)
      · exact Or.inl (List.mem_cons.2 (Or.inl (congrArg Prod.fst (Option.some.inj hc)).symm))
    · rcases ih h with hc | hc
      · exact Or.inl (List.mem_cons_of_mem _ hc)
      · split at hc
        · exact Or.inl (List.mem_cons.2 (Or.inl (congrArg Prod.fst (Option.some.inj hc)).symm))
        · exact Or.inr hc

/-- The automatic choice only replaces the backend, by one that supports the plan. -/
theorem selectAutoBackend_cases (hit : Plan → Option τ) (ctx : Context) (plan : Plan) :
    selectAutoBackend hit ctx plan = plan ∨
      ∃ backend, backendSupportsSemantics backend plan.desc.semantics = true ∧
        selectAutoBackend hit ctx plan = { plan with backend } := by
  unfold selectAutoBackend
  split
  · exact Or.inl rfl
  · dsimp only
    split
    · exact Or.inl rfl
    · next best hbest =>
      rcases bestCandidate_mem hbest with hmem | hnone
      · obtain ⟨-, hok⟩ := List.mem_filter.1 hmem
        exact Or.inr ⟨best.1, (Bool.and_eq_true _ _ ▸ hok).1, rfl⟩
      · cases hnone

/-- The contract looks at the backend only to ask whether it supports the semantics. -/
theorem planScheduleContractMatches_backend {plan : Plan} {backend : BackendKind}
    (h : planScheduleContractMatches plan = true)
    (hsup : backendSupportsSemantics backend plan.desc.semantics = true) :
    planScheduleContractMatches { plan with backend } = true := by
  simp only [planScheduleContractMatches, Bool.and_eq_true] at h ⊢
  obtain ⟨⟨⟨⟨⟨⟨⟨⟨⟨⟨-, h1⟩, h2⟩, h3⟩, h4⟩, h5⟩, h6⟩, h7⟩, h8⟩, h9⟩, h10⟩ := h
  exact ⟨⟨⟨⟨⟨⟨⟨⟨⟨⟨hsup, h1⟩, h2⟩, h3⟩, h4⟩, h5⟩, h6⟩, h7⟩, h8⟩, h9⟩, h10⟩

/-! ### The result -/

/-- **A range error is a shortfall**, and for an admitted descriptor the two are the same and the one
way to fail. -/
theorem rns8CreatePlan_outcome {ctx : Context} {desc : GemmDesc}
    (hbudget : desc.budget ≤ maxSupportedPrefix) :
    (rns8CreatePlan ctx desc = .error .rangeError → RangeShortfall desc) ∧
      (RangeShortfall desc → ∃ status, rns8CreatePlan ctx desc = .error status) ∧
      ((∃ plan, rns8CreatePlan ctx desc = .ok plan) ↔
        desc.Admitted ctx ∧ ¬ RangeShortfall desc) ∧
      (desc.Admitted ctx →
        (rns8CreatePlan ctx desc = .error .rangeError ↔ RangeShortfall desc)) := by
  have hok : ∀ plan, rns8CreatePlan ctx desc = .ok plan → ¬ RangeShortfall desc :=
    fun plan => not_rangeShortfall_of_ok
  have herror : rns8CreatePlan ctx desc = .error .rangeError → RangeShortfall desc :=
    rangeShortfall_of_error hbudget
  refine ⟨herror, fun hshort => ?_, ⟨fun ⟨plan, h⟩ => ⟨admitted_of_ok h, hok plan h⟩, ?_⟩,
    fun hadmitted => ⟨herror, fun hshort => ?_⟩⟩
  · cases hcreate : rns8CreatePlan ctx desc with
    | error status => exact ⟨status, rfl⟩
    | ok plan => exact absurd hshort (hok plan hcreate)
  · rintro ⟨hadmitted, hfits⟩
    exact (hadmitted.ok_or_rangeError hbudget).resolve_right fun h => hfits (herror h)
  · exact (hadmitted.ok_or_rangeError hbudget).resolve_left fun ⟨plan, h⟩ => hok plan h hshort

/-- **Creation and validation agree, and prefixes are least.** With any build, context and autotune
cache, a plan created within the supported prefix passes the whole contract check and selects least
prefixes. Creation answers a range error only on a shortfall and makes no plan on one; a descriptor
that passes the other checks is refused with a range error exactly when there is a shortfall, and
planned exactly when there is none. -/
theorem planCreation_agrees (env : AutoBackendEnv τ) (ctx : Context) (report : ContextReport)
    (desc : GemmDesc) (hbudget : desc.budget ≤ maxSupportedPrefix) :
    (∀ handle, rns8CreatePlanHandle env ctx report desc = .ok handle →
      planContractMatches env.metadata handle = true ∧
        (usesRnsStorage desc.semantics = true → CreatedPrefixes desc handle.plan)) ∧
      (rns8CreatePlanHandle env ctx report desc = .error .rangeError → RangeShortfall desc) ∧
      (RangeShortfall desc → ∃ status, rns8CreatePlanHandle env ctx report desc = .error status) ∧
      (desc.Admitted ctx →
        (rns8CreatePlanHandle env ctx report desc = .error .rangeError ↔ RangeShortfall desc)) ∧
      ((∃ handle, rns8CreatePlanHandle env ctx report desc = .ok handle) ↔
        desc.Admitted ctx ∧ ¬ RangeShortfall desc) := by
  simp only [rns8CreatePlanHandle_error_iff]
  obtain ⟨herror, hshort, hmade, hrange⟩ := @rns8CreatePlan_outcome ctx desc hbudget
  refine ⟨fun handle h => ?_, herror, hshort, hrange, ?_⟩
  · obtain ⟨created, hcreate, hplan, hmetadata⟩ := rns8CreatePlanHandle_ok h
    have hcontract := rns8CreatePlan_contract hcreate hbudget
    simp only [planContractMatches, hmetadata, Bool.and_true]
    rcases hplan with hplan | ⟨backend, hsup, hplan⟩ <;> rw [hplan]
    · exact ⟨hcontract, rns8CreatePlan_prefixes hcreate⟩
    · refine ⟨planScheduleContractMatches_backend hcontract hsup, fun hrns => ?_⟩
      obtain ⟨hglobal, htile⟩ := rns8CreatePlan_prefixes hcreate hrns
      exact ⟨hglobal, htile⟩
  · rw [← hmade]
    unfold rns8CreatePlanHandle
    cases rns8CreatePlan ctx desc <;> simp

end AutoBackend

/-- A signed product with one global bound of `1000`. -/
def thousandDesc : GemmDesc where
  semantics := .boundedI64
  boundKind := .globalMaxAbs
  requestedBackend := .cpuReference
  m := 1
  n := 1
  k := 1
  bound := 1000

/-- A build and a cache that is empty. -/
def emptyCacheEnv : AutoBackendEnv ℕ where
  probe := fun _ => false
  createHipblaslt := none
  lookup := fun _ => none

theorem planCreation_agrees_thousand :
    ∃ handle ∈ (rns8CreatePlanHandle emptyCacheEnv .cpu {} thousandDesc).toOption,
      planContractMatches {} handle = true ∧ CreatedPrefixes thousandDesc handle.plan := by
  obtain ⟨hok, -⟩ := planCreation_agrees emptyCacheEnv .cpu {} thousandDesc (by decide)
  cases hcreate : rns8CreatePlanHandle emptyCacheEnv .cpu {} thousandDesc with
  | error status =>
    have hsome : (rns8CreatePlan .cpu thousandDesc).toOption.isSome = true := by decide +kernel
    rw [rns8CreatePlanHandle_error_iff] at hcreate
    rw [hcreate] at hsome
    cases hsome
  | ok handle =>
    obtain ⟨hcontract, hprefixes⟩ := hok handle hcreate
    exact ⟨handle, rfl, hcontract, hprefixes rfl⟩

/-- Operands of magnitude `2 ^ 33`, whose single product exceeds the signed element type. -/
def wideProductDesc : GemmDesc where
  semantics := .boundedI64
  boundKind := .inputRangeAndK
  requestedBackend := .cpuReference
  m := 1
  n := 1
  k := 1
  maxPrefix := 20
  lhsBound := 2 ^ 33
  rhsBound := 2 ^ 33

/-- An input-range output beyond the element type is refused although a prefix would carry it. -/
theorem rangeError_with_carryingPrefix : ¬ ∀ (ctx : Context) (desc : GemmDesc),
    rns8CreatePlan ctx desc = .error .rangeError →
      isPerTileBoundKind desc.boundKind = false →
        carryingPrefixes desc.demandedRange desc.budget = ∅ := by
  intro h
  have hempty := h .cpu wideProductDesc rfl rfl
  have hmem : 20 ∈ carryingPrefixes wideProductDesc.demandedRange wideProductDesc.budget := by
    refine ⟨by decide, by decide, ?_⟩
    decide +kernel
  rw [hempty] at hmem
  exact hmem

end Rns8
