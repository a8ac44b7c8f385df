import Rns8.Plan.Contract

/-!
# Which descriptors plan creation admits

`GemmDesc.Admitted` collects the checks of `rns8_create_plan` that do not concern a range. An
admitted descriptor is either planned or refused with a range error
(`GemmDesc.Admitted.ok_or_rangeError`), and nothing else is planned (`admitted_of_ok`).
-/

namespace Rns8

/-- The prefix budget of a descriptor. -/
def GemmDesc.budget (desc : GemmDesc) : ℕ := requestedPrefix desc.semantics desc.maxPrefix

/-- The number of output tiles, with the default tile sizes filled in. -/
def GemmDesc.tileCount (desc : GemmDesc) : ℕ :=
  ceilDiv desc.m (if desc.tileM = 0 then 128 else desc.tileM) *
    ceilDiv desc.n (if desc.tileN = 0 then 128 else desc.tileN)

/-- The bound kinds that a semantics takes. -/
def boundKindsOf : Semantics → List BoundKind
  | .boundedI64 => [.globalMaxAbs, .perTileMaxAbs, .inputRangeAndK]
  | .boundedU64 => [.globalMaxUnsigned, .perTileMaxUnsigned, .inputRangeAndK]
  | _ => [.none]

/-- **An admitted descriptor.** It passes every check of `rns8_create_plan` that does not compare a
range with a prefix or a count with the machine word. -/
structure GemmDesc.Admitted (ctx : Context) (desc : GemmDesc) : Prop where
  /-- The ABI, the dimensions, the flags, the tile sizes and the zero masks. -/
  common : gemmDescCommonOk desc = true
  boundKind : desc.boundKind ∈ boundKindsOf desc.semantics
  /-- A bound is given for the global kinds only, and a signed one fits an `int64`. -/
  bound : desc.boundKind ∉ [.globalMaxAbs, .globalMaxUnsigned] → desc.bound = 0
  signedBound : desc.boundKind = .globalMaxAbs → desc.bound ≤ 2 ^ 63
  /-- A semantics without a residue ladder takes no prefix. -/
  unladdered : usesRnsStorage desc.semantics = false →
    desc.maxPrefix = 0 ∧ desc.flags.forceFixedPrefix = false
  modulus : usesFiniteStorage desc.semantics = true →
    validFiniteModulusForSemantics desc.semantics desc.finiteModulus = true
  backend : effectiveBackend desc.requestedBackend ctx.backend = ctx.backend
  supported : backendSupportsSemantics ctx.backend desc.semantics = true
  kernel : backendLacksKernel ctx.backend desc = false
  /-- The table of tile bounds has one entry for each tile, and signed ones fit an `int64`. -/
  tiles : isPerTileBoundKind desc.boundKind = true → ∃ bounds, desc.tileBounds = some bounds ∧
    desc.tileBoundsCount = desc.tileCount ∧
    (desc.semantics = .boundedI64 → ∀ index < desc.tileBoundsCount, bounds index ≤ 2 ^ 63)

/-- An outcome that is a range error unless it is a success. -/
def Granted {α : Type} (outcome : Except Status α) : Prop :=
  (∃ value, outcome = .ok value) ∨ outcome = .error .rangeError

namespace GemmDesc.Admitted

variable {ctx : Context} {desc : GemmDesc}

/-- A semantics that passed the common checks is a known one. -/
theorem known (h : desc.Admitted ctx) : knownSemantics desc.semantics = true := by
  have hcommon := h.common
  simp only [gemmDescCommonOk, Bool.and_eq_true] at hcommon
  exact hcommon.1.1.2

/-- The bound contract of an admitted descriptor fails only with a range error. -/
theorem boundContract (h : desc.Admitted ctx) (hbudget : desc.budget ≤ maxSupportedPrefix)
    (hkind : desc.boundKind ≠ .inputRangeAndK)
    (hsem : desc.semantics = .boundedI64 ∨ desc.semantics = .boundedU64) :
    validateBoundContract desc.semantics desc.boundKind desc.bound desc.budget = .success ∨
      validateBoundContract desc.semantics desc.boundKind desc.bound desc.budget =
        .rangeError := by
  have hknown := h.known
  have hpos : desc.budget ≠ 0 :=
    (requestedPrefix_pos (by rcases hsem with hs | hs <;> rw [hs] <;> rfl) desc.maxPrefix).ne'
  have hmem := h.boundKind
  have hbound := h.bound
  have hsigned := h.signedBound
  unfold validateBoundContract
  simp only [hknown, Bool.not_true, Bool.false_eq_true, if_false, hpos, not_lt.2 hbudget, or_self]
  rcases hsem with hs | hs <;> rw [hs] at hmem ⊢ <;>
    simp only [boundKindsOf, List.mem_cons, List.not_mem_nil, or_false, hkind] at hmem <;>
    rcases hmem with hk | hk <;> simp only [hk] at hbound hsigned ⊢
  · rw [if_neg (not_lt.2 (hsigned trivial))]
    exact (ite_eq_or_eq _ _ _)
  · exact Or.inl (if_pos (hbound (by decide)))
  · exact (ite_eq_or_eq _ _ _)
  · exact Or.inl (if_pos (hbound (by decide)))

/-- The descriptor checks of an admitted descriptor fail only with a range error. -/
theorem validate (h : desc.Admitted ctx) (hbudget : desc.budget ≤ maxSupportedPrefix) :
    validateGemmDesc desc desc.budget = .success ∨
      validateGemmDesc desc desc.budget = .rangeError := by
  have hmem := h.boundKind
  have hbound := h.bound
  have hunladdered := h.unladdered
  have hmodulus := h.modulus
  have hcontract := h.boundContract hbudget
  obtain ⟨-, -, htiles, -, -⟩ := gemmDescCommonOk_spec h.common
  -- no check but the carrying ones can fail
  unfold validateGemmDesc
  simp only [h.common, Bool.not_true, Bool.false_eq_true, if_false]
  split
  -- exact-wide
  · next hex =>
    have hk : desc.boundKind = .none := by
      revert hmem hex
      cases desc.semantics <;> simp [exactWideSemantics, boundKindsOf]
    have hpos : desc.budget ≠ 0 := (requestedPrefix_pos (by
      revert hex
      cases desc.semantics <;> simp [exactWideSemantics, usesRnsStorage]) desc.maxPrefix).ne'
    simp only [hk, hbound (by rw [hk]; decide), hpos, not_lt.2 hbudget, ne_eq, not_true_eq_false,
      or_self, if_false]
    exact ite_eq_or_eq _ _ _
  · split
    -- wrapping: no prefix to carry
    · next hwrap =>
      obtain ⟨hmax, hforce⟩ := hunladdered (by rw [hwrap]; rfl)
      have hk : desc.boundKind = .none := by simpa [hwrap, boundKindsOf] using hmem
      refine Or.inl (if_neg ?_)
      simp [hk, hbound (by rw [hk]; decide), hforce, GemmDesc.budget, requestedPrefix, hmax, hwrap,
        defaultPrefixForSemantics]
    · split
      -- finite: no prefix to carry
      · next hfin =>
        have hrns : usesRnsStorage desc.semantics = false := by
          revert hfin
          cases desc.semantics <;> simp [usesFiniteStorage, usesRnsStorage]
        obtain ⟨hmax, hforce⟩ := hunladdered hrns
        have hk : desc.boundKind = .none := by
          revert hmem hfin
          cases desc.semantics <;> simp [usesFiniteStorage, boundKindsOf]
        have hzero : desc.budget = 0 := by
          rw [GemmDesc.budget, requestedPrefix, if_pos hmax]
          revert hfin
          cases desc.semantics <;> simp [usesFiniteStorage, defaultPrefixForSemantics]
        refine Or.inl (if_neg ?_)
        simp [hk, hbound (by rw [hk]; decide), hforce, hzero, hmax, hmodulus hfin]
      -- bounded, with a bound derived from the inputs or given
      · next hex hwrap hfin =>
        have hsem : desc.semantics = .boundedI64 ∨ desc.semantics = .boundedU64 := by
          have hknown := h.known
          revert hex hwrap hfin hknown
          cases desc.semantics <;> simp [exactWideSemantics, usesFiniteStorage, knownSemantics]
        split
        · next hir =>
          obtain ⟨hnone, hcount, -, -⟩ := htiles (by rw [hir]; rfl)
          rw [if_neg (by
            rcases hsem with hs | hs <;> simp [hbound (by rw [hir]; decide), hnone, hcount, hs])]
          cases inputRangeOutputBound desc with
          | none => exact Or.inr rfl
          | some outputBound => exact ite_eq_or_eq _ _ _
        · next hir => exact hcontract hir hsem

end GemmDesc.Admitted

/-! ### The schedule -/

/-- Valid zero masks are refused only because a count overflows. -/
theorem configureZeroMasks_granted {p : Plan} (hm : 0 < p.desc.m) (hn : 0 < p.desc.n)
    (hmask : p.desc.flags.allowProvenZeroRowColSkips = true →
      validZeroMask p.desc.zeroARows p.desc.zeroARowsCount p.desc.m = true ∧
      validZeroMask p.desc.zeroBCols p.desc.zeroBColsCount p.desc.n = true) :
    Granted (configureZeroMasks p) := by
  unfold configureZeroMasks
  split
  · next hflag =>
    obtain ⟨ha, hb⟩ := hmask hflag
    cases hrows : p.desc.zeroARows with
    | none => simp [hrows, validZeroMask] at ha
    | some aRows =>
      cases hcols : p.desc.zeroBCols with
      | none => simp [hcols, validZeroMask] at hb
      | some bCols =>
        simp only [hrows, hcols, validZeroMask, Bool.and_eq_true, decide_eq_true_eq] at ha hb
        dsimp only
        rw [if_neg (by simp [hm.ne', hn.ne', ha.1, hb.1])]
        split
        · exact Or.inr rfl
        · split
          · exact Or.inr rfl
          · split
            · exact Or.inr rfl
            · exact Or.inl ⟨_, rfl⟩
  · exact Or.inl ⟨_, rfl⟩

/-- The tile loop is refused only because some tile has no admitted prefix. -/
theorem scheduleTiles_granted {p : Plan} {count : ℕ}
    (hsigned : p.desc.semantics = .boundedI64 → ∀ index < count,
      p.tileBounds.getD index 0 ≤ 2 ^ 63) : Granted (scheduleTiles p count) := by
  induction count with
  | zero => exact Or.inl ⟨_, rfl⟩
  | succ count ih =>
    have hprev := ih fun hs index hlt => hsigned hs index (Nat.lt_succ_of_lt hlt)
    unfold scheduleTiles
    rcases hprev with ⟨entries, hentries⟩ | herror
    · have htile : Granted (scheduleTile p count) := by
        unfold scheduleTile
        dsimp only
        rw [if_neg fun hlarge =>
          absurd (hsigned hlarge.1 count (Nat.lt_succ_self _)) (not_le.2 hlarge.2)]
        split
        · exact Or.inr rfl
        · exact Or.inl ⟨_, rfl⟩
      rw [hentries]
      rcases htile with ⟨entry, hentry⟩ | herror
      · exact Or.inl ⟨_, by rw [hentry]⟩
      · exact Or.inr (by rw [herror])
    · exact Or.inr (by rw [herror])

/-- The per-tile part is refused only because some tile has no admitted prefix. -/
theorem configureTileSchedule_granted {p : Plan} {bounds : ℕ → ℕ}
    (hbounds : p.desc.tileBounds = some bounds)
    (hcount : p.desc.tileBoundsCount = p.scheduleTileCount)
    (hsigned : p.desc.semantics = .boundedI64 → ∀ index < p.desc.tileBoundsCount,
      bounds index ≤ 2 ^ 63) : Granted (configureTileSchedule p) := by
  unfold configureTileSchedule
  rw [hbounds]
  dsimp only
  rw [if_neg (not_not.2 hcount)]
  have hloop := @scheduleTiles_granted { p with
    tileBounds := (List.range p.desc.tileBoundsCount).map bounds
    desc := { p.desc with tileBounds := none } } p.scheduleTileCount fun hs index hlt => by
      have hlt' : index < p.desc.tileBoundsCount := hcount ▸ hlt
      simpa [List.getD, hlt'] using hsigned hs index hlt'
  rcases hloop with ⟨entries, hentries⟩ | herror
  · exact Or.inl ⟨_, by rw [hentries]⟩
  · exact Or.inr (by rw [herror])

/-- The schedule of an admitted descriptor is refused only with a range error. -/
theorem GemmDesc.Admitted.schedule {ctx : Context} {desc : GemmDesc} (h : desc.Admitted ctx)
    (bound : ℕ) :
    Granted (configurePlanSchedule (initialPlan desc desc.budget bound ctx.backend)) := by
  obtain ⟨⟨hm, hn, -⟩, -, -, hmask, -⟩ := gemmDescCommonOk_spec h.common
  have hM : (initialPlan desc desc.budget bound ctx.backend).desc.tileM ≠ 0 :=
    (defaultedTile_pos desc.tileM).ne'
  have hN : (initialPlan desc desc.budget bound ctx.backend).desc.tileN ≠ 0 :=
    (defaultedTile_pos desc.tileN).ne'
  simp only [configurePlanSchedule, hM, hN, if_false]
  split
  · exact Or.inr rfl
  -- each part of planning either goes on or answers a range error
  · rcases configureZeroMasks_granted
        (p := (initialPlan desc desc.budget bound ctx.backend).withGrid) hm hn
        fun hflag => (hmask hflag).2 with ⟨p₁, hp₁⟩ | herror
    · obtain ⟨⟨aRows, bCols, aCount, bCount, product, rfl⟩, -⟩ := configureZeroMasks_ok hp₁ hmask
      simp only [Plan.withGrid] at hp₁
      rw [hp₁]
      dsimp only
      split
      · exact Or.inl ⟨_, rfl⟩
      · split
        · next htile =>
          obtain ⟨bounds, hbounds, hcount, hsigned⟩ := h.tiles htile
          split
          · exact Or.inr rfl
          · exact configureTileSchedule_granted hbounds hcount hsigned
        · split
          · exact Or.inr rfl
          · exact Or.inl ⟨_, rfl⟩
    · simp only [Plan.withGrid] at herror
      exact Or.inr (by rw [herror])

/-- **An admitted descriptor is planned or refused with a range error.** -/
theorem GemmDesc.Admitted.ok_or_rangeError {ctx : Context} {desc : GemmDesc}
    (h : desc.Admitted ctx) (hbudget : desc.budget ≤ maxSupportedPrefix) :
    Granted (rns8CreatePlan ctx desc) := by
  have habi : desc.abiOk = true := by
    have hcommon := h.common
    simp only [gemmDescCommonOk, Bool.and_eq_true] at hcommon
    exact hcommon.1.1.1.1.1.1.1.1.1.1.1.1.1
  have hval := h.validate hbudget
  unfold rns8CreatePlan
  simp only [habi, h.backend, h.supported, h.kernel, Bool.not_true, Bool.false_eq_true, if_false,
    ne_eq, not_true_eq_false]
  rcases hval with hval | hval <;> rw [GemmDesc.budget] at hval <;> simp only [hval]
  · rw [if_neg (by simp)]
    split
    · exact Or.inr rfl
    · exact h.schedule _
  · exact Or.inr (if_pos (by decide))

/-! ### Nothing else is planned -/

/-- A descriptor that passes the checks gives a bound for the global kinds only. -/
theorem validateGemmDesc_bound_eq_zero {desc : GemmDesc} {r : ℕ}
    (h : validateGemmDesc desc r = .success)
    (hkind : desc.boundKind ∉ [.globalMaxAbs, .globalMaxUnsigned]) : desc.bound = 0 := by
  unfold validateGemmDesc at h
  split at h
  · cases h
  · split at h
    · split at h
      · cases h
      · next hchecks => exact not_not.1 (not_or.1 hchecks).2
    · split at h
      · split at h
        · cases h
        · next hchecks => exact not_not.1 (not_or.1 (not_or.1 hchecks).2).1
      · split at h
        · split at h
          · cases h
          · next hchecks => exact not_not.1 (not_or.1 (not_or.1 hchecks).2).1
        · split at h
          · split at h
            · cases h
            · next hchecks => exact not_not.1 (not_or.1 hchecks).1
          · obtain ⟨-, -, ⟨-, -, hb⟩ | ⟨-, hk, -⟩ | ⟨-, -, hb⟩ | ⟨-, hk, -⟩⟩ :=
              validateBoundContract_success h
            · exact hb
            · exact absurd (by rw [hk]; decide) hkind
            · exact hb
            · exact absurd (by rw [hk]; decide) hkind

/-- The backend that a created plan names is the context's, with a kernel for the descriptor. -/
theorem rns8CreatePlan_backend {ctx : Context} {desc : GemmDesc} {plan : Plan}
    (h : rns8CreatePlan ctx desc = .ok plan) :
    effectiveBackend desc.requestedBackend ctx.backend = ctx.backend ∧
      backendLacksKernel ctx.backend desc = false := by
  simp only [rns8CreatePlan] at h
  split at h
  · cases h
  · split at h
    · cases h
    · split at h
      · cases h
      · next hrequested =>
        rw [not_not] at hrequested
        split at h
        · cases h
        · split at h
          · cases h
          · next hkernel =>
            rw [hrequested] at hkernel
            exact ⟨hrequested, Bool.eq_false_iff.2 hkernel⟩

/-- A scheduled table of tile bounds has one entry for each tile, and signed ones fit. -/
theorem configurePlanSchedule_tiles {p q : Plan} (h : configurePlanSchedule p = .ok q)
    (hM : p.desc.tileM ≠ 0) (hN : p.desc.tileN ≠ 0)
    (hmask : p.desc.flags.allowProvenZeroRowColSkips = true →
      isPerTileBoundKind p.desc.boundKind = true ∧
      validZeroMask p.desc.zeroARows p.desc.zeroARowsCount p.desc.m = true ∧
      validZeroMask p.desc.zeroBCols p.desc.zeroBColsCount p.desc.n = true)
    (hrns : ¬ (p.desc.semantics = .wrapU64Mod2_64 ∨ usesFiniteStorage p.desc.semantics = true))
    (htile : isPerTileBoundKind p.desc.boundKind = true) :
    ∃ bounds, p.desc.tileBounds = some bounds ∧
      p.desc.tileBoundsCount =
        ceilDiv p.desc.m p.desc.tileM * ceilDiv p.desc.n p.desc.tileN ∧
      (p.desc.semantics = .boundedI64 →
        ∀ index < p.desc.tileBoundsCount, bounds index ≤ 2 ^ 63) := by
  obtain ⟨-, aRows, bCols, aCount, bCount, product, -, hcases⟩ :=
    configurePlanSchedule_ok h hM hN hmask
  rcases hcases with ⟨hsem, -⟩ | ⟨-, -, hq⟩ | ⟨-, hglobal, -⟩
  · exact absurd hsem hrns
  · obtain ⟨bounds, entries, hb, hcount, hloop, -⟩ := configureTileSchedule_ok hq
    refine ⟨bounds, hb, hcount, fun hs index hlt => ?_⟩
    have hlt' : index < entries.length := by
      rw [(scheduleTiles_getElem? hloop).1]
      exact hcount ▸ hlt
    obtain ⟨-, -, hchoice⟩ :=
      scheduleTiles_choice hloop (i := index) (List.getElem?_eq_getElem hlt')
    have := hchoice.bound_le hs
    simpa [List.getD, Plan.withMasks, Plan.withGrid, hlt] using this
  · rw [htile] at hglobal
    cases hglobal

/-- **Only admitted descriptors are planned.** -/
theorem admitted_of_ok {ctx : Context} {desc : GemmDesc} {plan : Plan}
    (h : rns8CreatePlan ctx desc = .ok plan) : desc.Admitted ctx := by
  obtain ⟨hval, hsup, bound, -, -, hconf⟩ := rns8CreatePlan_ok h
  obtain ⟨hbackend, hkernel⟩ := rns8CreatePlan_backend h
  have hcommon := validateGemmDesc_commonOk hval
  have hvb := validateGemmDesc_validBound hval
  obtain ⟨-, -, -, hmask, -⟩ := gemmDescCommonOk_spec hcommon
  have hsemantics : ¬ usesRnsStorage desc.semantics = true →
      desc.semantics = .wrapU64Mod2_64 ∨ usesFiniteStorage desc.semantics = true := fun hrns =>
    not_imp_comm.1 (usesRnsStorage_of_supported hsup) hrns
  -- every condition was tested by a check that the descriptor passed
  refine ⟨hcommon, ?_, validateGemmDesc_bound_eq_zero hval, fun hk => ?_, fun hrns => ?_,
    validateGemmDesc_modulus hval, hbackend, hsup, hkernel, fun htile => ?_⟩
  · have hi64 := hvb.kindI64
    have hu64 := hvb.kindU64
    have hother := hvb.kindOther
    revert hi64 hu64 hother
    cases desc.semantics <;>
      simp +contextual [boundKindsOf, usesRnsStorage, exactWideSemantics]
  · refine hvb.bound_le ?_
    by_contra hs
    have hu64 := hvb.kindU64
    have hother := hvb.kindOther
    revert hs hu64 hother
    rw [hk]
    cases desc.semantics <;> simp [usesRnsStorage, exactWideSemantics]
  · have hsem := hsemantics (Bool.eq_false_iff.1 hrns)
    obtain ⟨hzero, -, hforce⟩ := validateGemmDesc_unladdered hval hsem
    refine ⟨?_, hforce⟩
    by_contra hmax
    rw [requestedPrefix, if_neg hmax] at hzero
    exact hmax hzero
  · refine configurePlanSchedule_tiles hconf (defaultedTile_pos desc.tileM).ne'
      (defaultedTile_pos desc.tileN).ne' hmask (fun hsem => ?_) htile
    have hnone : desc.boundKind = .none := hvb.kindOther (Or.inl (by
      revert hsem
      cases hs : desc.semantics <;> simp [initialPlan, hs, usesFiniteStorage, usesRnsStorage]))
    rw [hnone] at htile
    cases htile

end Rns8
