import Rns8.Plan.Grid

/-!
# What plan creation guarantees

`CreatedPlan` collects, for a plan returned by `rns8_create_plan`, how each part of the schedule was
chosen (`rns8CreatePlan_created`). Two facts follow for every plan with a residue ladder:

* `CreatedPlan.carries` — the prefix selected for a cell carries the bound declared for that cell;
* `CreatedPlan.selected_le_storage` — no cell needs more planes than the plan's storage prefix.
-/

namespace Rns8

/-- `p` with the row and column mask fields set. -/
def Plan.withMasks (p : Plan) (zeroARows zeroBCols : List ℕ) (zeroARowCount zeroBColCount
    productCount : ℕ) : Plan :=
  { p with
    zeroARows, zeroBCols, zeroARowCount, zeroBColCount
    zeroRowColProductCount := productCount
    desc := { p.desc with
      zeroARows := none
      zeroBCols := none
      zeroARowsCount := zeroARows.length
      zeroBColsCount := zeroBCols.length } }

theorem validZeroMask_some {values : ℕ → ℕ} {count expected : ℕ}
    (h : validZeroMask (some values) count expected = true) :
    ((List.range count).map values).all (· ≤ 1) = true := by
  simp only [validZeroMask, Bool.and_eq_true, decide_eq_true_eq, List.all_eq_true,
    List.mem_range] at h
  simp only [List.all_map, List.all_eq_true, List.mem_range, Function.comp_apply,
    decide_eq_true_eq]
  exact h.2

/-- The mask part of plan creation leaves the rest of the plan alone and its own contract true. -/
theorem configureZeroMasks_ok {p q : Plan} (h : configureZeroMasks p = .ok q)
    (hkind : p.desc.flags.allowProvenZeroRowColSkips = true →
      isPerTileBoundKind p.desc.boundKind = true ∧
      validZeroMask p.desc.zeroARows p.desc.zeroARowsCount p.desc.m = true ∧
      validZeroMask p.desc.zeroBCols p.desc.zeroBColsCount p.desc.n = true) :
    (∃ aRows bCols aCount bCount product,
      q = p.withMasks aRows bCols aCount bCount product) ∧ zeroRowColContractMatches q = true := by
  simp only [configureZeroMasks] at h
  split at h
  · next hflag =>
    obtain ⟨htile, hvalidA, hvalidB⟩ := hkind hflag
    split at h
    · next aRows bCols ha hb =>
      rw [ha] at hvalidA
      rw [hb] at hvalidB
      split at h
      · cases h
      · next hshape =>
        split at h
        · cases h
        · split at h
          · cases h
          · next hov1 =>
            split at h
            · cases h
            · next hov2 =>
              -- both masks are there and no count overflows, which is what the contract asks
              obtain rfl := Except.ok.inj h
              push Not at hshape hov1 hov2
              obtain ⟨hm, hn, hma, hnb⟩ := hshape
              refine ⟨⟨_, _, _, _, _, rfl⟩, ?_⟩
              simp only [zeroRowColContractMatches, hflag, htile, Bool.not_true, Bool.false_eq_true,
                if_false, Option.isNone_none, List.length_map, List.length_range, hma, hnb,
                decide_true, Bool.true_and, Bool.and_true]
              have hA := validZeroMask_some hvalidA
              have hB := validZeroMask_some hvalidB
              rw [hma] at hA hov1 hov2
              rw [hnb] at hB hov2
              rw [hA, hB]
              simp only [Bool.true_and, Bool.and_eq_true, Bool.not_eq_true', Bool.and_eq_false_imp,
                decide_eq_true_eq, decide_eq_false_iff_not, not_lt]
              exact ⟨hov1, hov2⟩
    · cases h
  · next hflag =>
    obtain rfl := Except.ok.inj h
    refine ⟨⟨[], [], 0, 0, 0, rfl⟩, ?_⟩
    simp [zeroRowColContractMatches, hflag]

/-! ### Least and greatest selected prefixes -/

theorem le_foldl_max (l : List ℕ) (a : ℕ) : a ≤ l.foldl max a ∧ ∀ x ∈ l, x ≤ l.foldl max a := by
  induction l generalizing a with
  | nil => simp
  | cons b l ih =>
    obtain ⟨h1, h2⟩ := ih (max a b)
    refine ⟨(le_max_left a b).trans h1, fun x hx => ?_⟩
    rcases List.mem_cons.1 hx with rfl | hx
    · exact (le_max_right a x).trans h1
    · exact h2 x hx

theorem foldl_min_le (l : List ℕ) (a : ℕ) : l.foldl min a ≤ a ∧ ∀ x ∈ l, l.foldl min a ≤ x := by
  induction l generalizing a with
  | nil => simp
  | cons b l ih =>
    obtain ⟨h1, h2⟩ := ih (min a b)
    refine ⟨h1.trans (min_le_left a b), fun x hx => ?_⟩
    rcases List.mem_cons.1 hx with rfl | hx
    · exact h1.trans (min_le_right a x)
    · exact h2 x hx

theorem le_listMax {l : List ℕ} {x : ℕ} (hx : x ∈ l) : x ≤ listMax l := (le_foldl_max l 0).2 x hx

theorem listMin_le {l : List ℕ} {x : ℕ} (hx : x ∈ l) : listMin l ≤ x := by
  cases l with
  | nil => cases hx
  | cons a l =>
    rcases List.mem_cons.1 hx with rfl | hx
    · exact (foldl_min_le l x).1
    · exact (foldl_min_le l a).2 x hx

theorem foldl_max_mem (l : List ℕ) (a : ℕ) : l.foldl max a = a ∨ l.foldl max a ∈ l := by
  induction l generalizing a with
  | nil => exact Or.inl rfl
  | cons b l ih =>
    rcases ih (max a b) with h | h
    · rcases max_choice a b with hab | hab
      · exact Or.inl (h.trans hab)
      · exact Or.inr (List.mem_cons.2 (Or.inl (h.trans hab)))
    · exact Or.inr (List.mem_cons_of_mem _ h)

theorem foldl_min_mem (l : List ℕ) (a : ℕ) : l.foldl min a = a ∨ l.foldl min a ∈ l := by
  induction l generalizing a with
  | nil => exact Or.inl rfl
  | cons b l ih =>
    rcases ih (min a b) with h | h
    · rcases min_choice a b with hab | hab
      · exact Or.inl (h.trans hab)
      · exact Or.inr (List.mem_cons.2 (Or.inl (h.trans hab)))
    · exact Or.inr (List.mem_cons_of_mem _ h)

theorem listMin_mem {l : List ℕ} (hl : l ≠ []) : listMin l ∈ l := by
  cases l with
  | nil => exact absurd rfl hl
  | cons a l =>
    rcases foldl_min_mem l a with h | h
    · exact List.mem_cons.2 (Or.inl h)
    · exact List.mem_cons_of_mem _ h

/-- A bound on every element bounds the greatest one. -/
theorem listMax_le {l : List ℕ} {b : ℕ} (h : ∀ x ∈ l, x ≤ b) : listMax l ≤ b := by
  rcases foldl_max_mem l 0 with h0 | h0
  · rw [listMax, h0]; exact Nat.zero_le b
  · exact h _ h0

/-! ### The tile loop -/

/-- How one tile was scheduled: from its bound, through the prefix that carries the bound's range. -/
structure TileChoice (plan : Plan) (index : ℕ) (entry : TileScheduleEntry) : Prop where
  required : entry.requiredPrefix =
    requiredPrefixForRange (boundedRangeFromBound plan.desc.semantics (plan.tileBounds.getD index 0))
  required_ne : entry.requiredPrefix ≠ 0
  selected : entry.selectedPrefix =
    if plan.desc.flags.forceFixedPrefix then plan.rnsPrefix else entry.requiredPrefix
  required_le : entry.requiredPrefix ≤ plan.rnsPrefix
  bound_le : plan.desc.semantics = .boundedI64 → plan.tileBounds.getD index 0 ≤ 2 ^ 63
  zeroOutput : entry.flags.zeroOutput =
    (plan.desc.flags.allowProvenZeroTileSkips && decide (plan.tileBounds.getD index 0 = 0))

theorem TileChoice.required_le_selected {plan : Plan} {index : ℕ} {entry : TileScheduleEntry}
    (h : TileChoice plan index entry) :
    entry.requiredPrefix ≤ entry.selectedPrefix ∧ entry.selectedPrefix ≤ plan.rnsPrefix := by
  rw [h.selected]
  have := h.required_le
  split <;> omega

/-- The selected prefix of a tile carries the range of the tile's bound. -/
theorem TileChoice.carries {plan : Plan} {index : ℕ} {entry : TileScheduleEntry}
    (h : TileChoice plan index entry) (hmax : entry.selectedPrefix ≤ 28) :
    boundedRangeFromBound plan.desc.semantics (plan.tileBounds.getD index 0) <
      modulusProduct entry.selectedPrefix := by
  have hne := h.required_ne
  rw [h.required] at hne
  have hlt := (requiredPrefixForRange_spec hne).2.2
  rw [← h.required] at hlt
  exact hlt.trans_le (modulusProduct_le h.required_le_selected.1 hmax)

theorem tileEntryFlags_zeroOutput (plan : Plan) (index bound : ℕ) :
    (tileEntryFlags plan index bound).zeroOutput =
      (plan.desc.flags.allowProvenZeroTileSkips && decide (bound = 0)) := by
  simp only [tileEntryFlags]
  split
  · split
    · simp [TileFlags.or]
    · rfl
  · rfl

theorem scheduleTile_spec {plan : Plan} {index : ℕ} {entry : TileScheduleEntry}
    (h : scheduleTile plan index = .ok entry) :
    TileAt plan index entry ∧ TileChoice plan index entry := by
  obtain ⟨hb, hne, hle, rfl⟩ := scheduleTile_ok h
  exact ⟨⟨rfl, rfl, rfl, rfl⟩,
    ⟨rfl, hne, rfl, hle, hb, tileEntryFlags_zeroOutput plan index _⟩⟩

/-- The per-tile part of plan creation, as a choice of the entries and the final clean-up. -/
theorem configureTileSchedule_ok {p q : Plan} (h : configureTileSchedule p = .ok q) :
    ∃ bounds entries, p.desc.tileBounds = some bounds ∧
      p.desc.tileBoundsCount = p.scheduleTileCount ∧
      let p' : Plan := { p with
        tileBounds := (List.range p.desc.tileBoundsCount).map bounds
        desc := { p.desc with tileBounds := none } }
      scheduleTiles p' p.scheduleTileCount = .ok entries ∧
        q = if tileScheduleRedundant (fillTileSchedule p' entries) then
            { fillTileSchedule p' entries with tileSchedule := [] }
          else fillTileSchedule p' entries := by
  simp only [configureTileSchedule] at h
  split at h
  · cases h
  · next bounds hb =>
    split at h
    · cases h
    · next hcount =>
      split at h
      · cases h
      · next entries he => exact ⟨bounds, entries, hb, not_not.1 hcount, he, (Except.ok.inj h).symm⟩

/-- The per-tile schedule of a created plan. -/
structure TileSchedule (plan : Plan) : Prop where
  bounds_length : plan.tileBounds.length = plan.scheduleTileCount
  choice : ∀ index entry, plan.tileSchedule[index]? = some entry →
    TileChoice plan index entry ∧ entry.selectedPrefix ≤ plan.scheduleMaxSelectedPrefix
  dropped : plan.tileSchedule = [] → plan.scheduleMaxSelectedPrefix = plan.rnsPrefix ∧
    ∀ index < plan.scheduleTileCount, ∃ entry, TileChoice plan index entry ∧
      entry.selectedPrefix = plan.rnsPrefix
  max_pos : 0 < plan.scheduleMaxSelectedPrefix
  max_le : plan.scheduleMaxSelectedPrefix ≤ plan.rnsPrefix

section TileLoop

variable {p : Plan} {entries : List TileScheduleEntry}

/-- Every entry of the loop was chosen for its index. -/
theorem scheduleTiles_choice (h : scheduleTiles p p.scheduleTileCount = .ok entries) {i : ℕ}
    {entry : TileScheduleEntry} (hi : entries[i]? = some entry) :
    i < p.scheduleTileCount ∧ TileAt p i entry ∧ TileChoice p i entry := by
  obtain ⟨hlt, hok⟩ := (scheduleTiles_getElem? h).2 i entry hi
  exact ⟨hlt, scheduleTile_spec hok⟩

theorem scheduleTiles_choice_of_mem (h : scheduleTiles p p.scheduleTileCount = .ok entries)
    {entry : TileScheduleEntry} (he : entry ∈ entries) : ∃ i < p.scheduleTileCount,
      TileAt p i entry ∧ TileChoice p i entry := by
  obtain ⟨i, hi⟩ := List.mem_iff_getElem?.1 he
  exact ⟨i, scheduleTiles_choice h hi⟩

theorem fillTileSchedule_getElem? {i : ℕ} {e : TileScheduleEntry}
    (h : (fillTileSchedule p entries).tileSchedule[i]? = some e) :
    ∃ entry, entries[i]? = some entry ∧
      e = { entry with
        groupIndex := groupIndexOf (prefixGroups entries) entry.selectedPrefix } := by
  simp only [fillTileSchedule, List.getElem?_map, Option.map_eq_some_iff] at h
  obtain ⟨entry, he, rfl⟩ := h
  exact ⟨entry, he, rfl⟩

theorem entries_ne_nil (h : scheduleTiles p p.scheduleTileCount = .ok entries)
    (hpos : 0 < p.scheduleTileCount) : entries ≠ [] := by
  intro h0
  have := (scheduleTiles_getElem? h).1
  simp [h0] at this
  omega

/-- When the schedule is redundant, every tile selects and needs the whole prefix. -/
theorem selected_eq_of_redundant (hred : tileScheduleRedundant (fillTileSchedule p entries) = true)
    {entry : TileScheduleEntry} (he : entry ∈ entries) :
    entry.selectedPrefix = p.rnsPrefix := by
  simp only [tileScheduleRedundant, Bool.and_eq_true, decide_eq_true_eq] at hred
  obtain ⟨⟨⟨⟨⟨-, hmin⟩, hmax⟩, -⟩, -⟩, -⟩ := hred
  have h1 := listMin_le (List.mem_map_of_mem (f := (·.selectedPrefix)) he)
  have h2 := le_listMax (List.mem_map_of_mem (f := (·.selectedPrefix)) he)
  simp only [fillTileSchedule] at hmin hmax
  omega

theorem fillTileSchedule_max (h : scheduleTiles p p.scheduleTileCount = .ok entries)
    (hpos : 0 < p.scheduleTileCount) :
    0 < (fillTileSchedule p entries).scheduleMaxSelectedPrefix ∧
      (fillTileSchedule p entries).scheduleMaxSelectedPrefix ≤ p.rnsPrefix := by
  constructor
  · obtain ⟨e, he⟩ := List.exists_mem_of_ne_nil _ (entries_ne_nil h hpos)
    obtain ⟨i, -, -, hc⟩ := scheduleTiles_choice_of_mem h he
    have h1 := hc.required_ne
    have h2 := hc.required_le_selected.1
    have h3 := le_listMax (List.mem_map_of_mem (f := (·.selectedPrefix)) he)
    change 0 < listMax _
    omega
  · refine listMax_le fun x hx => ?_
    obtain ⟨e, he, rfl⟩ := List.mem_map.1 hx
    obtain ⟨i, -, -, hc⟩ := scheduleTiles_choice_of_mem h he
    exact hc.required_le_selected.2

end TileLoop

/-- **The per-tile part of plan creation** schedules every tile from its own bound. -/
theorem configureTileSchedule_spec {p q : Plan} (h : configureTileSchedule p = .ok q)
    (hpos : 0 < p.scheduleTileCount) :
    TileSchedule q ∧
      ∀ index entry, q.tileSchedule[index]? = some entry → TileAt q index entry := by
  obtain ⟨bounds, entries, hb, hcount, hloop, rfl⟩ := configureTileSchedule_ok h
  set p' : Plan := { p with
    tileBounds := (List.range p.desc.tileBoundsCount).map bounds
    desc := { p.desc with tileBounds := none } } with hp'
  have hloop' : scheduleTiles p' p'.scheduleTileCount = .ok entries := hloop
  have hmax := fillTileSchedule_max hloop' hpos
  have hlen : p'.tileBounds.length = p.scheduleTileCount := by simp [hp', hcount]
  split
  -- a redundant schedule is dropped: every tile has the prefix of the plan
  · next hred =>
    refine ⟨⟨hlen, fun i e hi => by simp at hi, fun _ => ⟨?_, fun i hi => ?_⟩, hmax.1, hmax.2⟩,
      fun i e hi => by simp at hi⟩
    · simp only [tileScheduleRedundant, Bool.and_eq_true, decide_eq_true_eq] at hred
      exact hred.1.1.1.2
    · have hlt : i < entries.length := by rw [(scheduleTiles_getElem? hloop').1]; exact hi
      have hget := List.getElem?_eq_getElem hlt
      obtain ⟨-, -, hc⟩ := scheduleTiles_choice hloop' hget
      refine ⟨entries[i], ⟨hc.1, hc.2, hc.3, hc.4, hc.5, hc.6⟩, ?_⟩
      exact selected_eq_of_redundant hred (List.getElem_mem hlt)
  -- a schedule that is kept has an entry for every tile
  · next hred =>
    refine ⟨⟨hlen, fun i e hi => ?_, fun h0 => ?_, hmax.1, hmax.2⟩, fun i e hi => ?_⟩
    · obtain ⟨entry, he, rfl⟩ := fillTileSchedule_getElem? hi
      obtain ⟨-, -, hc⟩ := scheduleTiles_choice hloop' he
      exact ⟨⟨hc.1, hc.2, hc.3, hc.4, hc.5, hc.6⟩,
        le_listMax (List.mem_map_of_mem (f := (·.selectedPrefix)) (List.mem_of_getElem? he))⟩
    · simp only [fillTileSchedule, List.map_eq_nil_iff] at h0
      exact absurd h0 (entries_ne_nil hloop' hpos)
    · obtain ⟨entry, he, rfl⟩ := fillTileSchedule_getElem? hi
      obtain ⟨-, ht, -⟩ := scheduleTiles_choice hloop' he
      exact ⟨ht.1, ht.2, ht.3, ht.4⟩

/-! ### The whole plan -/

/-- The schedule of a created plan with one bound for its output. -/
structure GlobalSchedule (plan : Plan) : Prop where
  tileBounds : plan.tileBounds = []
  tileSchedule : plan.tileSchedule = []
  required_ne : requiredPrefixForRange (scheduleRequiredRange plan.desc) ≠ 0
  required_le : requiredPrefixForRange (scheduleRequiredRange plan.desc) ≤ plan.rnsPrefix
  modulusProduct : plan.modulusProduct = modulusProduct plan.rnsPrefix

/-- What `rns8_create_plan` guarantees of the plans it returns. -/
structure CreatedPlan (plan : Plan) : Prop where
  grid : ScheduleGrid plan
  tileCount : plan.scheduleTileCount = plan.scheduleTileRows * plan.scheduleTileCols
  m_pos : 0 < plan.desc.m
  n_pos : 0 < plan.desc.n
  k_pos : 0 < plan.desc.k
  prefix_le : plan.rnsPrefix ≤ plan.desc.maxPrefix
  kindI64 : plan.desc.semantics = .boundedI64 →
    plan.desc.boundKind ∈ [.globalMaxAbs, .perTileMaxAbs, .inputRangeAndK]
  kindU64 : plan.desc.semantics = .boundedU64 →
    plan.desc.boundKind ∈ [.globalMaxUnsigned, .perTileMaxUnsigned, .inputRangeAndK]
  kindExact : exactWideSemantics plan.desc.semantics = true → plan.desc.boundKind = .none
  inputRange : plan.desc.boundKind = .inputRangeAndK →
    inputRangeOutputBound plan.desc = some plan.desc.bound
  bound_le : plan.desc.semantics = .boundedI64 → plan.desc.bound ≤ 2 ^ 63
  perTileBound : isPerTileBoundKind plan.desc.boundKind = true → plan.desc.bound = 0
  global : usesRnsStorage plan.desc.semantics = true →
    isPerTileBoundKind plan.desc.boundKind = false → GlobalSchedule plan
  perTile : usesRnsStorage plan.desc.semantics = true →
    isPerTileBoundKind plan.desc.boundKind = true → TileSchedule plan
  unladdered : usesRnsStorage plan.desc.semantics = false →
    plan.tileSchedule = [] ∧ plan.tileBounds = [] ∧ plan.rnsPrefix = 0

/-- What a successful `validate_gemm_desc` says of the bound. -/
structure ValidBound (desc : GemmDesc) : Prop where
  kindI64 : desc.semantics = .boundedI64 →
    desc.boundKind ∈ [.globalMaxAbs, .perTileMaxAbs, .inputRangeAndK]
  kindU64 : desc.semantics = .boundedU64 →
    desc.boundKind ∈ [.globalMaxUnsigned, .perTileMaxUnsigned, .inputRangeAndK]
  kindOther : usesRnsStorage desc.semantics = false ∨ exactWideSemantics desc.semantics = true →
    desc.boundKind = .none
  bound_le : desc.semantics = .boundedI64 → desc.bound ≤ 2 ^ 63
  perTile : isPerTileBoundKind desc.boundKind = true → desc.bound = 0

theorem validateBoundContract_success {semantics : Semantics} {boundKind : BoundKind}
    {bound r : ℕ} (h : validateBoundContract semantics boundKind bound r = .success) :
    0 < r ∧ r ≤ maxSupportedPrefix ∧
      ((semantics = .boundedI64 ∧ boundKind = .perTileMaxAbs ∧ bound = 0) ∨
        (semantics = .boundedI64 ∧ boundKind = .globalMaxAbs ∧ bound ≤ 2 ^ 63 ∧
          2 * bound < modulusProduct r) ∨
        (semantics = .boundedU64 ∧ boundKind = .perTileMaxUnsigned ∧ bound = 0) ∨
        (semantics = .boundedU64 ∧ boundKind = .globalMaxUnsigned ∧ bound < modulusProduct r)) := by
  unfold validateBoundContract at h
  split at h
  · cases h
  · split at h
    · cases h
    · next hr =>
      refine ⟨by omega, by omega, ?_⟩
      cases semantics <;> simp only [reduceCtorEq] at h <;> cases boundKind <;>
        simp only [reduceCtorEq] at h <;> split_ifs at h <;> simp_all

theorem validateGemmDesc_validBound {desc : GemmDesc} {r : ℕ}
    (h : validateGemmDesc desc r = .success) : ValidBound desc := by
  unfold validateGemmDesc at h
  split at h
  · cases h
  · split at h
    -- exact-wide, wrapping, finite, a derived bound, a given bound
    · next hex =>
      split at h
      · cases h
      · next hk =>
        push Not at hk
        constructor <;> intro h1 <;> simp_all [exactWideSemantics, isPerTileBoundKind]
    · next hex =>
      split at h
      · next hw =>
        split at h
        · cases h
        · next hk =>
          push Not at hk
          constructor <;> intro h1 <;> simp_all [isPerTileBoundKind]
      · next hw =>
        split at h
        · next hfin =>
          split at h
          · cases h
          · next hk =>
            push Not at hk
            constructor <;> intro h1 <;> simp_all [isPerTileBoundKind, usesFiniteStorage]
        · next hfin =>
          split at h
          · next hir =>
            split at h
            · cases h
            · next hk =>
              push Not at hk
              obtain ⟨hb, -, -, hs⟩ := hk
              have hsem : desc.semantics = .boundedI64 ∨ desc.semantics = .boundedU64 :=
                or_iff_not_imp_left.2 hs
              rcases hsem with hsem | hsem <;> constructor <;> intro h1 <;>
                simp_all [isPerTileBoundKind, usesRnsStorage, exactWideSemantics]
          · next hir =>
            obtain ⟨-, -, hc⟩ := validateBoundContract_success h
            rcases hc with ⟨h1, h2, h3⟩ | ⟨h1, h2, h3, -⟩ | ⟨h1, h2, h3⟩ | ⟨h1, h2, -⟩ <;>
              constructor <;> intro h4 <;>
                simp_all [isPerTileBoundKind, usesRnsStorage, exactWideSemantics]

/-- A created plan passed the descriptor checks and was scheduled from its initial plan. -/
theorem rns8CreatePlan_ok {ctx : Context} {desc : GemmDesc} {plan : Plan}
    (h : rns8CreatePlan ctx desc = .ok plan) :
    let r := requestedPrefix desc.semantics desc.maxPrefix
    validateGemmDesc desc r = .success ∧ backendSupportsSemantics ctx.backend desc.semantics = true ∧
      ∃ bound, (desc.boundKind = .inputRangeAndK → inputRangeOutputBound desc = some bound) ∧
        (desc.boundKind ≠ .inputRangeAndK → bound = desc.bound) ∧
        configurePlanSchedule (initialPlan desc r bound ctx.backend) = .ok plan := by
  -- every check that fails returns its error
  simp only [rns8CreatePlan] at h
  set r := requestedPrefix desc.semantics desc.maxPrefix with hr
  split at h
  · cases h
  · split at h
    · cases h
    · next hval =>
      split at h
      · cases h
      · next hreq =>
        split at h
        · cases h
        · next hsup =>
          split at h
          · cases h
          · rw [not_not] at hreq
            rw [hreq] at h hsup
            have hsup : backendSupportsSemantics ctx.backend desc.semantics = true := by
              simpa using hsup
            refine ⟨not_not.1 hval, hsup, ?_⟩
            split at h
            · cases h
            · next bound hbound =>
              refine ⟨bound, fun hk => ?_, fun hk => ?_, h⟩
              · simpa [hk] using hbound
              · simpa [hk] using hbound.symm

/-- The grid fields `configure_plan_schedule` sets first. -/
def Plan.withGrid (p : Plan) : Plan :=
  { p with
    scheduleTileRows := ceilDiv p.desc.m p.desc.tileM
    scheduleTileCols := ceilDiv p.desc.n p.desc.tileN
    scheduleTileCount := ceilDiv p.desc.m p.desc.tileM * ceilDiv p.desc.n p.desc.tileN
    tileBounds := []
    tileSchedule := []
    scheduleFlags := {} }

/-- The schedule of a plan without a residue ladder. -/
def Plan.unladderedSchedule (p : Plan) : Plan :=
  { p with
    scheduleMinRequiredPrefix := 0
    scheduleMaxRequiredPrefix := 0
    scheduleMinSelectedPrefix := 0
    scheduleMaxSelectedPrefix := 0
    schedulePrefixGroupCount := 0
    scheduleAdaptivePrefixActive := false
    scheduleAdaptiveSkipActive := false }

/-- The schedule of a plan with one bound, needing `required` planes and selecting `selected`. -/
def Plan.globalSchedule (p : Plan) (required selected : ℕ) : Plan :=
  { p with
    rnsPrefix := selected
    modulusProduct := Rns8.modulusProduct selected
    scheduleMinRequiredPrefix := required
    scheduleMaxRequiredPrefix := required
    scheduleMinSelectedPrefix := selected
    scheduleMaxSelectedPrefix := selected
    schedulePrefixGroupCount := 1
    scheduleAdaptivePrefixActive := false
    scheduleAdaptiveSkipActive := decide (selected < p.rnsPrefix) }

/-- **The three schedules.** A successful `configure_plan_schedule` lays out the grid and the masks,
and then schedules by the kind of the plan. -/
theorem configurePlanSchedule_ok {p q : Plan} (h : configurePlanSchedule p = .ok q)
    (hM : p.desc.tileM ≠ 0) (hN : p.desc.tileN ≠ 0)
    (hmask : p.desc.flags.allowProvenZeroRowColSkips = true →
      isPerTileBoundKind p.desc.boundKind = true ∧
      validZeroMask p.desc.zeroARows p.desc.zeroARowsCount p.desc.m = true ∧
      validZeroMask p.desc.zeroBCols p.desc.zeroBColsCount p.desc.n = true) :
    ¬ (ceilDiv p.desc.n p.desc.tileN ≠ 0 ∧
        sizeMax / ceilDiv p.desc.n p.desc.tileN < ceilDiv p.desc.m p.desc.tileM) ∧
      ∃ aRows bCols aCount bCount product,
        let p₁ := p.withGrid.withMasks aRows bCols aCount bCount product
        let p₂ : Plan :=
          { p₁ with scheduleRangeBitLength := bitLength (scheduleRequiredRange p₁.desc) }
        let required := requiredPrefixForRange (scheduleRequiredRange p₁.desc)
        zeroRowColContractMatches p₂ = true ∧
        (((p.desc.semantics = .wrapU64Mod2_64 ∨ usesFiniteStorage p.desc.semantics = true) ∧
            q = p₂.unladderedSchedule) ∨
          (¬ (p.desc.semantics = .wrapU64Mod2_64 ∨ usesFiniteStorage p.desc.semantics = true) ∧
            isPerTileBoundKind p.desc.boundKind = true ∧ configureTileSchedule p₂ = .ok q) ∨
          (¬ (p.desc.semantics = .wrapU64Mod2_64 ∨ usesFiniteStorage p.desc.semantics = true) ∧
            isPerTileBoundKind p.desc.boundKind = false ∧ required ≠ 0 ∧ required ≤ p.rnsPrefix ∧
            q = p₂.globalSchedule required
              (if p.desc.flags.forceFixedPrefix then p.rnsPrefix else required))) := by
  simp only [configurePlanSchedule, hM, hN, if_false] at h
  split at h
  · cases h
  · next hov =>
    refine ⟨hov, ?_⟩
    split at h
    · cases h
    · next p₁ hp₁ =>
      obtain ⟨⟨aRows, bCols, aCount, bCount, product, rfl⟩, hcontract⟩ :=
        configureZeroMasks_ok hp₁ hmask
      refine ⟨aRows, bCols, aCount, bCount, product, hcontract, ?_⟩
      split at h
      -- no residue planes: nothing to schedule
      · next hsem => exact Or.inl ⟨hsem, (Except.ok.inj h).symm⟩
      · next hsem =>
        split at h
        -- bounds of the tiles
        · next htile =>
          split at h
          · cases h
          · exact Or.inr (Or.inl ⟨hsem, htile, h⟩)
        -- one bound for the whole output
        · next htile =>
          split at h
          · cases h
          · next hreq =>
            push Not at hreq
            exact Or.inr (Or.inr ⟨hsem, Bool.eq_false_iff.2 htile, hreq.1, hreq.2,
              (Except.ok.inj h).symm⟩)

/-- The common descriptor checks, as far as the schedule needs them. -/
theorem gemmDescCommonOk_spec {desc : GemmDesc} (h : gemmDescCommonOk desc = true) :
    (0 < desc.m ∧ 0 < desc.n ∧ 0 < desc.k) ∧
      (desc.flags.reserved = false ∧ validTileSize desc.tileM = true ∧
        validTileSize desc.tileN = true) ∧
      (isPerTileBoundKind desc.boundKind = false →
        desc.tileBounds = none ∧ desc.tileBoundsCount = 0 ∧
          desc.flags.allowProvenZeroTileSkips = false ∧
          desc.flags.allowProvenZeroRowColSkips = false) ∧
      (desc.flags.allowProvenZeroRowColSkips = true →
        isPerTileBoundKind desc.boundKind = true ∧
        validZeroMask desc.zeroARows desc.zeroARowsCount desc.m = true ∧
        validZeroMask desc.zeroBCols desc.zeroBColsCount desc.n = true) ∧
      (desc.boundKind ≠ .inputRangeAndK → desc.lhsBound = 0 ∧ desc.rhsBound = 0) := by
  simp only [gemmDescCommonOk, Bool.and_eq_true, Bool.not_eq_true', Bool.and_eq_false_imp,
    decide_eq_true_eq, decide_eq_false_iff_not, Bool.or_eq_false_iff,
    Bool.not_eq_false'] at h
  obtain ⟨⟨⟨⟨⟨⟨⟨⟨⟨⟨⟨⟨⟨-, hm⟩, hn⟩, hk⟩, hres⟩, htm⟩, htn⟩, hbounds⟩, -⟩, hskip⟩, hmask⟩, -⟩, -⟩, hlr⟩ := h
  refine ⟨⟨hm, hn, hk⟩, ⟨hres, htm, htn⟩, fun hk => ?_, fun hf => ?_, fun hk => ?_⟩
  · obtain ⟨h1, h2⟩ := hbounds hk
    refine ⟨Option.not_isSome_iff_eq_none.1 (by simp [h1]), by simpa using h2, ?_, ?_⟩
    · by_contra hc
      have := hskip (by simpa using hc)
      rw [hk] at this; cases this
    · by_contra hc
      have := (hmask (by simpa using hc)).1.1
      rw [hk] at this; cases this
  · obtain ⟨⟨h1, h2⟩, h3⟩ := hmask hf
    exact ⟨h1, h2, h3⟩
  · simpa using hlr hk

theorem validateGemmDesc_commonOk {desc : GemmDesc} {r : ℕ}
    (h : validateGemmDesc desc r = .success) : gemmDescCommonOk desc = true := by
  unfold validateGemmDesc at h
  split at h
  · cases h
  · next hok => simpa using hok

/-- `input_range_output_bound` does not depend on the fields that plan creation fills in. -/
theorem inputRangeOutputBound_congr {d d' : GemmDesc} (h1 : d'.boundKind = d.boundKind)
    (h2 : d'.semantics = d.semantics) (h3 : d'.k = d.k) (h4 : d'.lhsBound = d.lhsBound)
    (h5 : d'.rhsBound = d.rhsBound) : inputRangeOutputBound d' = inputRangeOutputBound d := by
  unfold inputRangeOutputBound
  rw [h1, h2, h3, h4, h5]

theorem inputRangeOutputBound_le {d : GemmDesc} {bound : ℕ}
    (h : inputRangeOutputBound d = some bound) : bound ≤ maxOutputBound d.semantics := by
  unfold inputRangeOutputBound at h
  split_ifs at h with h1 h2 h3
  · obtain rfl := Option.some.inj h
    exact not_lt.1 h3

theorem ladder_of_not_unladdered {semantics : Semantics}
    (h : usesRnsStorage semantics = true) :
    ¬ (semantics = .wrapU64Mod2_64 ∨ usesFiniteStorage semantics = true) := by
  cases semantics <;> simp_all [usesRnsStorage, usesFiniteStorage]

theorem usesRnsStorage_of_supported {backend : BackendKind} {semantics : Semantics}
    (h : backendSupportsSemantics backend semantics = true)
    (hn : ¬ (semantics = .wrapU64Mod2_64 ∨ usesFiniteStorage semantics = true)) :
    usesRnsStorage semantics = true := by
  cases backend <;> cases semantics <;>
    simp_all [backendSupportsSemantics, usesRnsStorage, usesFiniteStorage]

theorem validateGemmDesc_unladdered {desc : GemmDesc} {r : ℕ}
    (h : validateGemmDesc desc r = .success)
    (hs : desc.semantics = .wrapU64Mod2_64 ∨ usesFiniteStorage desc.semantics = true) :
    r = 0 ∧ desc.bound = 0 ∧ desc.flags.forceFixedPrefix = false := by
  have hex : exactWideSemantics desc.semantics = false := by
    rcases hs with hs | hs
    · rw [hs]; rfl
    · revert hs; cases desc.semantics <;> simp [usesFiniteStorage, exactWideSemantics]
  unfold validateGemmDesc at h
  simp only [hex, Bool.false_eq_true, if_false] at h
  split at h
  · cases h
  · rcases hs with hs | hs
    · simp only [hs, if_true] at h
      split at h
      · cases h
      · next hc =>
        push Not at hc
        exact ⟨hc.2.2.1, hc.2.1, Bool.eq_false_iff.2 hc.2.2.2⟩
    · have hw : desc.semantics ≠ .wrapU64Mod2_64 := by rintro h0; rw [h0] at hs; cases hs
      simp only [hw, hs, if_false, if_true] at h
      split at h
      · cases h
      · next hc =>
        push Not at hc
        exact ⟨hc.2.2.2.1, hc.2.1, Bool.eq_false_iff.2 hc.2.2.2.2.1⟩

/-- The fields that the per-tile part of plan creation leaves alone. -/
theorem configureTileSchedule_fields {p q : Plan} (h : configureTileSchedule p = .ok q) :
    q.desc = { p.desc with tileBounds := none } ∧ q.rnsPrefix = p.rnsPrefix ∧
      q.modulusProduct = p.modulusProduct ∧ q.backend = p.backend ∧
      q.scheduleTileRows = p.scheduleTileRows ∧ q.scheduleTileCols = p.scheduleTileCols ∧
      q.scheduleTileCount = p.scheduleTileCount ∧
      (q.tileSchedule ≠ [] → q.tileSchedule.length = q.scheduleTileCount) := by
  obtain ⟨bounds, entries, hb, hcount, hloop, rfl⟩ := configureTileSchedule_ok h
  split
  · exact ⟨rfl, rfl, rfl, rfl, rfl, rfl, rfl, fun h0 => absurd rfl h0⟩
  · refine ⟨rfl, rfl, rfl, rfl, rfl, rfl, rfl, fun _ => ?_⟩
    simp only [fillTileSchedule, List.length_map]
    exact (scheduleTiles_getElem? hloop).1

theorem ceilDiv_pos {m t : ℕ} (hm : 0 < m) (ht : t ≠ 0) : 0 < ceilDiv m t :=
  Nat.div_pos (by omega) (Nat.pos_of_ne_zero ht)

/-- **Plan creation.** Every plan that `rns8_create_plan` returns is a `CreatedPlan`. -/
theorem rns8CreatePlan_created {ctx : Context} {desc : GemmDesc} {plan : Plan}
    (h : rns8CreatePlan ctx desc = .ok plan) : CreatedPlan plan := by
  obtain ⟨hval, hsup, bound, hir, hnir, hconf⟩ := rns8CreatePlan_ok h
  obtain ⟨⟨hm, hn, hk⟩, -, hglob, hmask, hlr⟩ :=
    gemmDescCommonOk_spec (validateGemmDesc_commonOk hval)
  have hvb := validateGemmDesc_validBound hval
  have hM : (initialPlan desc (requestedPrefix desc.semantics desc.maxPrefix) bound
      ctx.backend).desc.tileM ≠ 0 := (defaultedTile_pos desc.tileM).ne'
  have hN : (initialPlan desc (requestedPrefix desc.semantics desc.maxPrefix) bound
      ctx.backend).desc.tileN ≠ 0 := (defaultedTile_pos desc.tileN).ne'
  -- a bound derived from the inputs is capped, a given one was checked
  have hbound : desc.semantics = .boundedI64 → bound ≤ 2 ^ 63 := by
    intro hs
    by_cases hki : desc.boundKind = .inputRangeAndK
    · have := inputRangeOutputBound_le (hir hki)
      simpa [maxOutputBound, hs] using this
    · rw [hnir hki]; exact hvb.bound_le hs
  -- a plan with tile bounds has none of its own
  have hptb : isPerTileBoundKind desc.boundKind = true → bound = 0 := by
    intro hp
    rw [hnir (by rintro h0; rw [h0] at hp; cases hp)]
    exact hvb.perTile hp
  obtain ⟨-, aRows, bCols, aCount, bCount, product, -, hcases⟩ :=
    configurePlanSchedule_ok hconf hM hN hmask
  have hkind : ∀ {q : Plan}, q.desc.semantics = desc.semantics →
      q.desc.boundKind = desc.boundKind → (q.desc.semantics = .boundedI64 →
        q.desc.boundKind ∈ [.globalMaxAbs, .perTileMaxAbs, .inputRangeAndK]) ∧
      (q.desc.semantics = .boundedU64 →
        q.desc.boundKind ∈ [.globalMaxUnsigned, .perTileMaxUnsigned, .inputRangeAndK]) ∧
      (exactWideSemantics q.desc.semantics = true → q.desc.boundKind = .none) := by
    intro q h1 h2
    rw [h1, h2]
    exact ⟨hvb.kindI64, hvb.kindU64, fun hx => hvb.kindOther (Or.inr hx)⟩
  rcases hcases with ⟨hsem, rfl⟩ | ⟨hsem, htile, hq⟩ | ⟨hsem, htile, hne, hle, rfl⟩
  -- no residue planes: the invariants of the ladder are vacuous
  · have hladder : usesRnsStorage desc.semantics = true → False := fun hx =>
      ladder_of_not_unladdered hx hsem
    obtain ⟨hk1, hk2, hk3⟩ := hkind (q := initialPlan desc
      (requestedPrefix desc.semantics desc.maxPrefix) bound ctx.backend) rfl rfl
    exact ⟨⟨Nat.pos_of_ne_zero hM, Nat.pos_of_ne_zero hN, rfl, rfl, fun h0 => absurd rfl h0,
      fun i e hi => by cases hi⟩, rfl, hm, hn, hk, le_refl _, hk1, hk2, hk3,
      fun hki => (inputRangeOutputBound_congr rfl rfl rfl rfl rfl).trans (hir hki), hbound, hptb,
      fun hx => (hladder hx).elim, fun hx => (hladder hx).elim,
      fun _ => ⟨rfl, rfl, (validateGemmDesc_unladdered hval hsem).1⟩⟩
  -- a schedule of the tiles, filled by its loop
  · obtain ⟨hd, hr, -, -, hrows, hcols, hcnt, hlen⟩ := configureTileSchedule_fields hq
    obtain ⟨hts, hat⟩ := configureTileSchedule_spec hq
      (Nat.mul_pos (ceilDiv_pos hm hM) (ceilDiv_pos hn hN))
    have hki : desc.boundKind ≠ .inputRangeAndK := by
      rintro h0
      have htile : isPerTileBoundKind desc.boundKind = true := htile
      rw [h0] at htile; cases htile
    obtain ⟨hk1, hk2, hk3⟩ := hkind (q := plan) (by rw [hd]; rfl) (by rw [hd]; rfl)
    refine ⟨⟨by rw [hd]; exact Nat.pos_of_ne_zero hM, by rw [hd]; exact Nat.pos_of_ne_zero hN,
      by rw [hrows, hd]; rfl, by rw [hcols, hd]; rfl, fun h0 => ?_, hat⟩,
      by rw [hcnt, hrows, hcols]; rfl, by rw [hd]; exact hm,
      by rw [hd]; exact hn, by rw [hd]; exact hk, by rw [hr, hd]; exact le_refl _, hk1, hk2, hk3,
      fun h0 => ?_, by rw [hd]; exact hbound, by rw [hd]; exact hptb, fun _ h0 => ?_,
      fun _ _ => hts, fun hx => ?_⟩
    · rw [hlen h0, hcnt, hrows, hcols]; rfl
    · rw [hd] at h0; exact absurd h0 hki
    · rw [hd] at h0; exact absurd htile (Bool.eq_false_iff.1 h0)
    · rw [hd] at hx
      exact absurd (usesRnsStorage_of_supported hsup hsem) (Bool.eq_false_iff.1 hx)
  · obtain ⟨hk1, hk2, hk3⟩ := hkind (q := initialPlan desc
      (requestedPrefix desc.semantics desc.maxPrefix) bound ctx.backend) rfl rfl
    refine ⟨⟨Nat.pos_of_ne_zero hM, Nat.pos_of_ne_zero hN, rfl, rfl, fun h0 => absurd rfl h0,
      fun i e hi => by cases hi⟩, rfl, hm, hn, hk, ?_, hk1, hk2, hk3,
      fun hki => (inputRangeOutputBound_congr rfl rfl rfl rfl rfl).trans (hir hki), hbound, hptb,
      fun _ _ => ⟨rfl, rfl, hne, ?_, rfl⟩, fun _ h0 => absurd h0 (Bool.eq_false_iff.1 htile),
      fun hx => absurd (usesRnsStorage_of_supported hsup hsem) (Bool.eq_false_iff.1 hx)⟩
    -- the selected prefix lies between the required one and the plan's
    · change (if _ then _ else _) ≤ _
      split
      · exact le_refl _
      · exact hle
    · change _ ≤ (if _ then _ else _)
      split
      · exact hle
      · exact le_refl _

/-! ### Prefixes and bounds of the cells -/

namespace CreatedPlan

variable {plan : Plan} {row col : ℕ}

/-- The range of the global bound is the range the plan was scheduled for. -/
theorem scheduleRequiredRange_eq (h : CreatedPlan plan)
    (hs : plan.desc.semantics = .boundedI64 ∨ plan.desc.semantics = .boundedU64) :
    scheduleRequiredRange plan.desc =
      boundedRangeFromBound plan.desc.semantics plan.desc.bound := by
  by_cases hk : plan.desc.boundKind = .inputRangeAndK
  · rcases hs with hs | hs <;> simp [scheduleRequiredRange, hs, hk, h.inputRange hk]
  · rcases hs with hs | hs <;> simp [scheduleRequiredRange, hs, hk]

/-- The grid has as many tiles as the plan counts. -/
theorem tileIndex_lt (h : CreatedPlan plan) (hrow : row < plan.desc.m) (hcol : col < plan.desc.n) :
    tileIndexForCell plan row col < plan.scheduleTileCount := by
  rw [h.tileCount, h.grid.tileRows, h.grid.tileCols]
  have hr := (RowMajor.mem_tile h.grid.tileM_pos hrow).1
  have hc := (RowMajor.mem_tile h.grid.tileN_pos hcol).1
  rw [tileIndexForCell, h.grid.tileCols]
  exact RowMajor.offset_lt hc hr

/-- With per-tile bounds, the prefix of a cell was chosen from the bound of its tile, whether or not
the schedule was dropped as redundant. -/
theorem exists_choice (h : CreatedPlan plan) (hrns : usesRnsStorage plan.desc.semantics = true)
    (htile : isPerTileBoundKind plan.desc.boundKind = true) (hrow : row < plan.desc.m)
    (hcol : col < plan.desc.n) : ∃ entry : TileScheduleEntry,
      selectedPrefixForCell plan row col = entry.selectedPrefix ∧
        TileChoice plan (tileIndexForCell plan row col) entry := by
  have hts := h.perTile hrns htile
  by_cases hnil : plan.tileSchedule = []
  · obtain ⟨entry, hchoice, hsel⟩ := (hts.dropped hnil).2 _ (h.tileIndex_lt hrow hcol)
    exact ⟨entry, by simp [selectedPrefixForCell, tileScheduleEntryForCell, hnil, hsel], hchoice⟩
  · obtain ⟨entry, hget, -, -⟩ := h.grid.exists_entry hnil hrow hcol
    exact ⟨entry, by simp [selectedPrefixForCell, hget], (hts.choice _ _ hget).1⟩

/-- **No cell needs more planes than the plan's storage.** -/
theorem selected_le_storage (h : CreatedPlan plan) (hrns : usesRnsStorage plan.desc.semantics = true)
    (hrow : row < plan.desc.m) (hcol : col < plan.desc.n) :
    selectedPrefixForCell plan row col ≤ rnsStoragePrefixForPlan plan := by
  by_cases htile : isPerTileBoundKind plan.desc.boundKind = true
  · have hts := h.perTile hrns htile
    have hst : rnsStoragePrefixForPlan plan = plan.scheduleMaxSelectedPrefix := by
      simp [rnsStoragePrefixForPlan, htile, hts.max_pos]
    rw [hst]
    by_cases hnil : plan.tileSchedule = []
    · simp [selectedPrefixForCell, tileScheduleEntryForCell, hnil, (hts.dropped hnil).1]
    · obtain ⟨entry, hget, -, -⟩ := h.grid.exists_entry hnil hrow hcol
      rw [selectedPrefixForCell, hget]
      exact (hts.choice _ _ hget).2
  · have hg := h.global hrns (by simpa using htile)
    simp [selectedPrefixForCell, tileScheduleEntryForCell, hg.tileSchedule,
      rnsStoragePrefixForPlan, htile]

/-- The storage a plan asks for is within its prefix. -/
theorem storage_le (h : CreatedPlan plan) (hrns : usesRnsStorage plan.desc.semantics = true) :
    rnsStoragePrefixForPlan plan ≤ plan.rnsPrefix := by
  by_cases htile : isPerTileBoundKind plan.desc.boundKind = true
  · have hts := h.perTile hrns htile
    simpa [rnsStoragePrefixForPlan, htile, hts.max_pos] using hts.max_le
  · simp [rnsStoragePrefixForPlan, htile]

theorem selected_le (h : CreatedPlan plan) (hrns : usesRnsStorage plan.desc.semantics = true)
    (hrow : row < plan.desc.m) (hcol : col < plan.desc.n) :
    selectedPrefixForCell plan row col ≤ plan.rnsPrefix :=
  (h.selected_le_storage hrns hrow hcol).trans (h.storage_le hrns)

/-- The range of the bound declared for the cell is below the product of the moduli selected for
it. -/
theorem carries (h : CreatedPlan plan)
    (hs : plan.desc.semantics = .boundedI64 ∨ plan.desc.semantics = .boundedU64)
    (hmax : selectedPrefixForCell plan row col ≤ 28) (hrow : row < plan.desc.m) (hcol : col < plan.desc.n) :
    0 < selectedPrefixForCell plan row col ∧
      selectedPrefixForCell plan row col ≤ plan.rnsPrefix ∧
      (plan.desc.semantics = .boundedI64 → boundForCell plan row col ≤ 2 ^ 63) ∧
      boundedRangeFromBound plan.desc.semantics (boundForCell plan row col) <
        modulusProduct (selectedPrefixForCell plan row col) := by
  have hrns : usesRnsStorage plan.desc.semantics = true := by
    rcases hs with hs | hs <;> simp [hs, usesRnsStorage]
  by_cases htile : isPerTileBoundKind plan.desc.boundKind = true
  -- tile bounds: the prefix of the tile was chosen for its bound
  · have hts := h.perTile hrns htile
    have hidx : tileIndexForCell plan row col < plan.scheduleTileCount := h.tileIndex_lt hrow hcol
    have hb : boundForCell plan row col =
        plan.tileBounds.getD (tileIndexForCell plan row col) 0 := by
      have hlt := hts.bounds_length ▸ hidx
      simp [boundForCell, List.getD, List.getElem?_eq_getElem hlt]
    obtain ⟨entry, hsel, hchoice⟩ := h.exists_choice hrns htile hrow hcol
    have hle := hchoice.required_le_selected
    have hne := hchoice.required_ne
    rw [hsel] at hmax
    rw [hsel, hb]
    exact ⟨by omega, hle.2, hchoice.bound_le, hchoice.carries hmax⟩
  -- one bound: the prefix of the plan carries it
  · have hg := h.global hrns (by simpa using htile)
    have hsel : selectedPrefixForCell plan row col = plan.rnsPrefix := by
      simp [selectedPrefixForCell, tileScheduleEntryForCell, hg.tileSchedule]
    have hb : boundForCell plan row col = plan.desc.bound := by simp [boundForCell, hg.tileBounds]
    have hspec := requiredPrefixForRange_spec hg.required_ne
    have hle := hg.required_le
    rw [hsel] at hmax
    rw [hsel, hb]
    refine ⟨by omega, le_refl _, h.bound_le, ?_⟩
    rw [← h.scheduleRequiredRange_eq hs]
    exact hspec.2.2.trans_le (modulusProduct_le hle hmax)

/-- The bound of a cell passes the host's contract for the prefix selected for the cell. -/
theorem validateBoundContract_cell (h : CreatedPlan plan)
    (hmax : selectedPrefixForCell plan row col ≤ maxSupportedPrefix) (hrow : row < plan.desc.m)
    (hcol : col < plan.desc.n) :
    (plan.desc.semantics = .boundedI64 → validateBoundContract .boundedI64 .globalMaxAbs
      (boundForCell plan row col) (selectedPrefixForCell plan row col) = .success) ∧
    (plan.desc.semantics = .boundedU64 → validateBoundContract .boundedU64 .globalMaxUnsigned
      (boundForCell plan row col) (selectedPrefixForCell plan row col) = .success) := by
  constructor
  · intro hs
    obtain ⟨h0, -, hb, hfit⟩ := h.carries (Or.inl hs)
      (hmax.trans (by decide)) hrow hcol
    rw [hs, boundedRangeFromBound, if_pos rfl] at hfit
    have hb' : boundForCell plan row col ≤ 9223372036854775808 := hb hs
    simp [validateBoundContract, knownSemantics, h0.ne', not_lt.2 hmax, hb', hfit]
  · intro hs
    obtain ⟨h0, -, -, hfit⟩ := h.carries (Or.inr hs)
      (hmax.trans (by decide)) hrow hcol
    rw [hs, boundedRangeFromBound, if_neg (by decide)] at hfit
    simp [validateBoundContract, knownSemantics, h0.ne', not_lt.2 hmax, hfit]

end CreatedPlan

end Rns8
