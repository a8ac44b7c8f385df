import Rns8.Api.CpuCalls
import Rns8.Api.LiftedMatrices
import Rns8.Results.ExactBounds

/-!
# The automatic GEMM on proven matrices

`rns8_gemm_exact_wide_cpu_auto` stages the missing planes of its operands and all planes of its
output before it writes. On proven operands every staged plane holds the residues of their integers
(`plane_stagedLift`), so that the staged output holds the residues of the exact product
(`autoOutput_read`); a call that stages successfully commits lifted operands and a proven output
(`stageAuto_ok`).
-/

namespace Rns8

open CenteredResidue

/-! ### The selected prefix -/

/-- A prefix within the ceiling was selected because it carries the bound. -/
theorem selectAutoPrefix_le {semantics : Semantics} {bound : ℤ} {first ceiling : ℕ}
    (h : selectAutoPrefix semantics bound first ceiling ≤ ceiling) :
    first ≤ selectAutoPrefix semantics bound first ceiling ∧
      exactRangeFits semantics bound
        (modulusProduct (selectAutoPrefix semantics bound first ceiling)) = true := by
  unfold selectAutoPrefix at h ⊢
  cases hfind : ((List.range (ceiling + 1 - first)).map (first + ·)).find? fun selected =>
      exactRangeFits semantics bound (modulusProduct selected) with
  | none =>
    rw [hfind] at h
    exact absurd h (by simp)
  | some selected =>
    obtain ⟨i, -, hi⟩ := List.mem_map.1 (List.mem_of_find?_eq_some hfind)
    have hfits := List.find?_some hfind
    exact ⟨hi ▸ Nat.le_add_right first i, hfits⟩

/-- No shorter prefix carries the bound. -/
theorem selectAutoPrefix_least {semantics : Semantics} {bound : ℤ} {first ceiling q : ℕ}
    (h : selectAutoPrefix semantics bound first ceiling ≤ ceiling) (hfirst : first ≤ q)
    (hq : q < selectAutoPrefix semantics bound first ceiling) :
    exactRangeFits semantics bound (modulusProduct q) = false := by
  unfold selectAutoPrefix at h hq
  cases hfind : ((List.range (ceiling + 1 - first)).map (first + ·)).find? fun selected =>
      exactRangeFits semantics bound (modulusProduct selected) with
  | none =>
    rw [hfind] at h
    exact absurd h (by simp)
  | some selected =>
    rw [hfind] at h hq
    have hq : q < selected := hq
    have h : selected ≤ ceiling := h
    rw [List.find?_map, Option.map_eq_some_iff] at hfind
    obtain ⟨i, hi, rfl⟩ := hfind
    have hrange := (List.find?_range_eq_some.1 hi).2.2 (q - first) (by omega)
    simpa [Nat.add_sub_cancel' hfirst] using hrange

/-! ### Staged planes -/

/-- **The planes of a staged lift hold the integers** of its matrix. -/
theorem plane_stagedLift {matrix : RnsMatrix} {value : ℕ → ℕ → ℤ} (hm : Proven matrix value)
    {target target' p row col : ℕ} (hp : p < target') (hrow : row < matrix.desc.rows)
    (hcol : col < matrix.desc.cols) :
    (stagedLift matrix value ((preparedLift matrix target).select target')).plane matrix p
        (row * matrix.desc.cols + col) = centeredResidue (value row col) (modulusAt p) := by
  have hin : row * matrix.desc.cols + col < matrix.desc.rows * matrix.desc.cols :=
    RowMajor.offset_lt hcol hrow
  -- a plane below the proven prefix is read from the matrix, the others from the staged planes
  by_cases hsource : p < matrix.exactRangePrefix
  · have hplane : (stagedLift matrix value ((preparedLift matrix target).select target')).plane matrix
        p = fun o => matrix.residues.cell (matrix.desc.rows * matrix.desc.cols * p + o) := by
      unfold stagedLift
      split
      all_goals
        funext o
        exact if_pos hsource
    rw [hplane]
    dsimp only
    rw [← residueIndex_eq]
    exact hm.planes p hsource row hrow col hcol
  · have hcount : ((preparedLift matrix target).select target').stagedCount ≠ 0 := fun h => by
      have hle := (select_stagedCount (preparedLift matrix target) target'
        (Nat.zero_lt_of_lt hin)).1 h
      change target' ≤ matrix.exactRangePrefix at hle
      omega
    unfold stagedLift
    rw [if_neg hcount]
    refine (if_neg hsource).trans ?_
    change centeredResidue (valueAt matrix value ((matrix.desc.rows * matrix.desc.cols *
      (p - matrix.exactRangePrefix) + (row * matrix.desc.cols + col)) %
        (matrix.desc.rows * matrix.desc.cols))) (modulusAt (matrix.exactRangePrefix +
          (matrix.desc.rows * matrix.desc.cols * (p - matrix.exactRangePrefix) +
            (row * matrix.desc.cols + col)) / (matrix.desc.rows * matrix.desc.cols))) = _
    obtain ⟨hdiv, hmod⟩ := RowMajor.offset_parts row hcol
    rw [Nat.mul_add_mod, Nat.mod_eq_of_lt hin, Nat.mul_add_div (Nat.zero_lt_of_lt hin),
      Nat.div_eq_of_lt hin, Nat.add_zero, Nat.add_sub_cancel' (Nat.le_of_not_lt hsource), valueAt,
      hdiv, hmod]

/-- **The staged output is the exact product**, plane by plane. -/
theorem autoOutput_read {plan : Plan} {A B C : RnsMatrix} {u v : ℕ → ℕ → ℤ}
    (hshape : ProductShape plan A B C) {aLift bLift : ExactCpuLift} {selected : ℕ}
    (hselected : selected ≤ 28)
    (hA : ∀ p < selected, ∀ row < plan.desc.m, ∀ kk < plan.desc.k,
      aLift.plane A p (row * A.desc.cols + kk) = centeredResidue (u row kk) (modulusAt p))
    (hB : ∀ p < selected, ∀ kk < plan.desc.k, ∀ col < plan.desc.n,
      bLift.plane B p (kk * B.desc.cols + col) = centeredResidue (v kk col) (modulusAt p))
    {p row col : ℕ} (hp : p < selected) (hrow : row < plan.desc.m) (hcol : col < plan.desc.n) :
    autoOutput plan A B C aLift bLift (plan.desc.m * plan.desc.n) selected
        (plan.desc.m * plan.desc.n * p + (row * plan.desc.n + col)) =
      centeredResidue (matProduct plan.desc.k u v row col) (modulusAt p) := by
  have hin : row * plan.desc.n + col < plan.desc.m * plan.desc.n := RowMajor.offset_lt hcol hrow
  unfold autoOutput
  -- the cell is written in its own pass and left alone by the others
  refine LoopFold.foldl_read_of_touched (I := fun _ => True) (fun output : ℕ → Int8 =>
    output (plan.desc.m * plan.desc.n * p + (row * plan.desc.n + col))) (fun q => q = p)
    (fun _ _ _ _ => trivial) ?_ ?_ ⟨p, List.mem_range.2 hp, rfl⟩ trivial
  · rintro output q - - rfl
    obtain ⟨hlo, hhi⟩ := modulusAt_bounds (show q < 28 by omega)
    have hread := ringGemmModulus_read serialTeam (A := (⟨.a, 0, A.desc.cols⟩ : PlanePtr AutoBuffer))
      (B := ⟨.b, 0, B.desc.cols⟩) (C := ⟨.output, plan.desc.m * plan.desc.n * q, C.desc.cols⟩)
      AutoBuffer.noConfusion AutoBuffer.noConfusion (m := plan.desc.m) (n := plan.desc.n)
      (k := plan.desc.k) (modulusAt_pos (show q < 28 by omega)) hhi hshape.c_cols.ge
      (autoPlanes (aLift.plane A q) (bLift.plane B q) output) hrow hcol
    have haddr : PlanePtr.addr (⟨.output, plan.desc.m * plan.desc.n * q, C.desc.cols⟩ :
        PlanePtr AutoBuffer) row col = plan.desc.m * plan.desc.n * q + (row * plan.desc.n + col) := by
      rw [PlanePtr.addr, hshape.c_cols, Nat.add_assoc]
    rw [PlanePtr.read, haddr] at hread
    refine hread.trans (centeredResidue_congr (by omega) hhi ?_)
    -- the pass multiplies residues of the two integers
    refine dot_modEq (fun kk hkk => ?_) fun kk hkk => ?_
    · have hkk := Finset.mem_range.1 hkk
      have hcell : PlanePtr.read (⟨.a, 0, A.desc.cols⟩ : PlanePtr AutoBuffer)
          (autoPlanes (aLift.plane A q) (bLift.plane B q) output) row kk =
            centeredResidue (u row kk) (modulusAt q) := by
        rw [← hA q hp row hrow kk hkk, PlanePtr.read, PlanePtr.addr, Nat.zero_add]
        rfl
      rw [hcell]
      exact centeredResidue_modEq _ (by omega) hhi
    · have hkk := Finset.mem_range.1 hkk
      have hcell : PlanePtr.read (⟨.b, 0, B.desc.cols⟩ : PlanePtr AutoBuffer)
          (autoPlanes (aLift.plane A q) (bLift.plane B q) output) kk col =
            centeredResidue (v kk col) (modulusAt q) := by
        rw [← hB q hp kk hkk col hcol, PlanePtr.read, PlanePtr.addr, Nat.zero_add]
        rfl
      rw [hcell]
      exact centeredResidue_modEq _ (by omega) hhi
  · -- another plane of the output
    intro output q _ _ hne
    refine ringGemmModulus_frame serialTeam _ _ _ _ _ _ _ _ fun r hr hmem => ?_
    simp only [PlanePtr.addr, hshape.c_cols] at hmem
    have hrows : (r + 1) * plan.desc.n ≤ plan.desc.m * plan.desc.n := Nat.mul_le_mul_right _ hr
    rw [Nat.succ_mul] at hrows
    rcases Nat.lt_or_gt_of_ne hne with hlt | hgt
    · have hmul := Nat.mul_le_mul_left (plan.desc.m * plan.desc.n) hlt
      rw [Nat.mul_succ] at hmul
      omega
    · have hmul := Nat.mul_le_mul_left (plan.desc.m * plan.desc.n) hgt
      rw [Nat.mul_succ] at hmul
      omega

/-! ### Staging -/

/-- What a successful staging established: the selected prefix carries the product, and the staged
values are the lifted operands and the product of their integers. -/
structure StagedAuto (plan : Plan) (A B C : RnsMatrix) (u v : ℕ → ℕ → ℤ) (r : AutoResult) : Prop where
  shape : ProductShape plan A B C
  operands : A.desc.semantics = plan.desc.semantics ∧ B.desc.semantics = plan.desc.semantics
  semantics : C.desc.semantics = plan.desc.semantics
  current : A.hostResiduesCurrent = true ∧ B.hostResiduesCurrent = true
  first : 0 < plan.rnsPrefix ∧ plan.rnsPrefix ≤ r.selected
  ceiling : r.selected ≤ plan.desc.maxPrefix
  within : r.selected ≤ A.rnsPrefix ∧ r.selected ≤ B.rnsPrefix ∧ r.selected ≤ C.rnsPrefix
  fits : exactRangeFits plan.desc.semantics (exactGemmBound plan A B).1
    (modulusProduct r.selected) = true
  least : ∀ q, plan.rnsPrefix ≤ q → q < r.selected →
    exactRangeFits plan.desc.semantics (exactGemmBound plan A B).1 (modulusProduct q) = false
  range : (r.bound, r.ranges) = exactGemmBound plan A B
  left : commitExactCpuLift A r.aLift = liftedTo A u r.selected
  right : commitExactCpuLift B r.bLift = liftedTo B v r.selected
  count : r.outputCount = plan.desc.m * plan.desc.n * r.selected
  output : ∀ p < r.selected, ∀ row < plan.desc.m, ∀ col < plan.desc.n,
    r.output (plan.desc.m * plan.desc.n * p + (row * plan.desc.n + col)) =
      centeredResidue (matProduct plan.desc.k u v row col) (modulusAt p)

section Staging

variable {env : AutoEnv} {ctx : Context} {plan : Plan} {workspace : Workspace} {same : Bool}
  {A B C : RnsMatrix} {u v : ℕ → ℕ → ℤ}

/-- The operands that the checks accept. -/
theorem autoContract_success (h : autoContract ctx plan workspace A B C = .success) :
    ProductShape plan A B C ∧ (A.desc.semantics = plan.desc.semantics ∧
      B.desc.semantics = plan.desc.semantics) ∧ C.desc.semantics = plan.desc.semantics := by
  unfold autoContract at h
  split at h
  · cases h
  split at h
  · cases h
  split at h
  · cases h
  next hexact =>
  simp only at h
  split at h
  · next hws => exact absurd h hws
  split at h
  · cases h
  next hdesc =>
  simp only [operandDescriptorsMatch, Bool.not_eq_true', Bool.not_eq_false,
    Bool.and_eq_true] at hdesc
  obtain ⟨⟨hasem, -⟩, ⟨harows, hacols⟩, -⟩ := matrixDescriptorMatches_spec hdesc.1.1
  obtain ⟨⟨hbsem, -⟩, ⟨hbrows, hbcols⟩, -⟩ := matrixDescriptorMatches_spec hdesc.1.2
  obtain ⟨⟨hsem, -⟩, ⟨hcrows, hccols⟩, -⟩ := matrixDescriptorMatches_spec hdesc.2
  exact ⟨⟨by simpa using hexact, harows, hacols, hbrows, hbcols, hcrows, hccols⟩, ⟨hasem, hbsem⟩,
    hsem⟩

/-- The lifts that were prepared are those of the operands. -/
theorem prepareAuto_ok {aLift bLift : ExactCpuLift} {cCells : ℕ}
    (hsame : same = true → A = B)
    (h : prepareAuto ctx plan same A B C = .ok (aLift, bLift, cCells)) :
    aLift = preparedLift A plan.rnsPrefix ∧ bLift = preparedLift B plan.rnsPrefix ∧
      cCells = C.desc.rows * C.desc.cols ∧ 0 < plan.rnsPrefix ∧
      A.hostResiduesCurrent = true ∧ B.hostResiduesCurrent = true := by
  unfold prepareAuto at h
  split at h
  · cases h
  next a ha =>
  obtain ⟨rfl, hacur⟩ := prepareExactCpuLift_ok ha
  split at h
  · cases h
  next b hb =>
  split at h
  · cases h
  next cells hc =>
  obtain ⟨rfl, hrest⟩ := Prod.mk.inj (Except.ok.inj h)
  obtain ⟨rfl, rfl⟩ := Prod.mk.inj hrest
  obtain ⟨hcells, ⟨hpos, -⟩, -⟩ := exactCpuStorage_ok hc
  have hright : b = preparedLift B plan.rnsPrefix ∧ B.hostResiduesCurrent = true := by
    cases same with
    | true =>
      obtain rfl := Except.ok.inj hb
      rw [← hsame rfl]
      exact ⟨rfl, hacur⟩
    | false => exact prepareExactCpuLift_ok hb
  exact ⟨rfl, hright.1, hcells, hpos, hacur, hright.2⟩

/-- A staged lift of a proven operand. -/
theorem stageExactCpuLift_ok (hs : ExactStorage A) (hm : Proven A u) {alloc : Bool}
    {target target' : ℕ} {lift : ExactCpuLift}
    (h : stageExactCpuLift alloc A ((preparedLift A target).select target') = .ok lift) :
    lift = stagedLift A u ((preparedLift A target).select target') := by
  rw [stageExactCpuLift_eq hs hm rfl rfl rfl] at h
  split at h
  · cases h
  · exact (Except.ok.inj h).symm

/-- **A staging that succeeds** has computed the exact product of proven operands. -/
theorem stageAuto_ok (hA : ExactStorage A) (hB : ExactStorage B)
    (hmA : A.hostResiduesCurrent = true → Proven A u)
    (hmB : B.hostResiduesCurrent = true → Proven B v) (hsame : same = true → A = B ∧ u = v)
    {budget : ℕ} {r : AutoResult}
    (h : stageAuto env ctx plan workspace same A B C budget = .ok r) :
    StagedAuto plan A B C u v r := by
  -- follow the successful path; every other branch is an error
  unfold stageAuto at h
  simp only at h
  split at h
  · cases h
  next hcontract =>
  obtain ⟨hshape, hoperands, hsem⟩ := autoContract_success (not_not.1 hcontract)
  split at h
  · cases h
  next aLift bLift cCells hprepare =>
  obtain ⟨rfl, rfl, rfl, hpos, hacur, hbcur⟩ := prepareAuto_ok (fun hs => (hsame hs).1) hprepare
  have hpA := hmA hacur
  have hpB := hmB hbcur
  split at h
  · cases h
  split at h
  · cases h
  next hceiling =>
  split at h
  · cases h
  split at h
  · cases h
  split at h
  · cases h
  next aStaged haStaged =>
  have hleft := stageExactCpuLift_ok hA hpA haStaged
  split at h
  · cases h
  next bStaged hbStaged =>
  -- one matrix on both sides is lifted once, and its lift is the left one
  have hright : bStaged = stagedLift B v ((preparedLift B plan.rnsPrefix).select
      (selectAutoPrefix plan.desc.semantics (exactGemmBound plan A B).1 plan.rnsPrefix
        (min (min plan.desc.maxPrefix A.rnsPrefix) (min B.rnsPrefix C.rnsPrefix)))) := by
    cases same with
    | true =>
      obtain ⟨hAB, huv⟩ := hsame rfl
      rw [← Except.ok.inj hbStaged, hleft, ← huv]
      simp only [← hAB]
    | false => exact stageExactCpuLift_ok hB hpB hbStaged
  split at h
  · cases h
  obtain rfl := Except.ok.inj h
  have hle := Nat.le_of_not_lt hceiling
  obtain ⟨hfirst, hfits⟩ := selectAutoPrefix_le hle
  have hleast : ∀ {q : ℕ}, plan.rnsPrefix ≤ q → q < _ → _ := selectAutoPrefix_least hle
  -- from here only what was shown of the selected prefix matters
  generalize selectAutoPrefix plan.desc.semantics (exactGemmBound plan A B).1 plan.rnsPrefix
    (min (min plan.desc.maxPrefix A.rnsPrefix) (min B.rnsPrefix C.rnsPrefix)) = selected at *
  have hsupported := hA.prefix_le.2
  subst hleft hright
  refine ⟨hshape, hoperands, hsem, ⟨hacur, hbcur⟩, ⟨hpos, hfirst⟩,
    by simp only; omega, by simp only; omega, hfits,
    fun q h1 h2 => hleast h1 h2, rfl,
    commit_stagedLift hA _ _, commit_stagedLift hB _ _, ?_, fun p hp row hrow col hcol => ?_⟩
  · simp only [hshape.c_rows, hshape.c_cols]
  · simp only [hshape.c_rows, hshape.c_cols]
    refine autoOutput_read hshape (by omega) (fun q hq r' hr' kk hkk => ?_)
      (fun q hq kk hkk c hc => ?_) hp hrow hcol
    · exact plane_stagedLift hpA hq (by rwa [hshape.a_rows]) (by rwa [hshape.a_cols])
    · exact plane_stagedLift hpB hq (by rwa [hshape.b_rows]) (by rwa [hshape.b_cols])

/-- A payload that was added did not overflow. -/
theorem addStagedPayload_some {bytes : ℕ} {total : Option ℕ} {sum : ℕ}
    (h : addStagedPayload bytes total = some sum) : ∃ before, total = some before ∧
      sum = before + bytes := by
  unfold addStagedPayload at h
  split at h
  · cases h
  next before =>
  split at h
  · cases h
  · exact ⟨before, rfl, (Option.some.inj h).symm⟩

/-- **The budget** is the only thing a staging compares with its payload, which is made of the missing
planes of the operands, those of one matrix counted once, and the planes of the output. -/
theorem stageAuto_budget (hsame : same = true → A = B) {budget : ℕ} {r : AutoResult}
    (h : stageAuto env ctx plan workspace same A B C budget = .ok r) :
    r.stagedBytes = liftBytes A r.selected + (if same then 0 else liftBytes B r.selected) +
        r.outputCount ∧
      ∀ budget', stageAuto env ctx plan workspace same A B C budget' =
        if budget' < r.stagedBytes then .error .workspaceTooSmall else .ok r := by
  -- along the successful path both runs take the same branches up to the budget
  unfold stageAuto at h ⊢
  simp only at h ⊢
  split at h
  · cases h
  next hcontract =>
  split at h
  · cases h
  next aLift bLift cCells hprepare =>
  split at h
  · cases h
  next hranges =>
  split at h
  · cases h
  next hceiling =>
  split at h
  · cases h
  next bytes hbytes =>
  split at h
  · cases h
  next hbudget =>
  split at h
  · cases h
  next aStaged haStaged =>
  split at h
  · cases h
  next bStaged hbStaged =>
  split at h
  · cases h
  next hout =>
  obtain rfl := Except.ok.inj h
  constructor
  · obtain ⟨rfl, rfl, -⟩ := prepareAuto_ok hsame hprepare
    unfold autoStagedBytes at hbytes
    obtain ⟨before, hbefore, rfl⟩ := addStagedPayload_some hbytes
    -- two payloads are added for one matrix, three for two
    cases same with
    | true =>
      rw [if_pos rfl] at hbefore
      obtain ⟨start, hstart, rfl⟩ := addStagedPayload_some hbefore
      obtain rfl := Option.some.inj hstart
      simp only [preparedLift_bytes, if_true]
      omega
    | false =>
      rw [if_neg Bool.false_ne_true] at hbefore
      obtain ⟨middle, hmiddle, rfl⟩ := addStagedPayload_some hbefore
      obtain ⟨start, hstart, rfl⟩ := addStagedPayload_some hmiddle
      obtain rfl := Option.some.inj hstart
      simp only [preparedLift_bytes, Bool.false_eq_true, if_false]
      omega
  -- after the budget nothing depends on it
  · intro budget'
    rw [if_neg hcontract, if_neg hranges, if_neg hceiling, if_neg hout]

theorem stageAuto_error {budget : ℕ} {status : Status}
    (h : stageAuto env ctx plan workspace same A B C budget = .error status) : status ≠ .success := by
  -- every branch that stops names its status, and none is success
  unfold stageAuto at h
  simp only at h
  split at h
  · next hcontract =>
    obtain rfl := Except.error.inj h
    exact hcontract
  split at h
  · next hprepare =>
    obtain rfl := Except.error.inj h
    -- the preparation of the two lifts and of the output
    unfold prepareAuto at hprepare
    split at hprepare
    · next ha =>
      obtain rfl := Except.error.inj hprepare
      exact prepareExactCpuLift_error ha
    split at hprepare
    · next hb =>
      obtain rfl := Except.error.inj hprepare
      cases same with
      | true => cases hb
      | false => exact prepareExactCpuLift_error hb
    split at hprepare
    · next hc =>
      obtain rfl := Except.error.inj hprepare
      exact exactCpuStorage_error hc
    · cases hprepare
  split at h
  · cases h; simp
  split at h
  · cases h; simp
  split at h
  · cases h; simp
  split at h
  · cases h; simp
  split at h
  -- the two stagings
  · next ha =>
    obtain rfl := Except.error.inj h
    exact stageExactCpuLift_error ha
  split at h
  · next hb =>
    obtain rfl := Except.error.inj h
    cases same with
    | true => cases hb
    | false => exact stageExactCpuLift_error hb
  split at h
  · cases h; simp
  · cases h

end Staging

/-- **An automatic GEMM** is a rejection that writes nothing, or commits what it has staged. -/
theorem rns8GemmExactWideCpuAuto_cases (env : AutoEnv) (ctx : Context) (plan : Plan)
    (workspace : Workspace) (a b c : Handle) (budget out : ℕ) (s : Store) :
    ((rns8GemmExactWideCpuAuto env ctx plan workspace a b c budget out s).1 ≠ .success ∧
      (rns8GemmExactWideCpuAuto env ctx plan workspace a b c budget out s).2 = (s, out)) ∨
    ∃ A B C r, (s a = some A ∧ s b = some B ∧ s c = some C) ∧ (a ≠ c ∧ b ≠ c) ∧
      stageAuto env ctx plan workspace (decide (a = b)) A B C budget = .ok r ∧
      rns8GemmExactWideCpuAuto env ctx plan workspace a b c budget out s = (.success,
        ((if a = b then s.set a (commitExactCpuLift A r.aLift)
          else (s.set a (commitExactCpuLift A r.aLift)).set b (commitExactCpuLift B r.bLift)).set c
            (commitAutoOutput C r (gemmOutputSourceVersion A B)), r.selected)) := by
  unfold rns8GemmExactWideCpuAuto
  split
  · next A B C hA hB hC =>
    split
    · exact Or.inl ⟨by simp, rfl⟩
    next hne =>
    split
    · next hstage => exact Or.inl ⟨stageAuto_error hstage, rfl⟩
    · next r hstage => exact Or.inr ⟨A, B, C, r, ⟨hA, hB, hC⟩, not_or.1 hne, hstage, rfl⟩
  · exact Or.inl ⟨by simp, rfl⟩

end Rns8
