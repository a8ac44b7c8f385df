import Rns8.Api.AutoGemm
import Rns8.Results.SparseAgreement

/-!
# What the calls make of exact-wide matrices

The matrices that the CPU entry points leave are proven: a new matrix for zero, a packed one for its
source, the output of a GEMM for the product of the integers of its operands. Each section takes one
producer and shows that the storage of its matrix stays sized and that the proof it records is one of
the integers its planes hold.
-/

namespace Rns8

open CenteredResidue

/-! ### Storage -/

section Storage

variable {matrix matrix' : RnsMatrix}

theorem ExactStorage.limbs (h : ExactStorage matrix) :
    matrix.byteLimbs.size = 0 ∧ matrix.hipByteLimbs.isNone = true := by
  have hstorage := h.storage
  unfold rnsMatrixStorageMatches at hstorage
  rw [if_neg (lt_irrefl _)] at hstorage
  split at hstorage
  · cases hstorage
  · simp only [noByteLimbStorage, Bool.and_eq_true, decide_eq_true_eq] at hstorage
    exact hstorage.1.2.1.1

/-- A matrix with the same buffers has sized storage too. -/
theorem ExactStorage.of_same (h : ExactStorage matrix) (hdesc : matrix'.desc = matrix.desc)
    (hbackend : matrix'.backend = matrix.backend) (hfirst : matrix'.rnsPrefix = matrix.rnsPrefix)
    (hsize : matrix'.residues.size = matrix.residues.size)
    (hip : matrix'.hipResidues = matrix.hipResidues) (hlimbs : noByteLimbStorage matrix' = true)
    (hdevice : matrix'.deviceResiduesCurrent = false) : ExactStorage matrix' := by
  refine ⟨by rw [hdesc]; exact h.exact, by rw [hbackend]; exact h.backend,
    by rw [hdesc, hfirst]; exact h.valid, by rw [hdesc, hfirst]; exact h.maxPrefix, ?_⟩
  have hstorage := h.storage
  unfold rnsMatrixStorageMatches at hstorage ⊢
  rw [if_neg (lt_irrefl _)] at hstorage ⊢
  rw [hdesc, hfirst]
  split at hstorage
  · cases hstorage
  · next capacity hcount =>
    simp only [residueDeviceStorageMatches, hipResidentRnsBackend, Bool.and_eq_true,
      Bool.false_eq_true, if_false] at hstorage
    simp only [residueDeviceStorageMatches, hipResidentRnsBackend, hsize, hip, hdevice, hlimbs,
      Bool.false_eq_true, if_false, Bool.not_false, Bool.and_true, Bool.and_eq_true]
    exact ⟨hstorage.1.1, hstorage.2.1⟩

theorem noByteLimbStorage_of_clear (h : ExactStorage matrix)
    (hbytes : matrix'.byteLimbs = matrix.byteLimbs)
    (hip : matrix'.hipByteLimbs = matrix.hipByteLimbs)
    (hhost : matrix'.hostByteLimbsCurrent = false) (hdev : matrix'.deviceByteLimbsCurrent = false) :
    noByteLimbStorage matrix' = true := by
  obtain ⟨hsize, hnone⟩ := h.limbs
  simp [noByteLimbStorage, hbytes, hip, hhost, hdev, hsize, hnone]

/-- Nothing is proven of no summaries. -/
theorem matrixRanges_bounds_empty (rows cols : ℕ) (value : ℕ → ℕ → ℤ) :
    MatrixRanges.Bounds {} rows cols value where
  rows_length := Or.inl rfl
  cols_length := Or.inl rfl
  row := fun _ hr => absurd hr (Nat.not_lt_zero _)
  col := fun _ hc => absurd hc (Nat.not_lt_zero _)

end Storage

/-! ### New matrices -/

theorem validTileSize_default {tile : ℕ} (h : validTileSize tile = true) :
    validTileSize (if tile = 0 then 128 else tile) = true := by
  split
  · decide
  · exact h

/-- The descriptor that a new matrix stores is valid as well. -/
theorem validateMatrixDesc_stored {env : CreateEnv} {ctx : Context} {desc : MatrixDesc} {r : ℕ}
    (hexact : exactWideSemantics desc.semantics = true)
    (h : validateMatrixDesc desc r = .success) :
    validateMatrixDesc (newMatrix env ctx desc r).desc r = .success := by
  unfold validateMatrixDesc at h ⊢
  simp only [newMatrix] at h ⊢
  split at h
  · cases h
  next habi =>
  split at h
  · cases h
  next hdims =>
  split at h
  · cases h
  next hflags =>
  split at h
  · cases h
  next hknown =>
  split at h
  · cases h
  next hld =>
  split at h
  · cases h
  next htile =>
  simp only [Bool.or_eq_true, Bool.not_eq_true', not_or, Bool.not_eq_false] at htile
  -- the stored leading dimension is the given one or the default
  have hld' : ¬((if desc.logicalLd = 0 then desc.cols else desc.logicalLd) ≠ 0 ∧
      (if desc.logicalLd = 0 then desc.cols else desc.logicalLd) < desc.cols) := by
    split
    · exact fun hlt => lt_irrefl _ hlt.2
    · exact hld
  simp only [habi, hdims, hflags, hknown, hld', validTileSize_default htile.1,
    validTileSize_default htile.2, if_false, Bool.not_true, Bool.or_self, Bool.false_eq_true]
  cases hs : desc.semantics with
  | exactWideSigned | exactWideUnsigned =>
    rw [hs] at h
    exact h
  | _ => rw [hs] at hexact; cases hexact

/-- The storage check on a matrix whose residues are counted. -/
theorem rnsMatrixStorageMatches_of_count {matrix : RnsMatrix} {backend : BackendKind}
    {rows cols budget elements : ℕ} (hcount : rnsResidueCount rows cols budget = some elements)
    (hbudget : matrix.rnsPrefix = budget) (hsize : matrix.residues.size = elements)
    (hlimbs : noByteLimbStorage matrix = true)
    (hdevice : residueDeviceStorageMatches matrix backend elements = true) :
    rnsMatrixStorageMatches matrix backend rows cols budget = true := by
  subst hbudget
  rw [rnsMatrixStorageMatches, if_neg (lt_irrefl _), hcount]
  simp [hsize, hlimbs, hdevice]

/-- **A new exact-wide matrix is proven for zero.** -/
theorem rns8CreateMatrix_exact {env : CreateEnv} {ctx : Context} {desc : MatrixDesc}
    {matrix : RnsMatrix} (hcpu : ctx.backend = .cpuReference)
    (hexact : exactWideSemantics desc.semantics = true)
    (h : rns8CreateMatrix env ctx desc = .ok matrix) :
    (ExactStorage matrix ∧ Proven matrix (fun _ _ => 0)) ∧ matrix.sourceVersion = 0 := by
  have hrns := usesRnsStorage_of_exact hexact
  have hfresh := rns8CreateMatrix_cpu hcpu hrns h
  have hkind : desc.semantics ≠ .wrapU64Mod2_64 ∧ usesFiniteStorage desc.semantics = false := by
    cases hs : desc.semantics <;> simp_all [exactWideSemantics, usesFiniteStorage]
  -- the storage of a new matrix on the CPU has the length its descriptor asks for
  have hstorage : ExactStorage matrix ∧ matrix.sourceVersion = 0 := by
    unfold rns8CreateMatrix at h
    split at h
    · cases h
    simp only at h
    generalize (if desc.maxPrefix = 0 then defaultPrefixForSemantics desc.semantics
      else desc.maxPrefix) = r at h
    split at h
    · cases h
    next hvalid =>
    split at h
    · cases h
    split at h
    · cases h
    rw [if_neg (by simp [hcpu, nativeVectorBackend])] at h
    cases hstore : withHostStorage ctx (newMatrix env ctx desc r) with
    | error status => rw [hstore] at h; cases h
    | ok M =>
      rw [hstore] at h
      simp only [hcpu, hipResidentRnsBackend, Bool.false_eq_true, if_false, Except.ok.injEq] at h
      subst h
      unfold withHostStorage at hstore
      simp only [newMatrix, hkind.1, hkind.2, if_false, Bool.false_eq_true] at hstore
      split at hstore
      · cases hstore
      next elements hcount =>
      obtain rfl := Except.ok.inj hstore
      refine ⟨⟨hexact, hcpu, @validateMatrixDesc_stored env ctx desc r hexact (not_not.1 hvalid),
        rfl, ?_⟩, rfl⟩
      exact rnsMatrixStorageMatches_of_count hcount rfl rfl
        (by simp [noByteLimbStorage, clearByteLimbCurrent])
        (by simp [residueDeviceStorageMatches, hipResidentRnsBackend, clearByteLimbCurrent])
  -- its cells are zero in every plane, and so are its magnitude and its ranges
  have hfirst : matrix.exactRangePrefix = matrix.rnsPrefix := by rw [hfresh.proven, if_pos hexact]
  have hmax := hfresh.prefix_le
  have h20 : maxSupportedPrefix = 20 := rfl
  refine ⟨⟨hstorage.1, ?_, hfirst.le, ⟨hfresh.magnitude.ge, fun r _ c _ => by
    rw [hfresh.magnitude]; simp, ?_⟩, ?_, fun _ _ _ _ _ => le_rfl, fun p hp row _ col _ => ?_⟩,
    hstorage.2⟩
  · rw [hfirst]
    exact hfresh.prefix_pos
  · rw [hfresh.ranges]
    exact matrixRanges_bounds_empty _ _ _
  · have hpos : 0 < modulusProduct matrix.exactRangePrefix :=
      modulusProduct_pos (by omega)
    rw [hfresh.magnitude]
    simp only [exactRangeFits, le_refl, decide_true, Bool.true_and, zero_mul]
    split <;> simpa using hpos
  · rw [hfresh.cells, centeredResidue_zero (modulusAt_pos (by omega))]

/-! ### Packed matrices -/

section Packs

variable {ctx : Context} {matrix : RnsMatrix} {source : PackSource} {version : UInt64}
  {proof : ℤ × MatrixRanges}

/-- The proof of a pack on the CPU: the ranges of its source, which fit all planes. -/
theorem packExactProof_ok (hcpu : ctx.backend = .cpuReference) {ranges : Bool}
    (hsem : matrix.desc.semantics = source.exactWide)
    (h : packExactProof ranges ctx matrix source version = .ok proof) :
    proof = ((nativeExactRanges matrix.desc.rows matrix.desc.cols source.value).2,
        (nativeExactRanges matrix.desc.rows matrix.desc.cols source.value).1) ∧
      exactRangeFits matrix.desc.semantics proof.1 (modulusProduct matrix.rnsPrefix) = true := by
  have helided : sameSourceDeviceResiduePackCurrent ctx matrix version = false := by
    simp [sameSourceDeviceResiduePackCurrent, hcpu, hipResidentRnsBackend]
  unfold packExactProof at h
  rw [if_neg (not_not.2 hsem)] at h
  split at h
  · cases h
  simp only [helided, Bool.false_eq_true, if_false] at h
  split at h
  · cases h
  split at h
  · next hfits =>
    obtain rfl := Except.ok.inj h
    exact ⟨rfl, hfits⟩
  · cases h

/-- **A packed exact-wide matrix is proven for its source.** -/
theorem packedMatrix_exact (hs : ExactStorage matrix) (hcpu : ctx.backend = .cpuReference)
    {ranges : Bool} (hsem : matrix.desc.semantics = source.exactWide)
    (hnonneg : matrix.desc.semantics = .exactWideUnsigned → ∀ row col, 0 ≤ source.value row col)
    (h : packExactProof ranges ctx matrix source version = .ok proof) :
    (ExactStorage (packedMatrix matrix source version proof) ∧
      Proven (packedMatrix matrix source version proof) source.value) ∧
      (packedMatrix matrix source version proof).sourceVersion = version := by
  obtain ⟨rfl, hfits⟩ := packExactProof_ok hcpu hsem h
  obtain ⟨hbounds, hmax⟩ := nativeExactRanges_bounds matrix.desc.rows matrix.desc.cols source.value
  have hread := fun p hp row hrow col hcol => @packedMatrix_read matrix source version
    ((nativeExactRanges matrix.desc.rows matrix.desc.cols source.value).2,
      (nativeExactRanges matrix.desc.rows matrix.desc.cols source.value).1) p row col hp hrow hcol
  unfold packedMatrix at hread ⊢
  rw [if_pos hsem] at hread ⊢
  exact ⟨⟨hs.of_same rfl rfl rfl rfl rfl (noByteLimbStorage_of_clear hs rfl rfl rfl rfl) rfl,
    ⟨hs.prefix_le.1, le_rfl, ⟨nativeExactRanges_nonneg _ _ _, hmax, hbounds⟩, hfits,
      fun hkind row _ col _ => hnonneg hkind row col, hread⟩⟩, rfl⟩

end Packs

/-! ### Outputs -/

/-- The output of an exact-wide GEMM on the CPU, with its range and its version. -/
def exactOutput (C : RnsMatrix) (plan : Plan) (cell : ℕ → Int8) (version : UInt64) (bound : ℤ)
    (ranges : MatrixRanges) : RnsMatrix :=
  commitExactRange { markOutputHostResiduesCurrent (C.withPlanes cell) with sourceVersion := version }
    plan bound ranges

/-- What a GEMM establishes about the integers `value` of its output before it commits. -/
structure ProvesOutput (plan : Plan) (bound : ℤ) (ranges : MatrixRanges) (value : ℕ → ℕ → ℤ) :
    Prop where
  nonneg : 0 ≤ bound
  magnitude : ∀ row < plan.desc.m, ∀ col < plan.desc.n, |value row col| ≤ bound
  ranges : ranges.Bounds plan.desc.m plan.desc.n value
  unsigned : plan.desc.semantics = .exactWideUnsigned → ∀ row < plan.desc.m, ∀ col < plan.desc.n,
    0 ≤ value row col

section Outputs

variable {C : RnsMatrix} {plan : Plan} {cell : ℕ → Int8} {version : UInt64} {bound : ℤ}
  {ranges : MatrixRanges} {value : ℕ → ℕ → ℤ}

/-- **A committed output is proven for its product.** -/
theorem exactOutput_proven (hs : ExactStorage C)
    (hshape : (C.desc.rows = plan.desc.m ∧ C.desc.cols = plan.desc.n) ∧
      C.desc.semantics = plan.desc.semantics)
    (hfirst : 0 < plan.rnsPrefix ∧ plan.rnsPrefix ≤ C.rnsPrefix)
    (hproof : ProvesOutput plan bound ranges value)
    (hfits : exactRangeFits plan.desc.semantics bound (modulusProduct plan.rnsPrefix) = true)
    (hcell : ∀ p < plan.rnsPrefix, ∀ row < plan.desc.m, ∀ col < plan.desc.n,
      cell (residueIndex C p row col) = centeredResidue (value row col) (modulusAt p)) :
    (ExactStorage (exactOutput C plan cell version bound ranges) ∧
      Proven (exactOutput C plan cell version bound ranges) value) ∧
      (exactOutput C plan cell version bound ranges).sourceVersion = version := by
  have hexact : exactWideSemantics plan.desc.semantics = true := hshape.2 ▸ hs.exact
  obtain ⟨⟨hrows, hcols⟩, hsem⟩ := hshape
  unfold exactOutput commitExactRange
  rw [if_pos hexact]
  rw [← hrows, ← hcols] at hcell
  rw [← hsem] at hfits
  refine ⟨⟨hs.of_same rfl rfl rfl rfl rfl (noByteLimbStorage_of_clear hs rfl rfl rfl rfl) rfl,
    ⟨hfirst.1, hfirst.2, ⟨hproof.nonneg, ?_, ?_⟩, hfits, ?_, hcell⟩⟩, rfl⟩
  · change ∀ row < C.desc.rows, ∀ col < C.desc.cols, _
    rw [hrows, hcols]
    exact hproof.magnitude
  · change ranges.Bounds C.desc.rows C.desc.cols value
    rw [hrows, hcols]
    exact hproof.ranges
  · change C.desc.semantics = _ → ∀ row < C.desc.rows, ∀ col < C.desc.cols, _
    rw [hrows, hcols, hsem]
    exact hproof.unsigned

theorem ExactStorage.withPlanes (hs : ExactStorage C) (cell : ℕ → Int8) :
    ExactStorage (C.withPlanes cell) :=
  ⟨hs.exact, hs.backend, hs.valid, hs.maxPrefix, hs.storage⟩

/-- The output that a kernel finds is not current. -/
theorem preparedOutput_storage (hs : ExactStorage C)
    (hexact : exactWideSemantics plan.desc.semantics = true) :
    ExactStorage (preparedOutput plan C) ∧ (preparedOutput plan C).hostResiduesCurrent = false ∧
      (preparedOutput plan C).rnsPrefix = C.rnsPrefix := by
  unfold preparedOutput
  rw [if_pos hexact]
  exact ⟨hs.of_same rfl rfl rfl rfl rfl (noByteLimbStorage_of_clear hs rfl rfl rfl rfl) rfl, rfl, rfl⟩

/-- A plan without per-tile bounds uses its prefix in every cell and declares none zero. -/
theorem CreatedPlan.exact_cells (h : CreatedPlan plan)
    (hexact : exactWideSemantics plan.desc.semantics = true) (row col : ℕ) :
    selectedPrefixForCell plan row col = plan.rnsPrefix ∧ zeroOutputForCell plan row col = false := by
  have htile : isPerTileBoundKind plan.desc.boundKind = false := by
    rw [h.kindExact hexact]
    rfl
  have hglobal := h.global (usesRnsStorage_of_exact hexact) htile
  simp [selectedPrefixForCell, zeroOutputForCell, tileScheduleEntryForCell, hglobal.tileSchedule]

end Outputs

/-! ### GEMMs -/

section Gemms

variable {ctx : Context} {env : GemmEnv} {plan : Plan} {workspace : Workspace} {a b c : Handle}
  {s : Store} {A B C : RnsMatrix} {u v : ℕ → ℕ → ℤ}

/-- What the range check of a dense GEMM accepts. -/
theorem exactGemmRange_spec {range : ℤ × MatrixRanges} (h : exactGemmRange plan A B = .ok range)
    (hexact : exactWideSemantics plan.desc.semantics = true) :
    (plan.rnsPrefix ≤ A.exactRangePrefix ∧ plan.rnsPrefix ≤ B.exactRangePrefix) ∧
      range = exactGemmBound plan A B ∧
      exactRangeFits plan.desc.semantics range.1 plan.modulusProduct = true := by
  have hrange := exactGemmRange_ok h hexact
  unfold exactGemmRange at h
  rw [hexact, Bool.not_true, if_neg Bool.false_ne_true] at h
  split at h
  · cases h
  next hfirst =>
  dsimp only at h
  split at h
  · next hfits =>
    obtain rfl := Except.ok.inj h
    exact ⟨by omega, rfl, hfits⟩
  · cases h

/-- What the range check of a sparse GEMM accepts. -/
theorem sparseGemmRange_prefix {S : SparseMatrix} {bound : ℤ}
    (h : sparseGemmRange plan S b c B = .ok bound)
    (hexact : exactWideSemantics plan.desc.semantics = true) :
    plan.rnsPrefix ≤ S.exactRangePrefix ∧ plan.rnsPrefix ≤ B.exactRangePrefix := by
  unfold sparseGemmRange at h
  rw [hexact, Bool.not_true, if_neg Bool.false_ne_true] at h
  split at h
  · cases h
  split at h
  · cases h
  · omega

/-- A product of unsigned matrices is unsigned. -/
theorem matProduct_nonneg {k row col : ℕ} (hu : ∀ i < k, 0 ≤ u row i) (hv : ∀ i < k, 0 ≤ v i col) :
    0 ≤ matProduct k u v row col :=
  Finset.sum_nonneg fun i hi =>
    mul_nonneg (hu i (Finset.mem_range.1 hi)) (hv i (Finset.mem_range.1 hi))

/-- **The kernel of an exact-wide plan** writes the residues of the product of the integers whose
residues its operands have. -/
theorem cpuGemmRns_exact {env : CpuEnv} {mem mem' : Planes Handle} (hplan : CreatedPlan plan)
    (hexact : exactWideSemantics plan.desc.semantics = true) (hle : plan.rnsPrefix ≤ 20)
    (hshape : C.desc.rows = plan.desc.m ∧ C.desc.cols = plan.desc.n) (hac : a ≠ c) (hbc : b ≠ c)
    (hmemA : mem a = A.residues.cell) (hmemB : mem b = B.residues.cell)
    (hrun : cpuGemmRns env plan a b c A B C mem = (.success, mem'))
    (hu : ∀ p < plan.rnsPrefix, ∀ row < plan.desc.m, ∀ kk < plan.desc.k,
      (A.residues.cell (residueIndex A p row kk)).toInt ≡ u row kk [ZMOD modulusAt p])
    (hv : ∀ p < plan.rnsPrefix, ∀ kk < plan.desc.k, ∀ col < plan.desc.n,
      (B.residues.cell (residueIndex B p kk col)).toInt ≡ v kk col [ZMOD modulusAt p]) :
    ∀ p < plan.rnsPrefix, ∀ row < plan.desc.m, ∀ col < plan.desc.n,
      mem' c (residueIndex C p row col) =
        centeredResidue (matProduct plan.desc.k u v row col) (modulusAt p) := by
  intro p hp row hrow col hcol
  have hloop : kernelLoop (gemmArgs plan a b c A B C modulusAt) env 0 (cpuGemmCalls plan) mem =
      (.success, mem') := by
    rcases cpuGemmRns_cases env plan a b c A B C mem with heq | ⟨-, heq⟩
    · rw [heq] at hrun
      cases hrun
    · rwa [heq] at hrun
  refine scheduledLoop_residues hplan (by omega) hshape hac hbc hloop
    (fun r hr q hq p' hp' => ?_) hrow hcol (by rwa [(hplan.exact_cells hexact row col).1])
  obtain ⟨hsel, hzero⟩ := hplan.exact_cells hexact r q
  rw [hsel] at hp'
  rw [hzero, if_neg Bool.false_ne_true, cellDot_eq_residueDot hmemA hmemB]
  exact dot_modEq (fun kk hkk => hu p' hp' r hr kk (Finset.mem_range.1 hkk))
    fun kk hkk => hv p' hp' kk (Finset.mem_range.1 hkk) q hq

/-- The residues of a proven matrix are those of its integers. -/
theorem Proven.modEq (hm : Proven A u) (hs : ExactStorage A) {p row col : ℕ}
    (hp : p < A.exactRangePrefix) (hrow : row < A.desc.rows) (hcol : col < A.desc.cols) :
    (A.residues.cell (residueIndex A p row col)).toInt ≡ u row col [ZMOD modulusAt p] := by
  have hfirst := hm.prefix_le
  have hmax := hs.prefix_le.2
  have hp28 : p < 28 := by omega
  rw [hm.planes p hp row hrow col hcol]
  exact centeredResidue_modEq _ (modulusAt_pos hp28) (modulusAt_bounds hp28).2

/-- A branch that fails leaves an output that is not current. -/
theorem cpuBranchGemmRns_rejected {range : ℤ × MatrixRanges}
    (h : (cpuBranchGemmRns env plan a b c A B C range s).1 ≠ .success) :
    ∃ cell, (cpuBranchGemmRns env plan a b c A B C range s).2 = C.withPlanes cell := by
  unfold cpuBranchGemmRns at h ⊢
  split
  · next heq => simp [heq] at h
  · exact ⟨_, rfl⟩

/-- A branch that succeeds commits what its kernel left. -/
theorem cpuBranchGemmRns_committed {range : ℤ × MatrixRanges}
    (h : (cpuBranchGemmRns env plan a b c A B C range s).1 = .success) :
    ∃ mem, cpuGemmRns env.cpu plan a b c A B C s.planes = (.success, mem) ∧
      (cpuBranchGemmRns env plan a b c A B C range s).2 =
        exactOutput C plan (mem c) (gemmOutputSourceVersion A B) range.1 range.2 := by
  unfold cpuBranchGemmRns at h ⊢
  generalize cpuGemmRns env.cpu plan a b c A B C s.planes = r at h ⊢
  obtain ⟨status, mem⟩ := r
  cases status with
  | success => exact ⟨mem, rfl, rfl⟩
  | _ => cases h

theorem sparseBranch_committed {S : SparseMatrix} {bound : ℤ}
    (h : (sparseBranch env plan S b c B C bound s).1 = .success) :
    ∃ mem, cpuGemmRns env.cpu plan (temporary b c) b c (makeSparseExpandedRnsMatrix S plan) B C
        (s.planesWith b c (makeSparseExpandedRnsMatrix S plan)) = (.success, mem) ∧
      (sparseBranch env plan S b c B C bound s).2 = exactOutput C plan (mem c)
        (gemmOutputSourceVersionValues S.sourceVersion B.sourceVersion) bound {} := by
  unfold sparseBranch at h ⊢
  generalize cpuGemmRns env.cpu plan (temporary b c) b c (makeSparseExpandedRnsMatrix S plan) B C
    (s.planesWith b c (makeSparseExpandedRnsMatrix S plan)) = r at h ⊢
  obtain ⟨status, mem⟩ := r
  cases status with
  | success => exact ⟨mem, rfl, rfl⟩
  | _ => cases h

theorem sparseBranch_rejected {S : SparseMatrix} {bound : ℤ}
    (h : (sparseBranch env plan S b c B C bound s).1 ≠ .success) :
    ∃ cell, (sparseBranch env plan S b c B C bound s).2 = C.withPlanes cell := by
  unfold sparseBranch at h ⊢
  split
  · next heq => simp [heq] at h
  · exact ⟨_, rfl⟩

/-- **A dense GEMM** that was accepted leaves a matrix proven for the product of the integers of its
operands, or one that is not current. -/
theorem cpuBranchGemmRns_exact {range : ℤ × MatrixRanges} (env : GemmEnv) (hplan : CreatedPlan plan)
    (hcpu : plan.backend = .cpuReference) (hcall : GemmRnsCall ctx plan workspace a b c s A B C range)
    (hA : ExactStorage A) (hB : ExactStorage B) (hC : ExactStorage C)
    (hmA : A.hostResiduesCurrent = true → Proven A u)
    (hmB : B.hostResiduesCurrent = true → Proven B v) :
    let out := cpuBranchGemmRns env plan a b c A B (preparedOutput plan C) range s
    (out.1 = .success → (ExactStorage out.2 ∧ Proven out.2 (matProduct plan.desc.k u v)) ∧
      out.2.sourceVersion = gemmOutputSourceVersion A B) ∧
    (out.1 ≠ .success → ExactStorage out.2 ∧ out.2.hostResiduesCurrent = false) := by
  have hops := validateRnsGemmOperands_cpu hcpu hcall.operands
  have hexact : exactWideSemantics plan.desc.semantics = true := hops.left.semantics ▸ hA.exact
  obtain ⟨hac, hbc⟩ := hops.separate hexact
  have hpA := hmA hops.left_current
  have hpB := hmB hops.right_current
  obtain ⟨hprepared, hcurrent, hfirst⟩ := preparedOutput_storage hC hexact
  obtain ⟨⟨hlA, hlB⟩, hrange, hfits⟩ := exactGemmRange_spec hcall.range hexact
  obtain ⟨hpos, hle, hmax, hproduct⟩ := planScheduleContractMatches_ladder
    (validatePlanContextWorkspace_success hcall.workspace).1 hops.semantics
  have h20 : maxSupportedPrefix = 20 := rfl
  -- the call that fails first: the output was invalidated before the loop
  refine ⟨fun hst => ?_, fun hst => ?_⟩
  swap
  · obtain ⟨cell, hcell⟩ := cpuBranchGemmRns_rejected hst
    rw [hcell]
    exact ⟨hprepared.withPlanes cell, hcurrent⟩
  obtain ⟨mem, hrun, hout⟩ := cpuBranchGemmRns_committed hst
  rw [hout]
  have hshape : (preparedOutput plan C).desc.rows = plan.desc.m ∧
      (preparedOutput plan C).desc.cols = plan.desc.n := by
    rw [preparedOutput_desc]
    exact ⟨hops.out.rows, hops.out.cols⟩
  -- the magnitude and the ranges cover the product, and the prefix carries the magnitude
  obtain ⟨hbound, hranges⟩ := exactGemmBound_sound hpA.range hpB.range hops.left.rows hops.left.cols
    hops.right.rows hops.right.cols
  have hnonneg := @exactGemmBound_nonneg plan _ _ hpA.range.nonneg hpB.range.nonneg
  rw [← hrange] at hbound hranges hnonneg
  have hstorage : rnsStoragePrefixForPlan plan = plan.rnsPrefix := by
    simp [rnsStoragePrefixForPlan, hplan.kindExact hexact, isPerTileBoundKind]
  refine exactOutput_proven hprepared ⟨hshape, by rw [preparedOutput_desc]; exact hops.out.semantics⟩
    ⟨hpos, by rw [hfirst, ← hstorage]; exact hops.out.storage⟩
    ⟨hnonneg, hbound, hranges, fun hkind row hrow col hcol => ?_⟩ (hproduct ▸ hfits) ?_
  -- unsigned operands have an unsigned product
  · refine matProduct_nonneg (fun i hi => hpA.nonneg (hops.left.semantics ▸ hkind) row ?_ i ?_)
      fun i hi => hpB.nonneg (hops.right.semantics ▸ hkind) i ?_ col ?_
    · rwa [hops.left.rows]
    · rwa [hops.left.cols]
    · rwa [hops.right.rows]
    · rwa [hops.right.cols]
  -- every plane of the output is the product of the planes of the operands
  · refine cpuGemmRns_exact hplan hexact (by omega) hshape hac hbc (planes_of_some hcall.left)
      (planes_of_some hcall.right) hrun (fun p hp row hrow kk hkk => ?_)
      fun p hp kk hkk col hcol => ?_
    · exact hpA.modEq hA (by omega) (by rwa [hops.left.rows]) (by rwa [hops.left.cols])
    · exact hpB.modEq hB (by omega) (by rwa [hops.right.rows]) (by rwa [hops.right.cols])

/-- **The output of an automatic GEMM** is proven for the product, in all planes it selected. -/
theorem commitAutoOutput_exact {r : AutoResult} (hC : ExactStorage C)
    (hpA : Proven A u) (hpB : Proven B v) (hr : StagedAuto plan A B C u v r) (version : UInt64) :
    (ExactStorage (commitAutoOutput C r version) ∧
      Proven (commitAutoOutput C r version) (matProduct plan.desc.k u v)) ∧
      (commitAutoOutput C r version).sourceVersion = version := by
  obtain ⟨hbound, hranges⟩ := exactGemmBound_sound hpA.range hpB.range hr.shape.a_rows
    hr.shape.a_cols hr.shape.b_rows hr.shape.b_cols
  have hnonneg := @exactGemmBound_nonneg plan _ _ hpA.range.nonneg hpB.range.nonneg
  have hfits := hr.fits
  have hboundEq : r.bound = (exactGemmBound plan A B).1 := congrArg Prod.fst hr.range
  have hrangesEq : r.ranges = (exactGemmBound plan A B).2 := congrArg Prod.snd hr.range
  rw [← hboundEq] at hbound hnonneg hfits
  rw [← hrangesEq] at hranges
  rw [← hr.semantics] at hfits
  have hselected := hr.within.2.2
  have hpos := lt_of_lt_of_le hr.first.1 hr.first.2
  unfold commitAutoOutput
  refine ⟨⟨hC.of_same rfl rfl rfl rfl rfl (noByteLimbStorage_of_clear hC rfl rfl rfl rfl) rfl,
    ⟨hpos, hselected, ⟨hnonneg, ?_, ?_⟩, hfits, ?_, ?_⟩⟩, rfl⟩
  · change ∀ row < C.desc.rows, ∀ col < C.desc.cols, _
    rw [hr.shape.c_rows, hr.shape.c_cols]
    exact hbound
  · change r.ranges.Bounds C.desc.rows C.desc.cols _
    rw [hr.shape.c_rows, hr.shape.c_cols]
    exact hranges
  · change C.desc.semantics = _ → ∀ row < C.desc.rows, ∀ col < C.desc.cols, _
    rw [hr.shape.c_rows, hr.shape.c_cols, hr.semantics]
    intro hkind row hrow col hcol
    refine matProduct_nonneg (fun i hi => hpA.nonneg (hr.operands.1.trans hkind) row ?_ i ?_)
      fun i hi => hpB.nonneg (hr.operands.2.trans hkind) i ?_ col ?_
    · rwa [hr.shape.a_rows]
    · rwa [hr.shape.a_cols]
    · rwa [hr.shape.b_rows]
    · rwa [hr.shape.b_cols]
  -- the planes of the selected prefix come from the staged output
  · change ∀ p < r.selected, ∀ row < C.desc.rows, ∀ col < C.desc.cols,
      (if residueIndex C p row col < r.outputCount then r.output (residueIndex C p row col)
        else C.residues.cell (residueIndex C p row col)) = _
    intro p hp row hrow col hcol
    rw [hr.shape.c_rows] at hrow
    rw [hr.shape.c_cols] at hcol
    rw [residueIndex_eq, hr.shape.c_rows, hr.shape.c_cols, hr.count, if_pos]
    · exact hr.output p hp row hrow col hcol
    · have hin : row * plan.desc.n + col < plan.desc.m * plan.desc.n := RowMajor.offset_lt hcol hrow
      have hmul := Nat.mul_le_mul_left (plan.desc.m * plan.desc.n) hp
      rw [Nat.mul_succ] at hmul
      omega

/-! ### Sparse operands -/

/-- An exact-wide sparse matrix on the CPU. -/
structure SparseStorage (S : SparseMatrix) : Prop where
  exact : exactWideSemantics S.desc.semantics = true
  backend : S.backend = .cpuReference
  valid : ∃ planes, sparseContractValid S.desc = some planes

/-- The packed form of the sparse matrix is that of the residues of the integers `value`. -/
def PackedSparse (S : SparseMatrix) (value : ℕ → ℕ → ℤ) : Prop :=
  S.exactRangePrefix = S.desc.maxPrefix ∧ ∃ dense ld, S.desc.expandedK ≤ ld ∧
    packSparseA4To2 S.desc dense ld = .ok (S.packedValues, S.packedIndices) ∧
    S.exactMaxMagnitude = sparseMaximum S.desc dense ld ∧ value = sparseCellValue S.desc dense ld

/-- The integers of an unsigned source are not negative. -/
theorem sparseCellValue_nonneg {desc : SparseMatrixDesc} (hmax : desc.maxPrefix ≤ maxSupportedPrefix)
    (hkind : desc.semantics = .exactWideUnsigned) (dense : ℕ → UInt8) (ld row col : ℕ) :
    0 ≤ sparseCellValue desc dense ld row col := by
  have h20 : maxSupportedPrefix = 20 := rfl
  unfold sparseCellValue
  dsimp only
  rw [if_neg (by rw [hkind]; decide)]
  exact (reconstruct_foldl _ (by omega)).2.1

/-- What an accepted sparse operand gives a GEMM: its expanded planes have the residues of its
integers, which its magnitude bounds. -/
theorem PackedSparse.operand {S : SparseMatrix} (hS : SparseStorage S) (hp : PackedSparse S u)
    (hplan : CreatedPlan plan) (hexact : exactWideSemantics plan.desc.semantics = true)
    (hmatch : sparseRnsMatchesPlan S plan = true) :
    (∀ p < plan.rnsPrefix, ∀ row < plan.desc.m, ∀ kk < plan.desc.k,
      ((makeSparseExpandedRnsMatrix S plan).residues.cell
        (residueIndex (makeSparseExpandedRnsMatrix S plan) p row kk)).toInt ≡ u row kk
          [ZMOD modulusAt p]) ∧
    (∀ row < plan.desc.m, ∀ kk < plan.desc.k, |u row kk| ≤ S.exactMaxMagnitude) ∧
    (plan.desc.semantics = .exactWideUnsigned → ∀ row kk, 0 ≤ u row kk) := by
  obtain ⟨planes, hvalid⟩ := hS.valid
  obtain ⟨-, dense, ld, hld, hpacked, hmagnitude, rfl⟩ := hp
  have hmax := sparseMaxPrefix_le hvalid (usesRnsStorage_of_exact hS.exact)
  have hstorage : rnsStoragePrefixForPlan plan = plan.rnsPrefix := by
    simp [rnsStoragePrefixForPlan, hplan.kindExact hexact, isPerTileBoundKind]
  have hfields := hmatch
  simp only [sparseRnsMatchesPlan, Bool.and_eq_true, decide_eq_true_eq, hstorage] at hfields
  obtain ⟨⟨⟨⟨⟨⟨⟨⟨-, hsem⟩, -⟩, hrows⟩, hk⟩, hplanes⟩, -⟩, -⟩, -⟩ := hfields
  refine ⟨fun p hp row hrow kk hkk => ?_, fun row hrow kk hkk => ?_, fun hkind row kk => ?_⟩
  · rw [makeSparseExpandedRnsMatrix_cell hpacked hmatch (by rwa [hstorage]) hrow hkk]
    have hmod := sparseCellValue_modEq hmax dense ld row kk p (by omega)
    rw [hrows] at hmod
    rw [Nat.add_mul]
    exact hmod.symm
  · rw [hmagnitude]
    exact le_sparseMaximum dense ld (by rwa [hrows]) (by rwa [hk])
  · exact sparseCellValue_nonneg hmax (hsem.trans hkind) dense ld row kk

/-- **A sparse GEMM** that was accepted leaves a matrix proven for the product of the integers of its
operands, or one that is not current. -/
theorem sparseBranch_exact {S : SparseMatrix} {bound : ℤ} (env : GemmEnv) (hplan : CreatedPlan plan)
    (hcpu : plan.backend = .cpuReference)
    (hcall : GemmRnsSparseCall ctx plan workspace S b c s B C bound) (hS : SparseStorage S)
    (hB : ExactStorage B) (hC : ExactStorage C) (hmS : PackedSparse S u)
    (hmB : B.hostResiduesCurrent = true → Proven B v) :
    let out := sparseBranch env plan S b c B (preparedOutput plan C) bound s
    (out.1 = .success → (ExactStorage out.2 ∧ Proven out.2 (matProduct plan.desc.k u v)) ∧
      out.2.sourceVersion = gemmOutputSourceVersionValues S.sourceVersion B.sourceVersion) ∧
    (out.1 ≠ .success → ExactStorage out.2 ∧ out.2.hostResiduesCurrent = false) := by
  have hops := validateRnsGemmOperands_cpu hcpu hcall.operands
  have hexact : exactWideSemantics plan.desc.semantics = true := hops.right.semantics ▸ hB.exact
  obtain ⟨hac, hbc⟩ := hops.separate hexact
  obtain ⟨hu, hmagnitude, hunsigned⟩ := hmS.operand hS hplan hexact hcall.matchesPlan
  have hpB := hmB hops.right_current
  obtain ⟨hprepared, hcurrent, hfirst⟩ := preparedOutput_storage hC hexact
  obtain ⟨hlS, hlB⟩ := sparseGemmRange_prefix hcall.range hexact
  have hbound := sparseGemmRange_ok hcall.range hexact
  have hfits := sparseGemmRange_fits hcall.range hexact
  obtain ⟨hpos, hle, hmax, hproduct⟩ := planScheduleContractMatches_ladder
    (validatePlanContextWorkspace_success hcall.workspace).1 hops.semantics
  have h20 : maxSupportedPrefix = 20 := rfl
  -- the call that fails first: the output was invalidated before the loop
  refine ⟨fun hst => ?_, fun hst => ?_⟩
  swap
  · obtain ⟨cell, hcell⟩ := sparseBranch_rejected hst
    rw [hcell]
    exact ⟨hprepared.withPlanes cell, hcurrent⟩
  obtain ⟨mem, hrun, hout⟩ := sparseBranch_committed hst
  rw [hout]
  have hshape : (preparedOutput plan C).desc.rows = plan.desc.m ∧
      (preparedOutput plan C).desc.cols = plan.desc.n := by
    rw [preparedOutput_desc]
    exact ⟨hops.out.rows, hops.out.cols⟩
  have hstorage : rnsStoragePrefixForPlan plan = plan.rnsPrefix := by
    simp [rnsStoragePrefixForPlan, hplan.kindExact hexact, isPerTileBoundKind]
  -- the magnitude covers the product; no ranges are recorded
  have hproves : ∀ row < plan.desc.m, ∀ col < plan.desc.n,
      |matProduct plan.desc.k u v row col| ≤ bound := fun row hrow col hcol => by
    rw [hbound]
    exact abs_matProduct_le (fun i hi => hmagnitude row hrow i hi) fun i hi =>
      hpB.range.magnitude i (by rwa [hops.right.rows]) col (by rwa [hops.right.cols])
  refine exactOutput_proven hprepared ⟨hshape, by rw [preparedOutput_desc]; exact hops.out.semantics⟩
    ⟨hpos, by rw [hfirst, ← hstorage]; exact hops.out.storage⟩
    ⟨(abs_nonneg _).trans (hproves 0 hplan.m_pos 0 hplan.n_pos), hproves,
      matrixRanges_bounds_empty _ _ _, fun hkind row hrow col hcol => ?_⟩ (hproduct ▸ hfits) ?_
  · refine matProduct_nonneg (fun i _ => hunsigned hkind row i) fun i hi =>
      hpB.nonneg (hops.right.semantics ▸ hkind) i ?_ col ?_
    · rwa [hops.right.rows]
    · rwa [hops.right.cols]
  -- the left operand of the loop is the expansion in the temporary
  · obtain ⟨htb, htc⟩ := temporary_ne b c
    refine cpuGemmRns_exact hplan hexact (by omega) hshape hac hbc ?_ ?_ hrun hu
      fun p hp kk hkk col hcol => ?_
    · rw [Store.planesWith, Function.update_self]
    · rw [Store.planesWith, Function.update_of_ne htb.symm]
      exact planes_of_some hcall.right
    · exact hpB.modEq hB (by omega) (by rwa [hops.right.rows]) (by rwa [hops.right.cols])

end Gemms

end Rns8
