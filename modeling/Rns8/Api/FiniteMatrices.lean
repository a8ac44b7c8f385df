import Rns8.Api.CpuMatrices
import Rns8.Plan.Contract

/-!
# Finite matrices on the CPU

What the calls on matrices of a finite ring or field do on the CPU: a creation returns a matrix
without a value (`rns8CreateMatrix_finite`), a pack of an accepted source stores its residues
(`rns8PackFiniteU8_cpu`), and the checks of a GEMM and of an export pass for matrices of the right
shapes with the modulus of the plan (`validateFiniteGemmOperands_of_shapes`,
`validateFiniteExportMatrix_of_shape`).
-/

namespace Rns8

open CenteredResidue

/-- A finite matrix of the CPU, as creation leaves it and every call keeps it. -/
structure FiniteMatrix (matrix : RnsMatrix) : Prop where
  backend : matrix.backend = .cpuReference
  finite : usesFiniteStorage matrix.desc.semantics = true
  boundKind : matrix.desc.boundKind = .none
  layout : matrix.desc.logicalLayout = .rowMajor
  logicalLd : matrix.desc.cols ≤ matrix.desc.logicalLd
  flags : matrix.desc.flagsSet = false
  rnsPrefix : matrix.rnsPrefix = 0
  maxPrefix : matrix.desc.maxPrefix = 0
  storage : finiteMatrixStorageMatches matrix .cpuReference matrix.desc.rows matrix.desc.cols = true

/-- The matrix has the semantics and the shape that a plan expects. -/
structure HasShape (matrix : RnsMatrix) (semantics : Semantics) (rows cols : ℕ) : Prop where
  semantics : matrix.desc.semantics = semantics
  rows : matrix.desc.rows = rows
  cols : matrix.desc.cols = cols

namespace FiniteMatrix

variable {matrix : RnsMatrix}

/-- Only the cells and the state of a matrix change. -/
theorem of_state (h : FiniteMatrix matrix) {matrix' : RnsMatrix}
    (hbackend : matrix'.backend = matrix.backend) (hdesc : matrix'.desc = matrix.desc)
    (hpre : matrix'.rnsPrefix = matrix.rnsPrefix)
    (hstorage : finiteMatrixStorageMatches matrix' .cpuReference matrix.desc.rows
      matrix.desc.cols = true) : FiniteMatrix matrix' := by
  obtain ⟨h1, h2, h3, h4, h5, h6, h7, h8, -⟩ := h
  exact ⟨hbackend.trans h1, hdesc ▸ h2, hdesc ▸ h3, hdesc ▸ h4, hdesc ▸ h5, hdesc ▸ h6,
    hpre.trans h7, hdesc ▸ h8, hdesc ▸ hstorage⟩

theorem descriptorMatches (h : FiniteMatrix matrix) {semantics : Semantics} {rows cols : ℕ}
    (hshape : HasShape matrix semantics rows cols) (tileM tileN : ℕ) :
    matrixDescriptorMatches matrix semantics .none rows cols 0 tileM tileN = true := by
  obtain ⟨rfl, rfl, rfl⟩ := hshape
  have hwrap : matrix.desc.semantics ≠ .wrapU64Mod2_64 := by
    intro h0
    have := h.finite
    rw [h0] at this
    cases this
  simp [matrixDescriptorMatches, h.boundKind, h.layout, not_lt.2 h.logicalLd, h.flags, h.rnsPrefix,
    h.maxPrefix, hwrap, isPerTileBoundKind]

theorem storageMatches (h : FiniteMatrix matrix) {semantics : Semantics} {rows cols : ℕ}
    (hshape : HasShape matrix semantics rows cols) :
    finiteMatrixStorageMatches matrix .cpuReference rows cols = true := by
  obtain ⟨rfl, rfl, rfl⟩ := hshape
  exact h.storage

theorem size (h : FiniteMatrix matrix) : matrix.residues.size = matrix.desc.cells := by
  have hs := h.storage
  unfold finiteMatrixStorageMatches at hs
  split at hs
  · cases hs
  · next expected hcount =>
    simp only [Bool.and_eq_true, decide_eq_true_eq] at hs
    unfold matrixCellCount at hcount
    split_ifs at hcount
    rw [hs.1.1.2, ← Option.some.inj hcount]
    rfl

theorem compatible (h : FiniteMatrix matrix) (ctx : Context) :
    matrixBackendCompatibleWithPlan ctx matrix .cpuReference = true := by
  simp [matrixBackendCompatibleWithPlan, h.backend]

end FiniteMatrix

/-! ### Creation -/

theorem validateMatrixDesc_finite {desc : MatrixDesc} {r : ℕ}
    (h : validateMatrixDesc desc r = .success) (hfin : usesFiniteStorage desc.semantics = true) :
    (0 < desc.rows ∧ 0 < desc.cols) ∧ desc.boundKind = .none ∧ desc.logicalLayout = .rowMajor ∧
      (desc.logicalLd = 0 ∨ desc.cols ≤ desc.logicalLd) ∧ desc.flagsSet = false ∧ r = 0 := by
  unfold validateMatrixDesc at h
  simp only at h
  split at h
  · cases h
  split at h
  · cases h
  next hdims =>
  split at h
  · cases h
  next hflags =>
  split at h
  · cases h
  split at h
  · cases h
  next hld =>
  split at h
  · cases h
  -- the branch of the finite semantics asks for no bound and no prefix
  have hrest : ¬ (r ≠ 0 ∨ desc.maxPrefix ≠ 0 ∨ desc.boundKind ≠ .none) ∧
      (if desc.logicalLayout = .columnMajor then Status.unsupportedBackend else .success) =
        .success := by
    cases hs : desc.semantics <;>
      simp only [hs, usesFiniteStorage, Bool.false_eq_true] at h hfin
    all_goals
      split at h
      · cases h
      · next hbounds => exact ⟨hbounds, h⟩
  obtain ⟨hbounds, hlayout⟩ := hrest
  push Not at hbounds
  refine ⟨by omega, hbounds.2.2, ?_, by omega, Bool.eq_false_iff.2 hflags, hbounds.1⟩
  cases hl : desc.logicalLayout
  · rfl
  · simp [hl] at hlayout

/-- The storage check on a matrix whose cells are counted. -/
theorem finiteMatrixStorageMatches_of_count {matrix : RnsMatrix} {backend : BackendKind}
    {rows cols cells : ℕ} (hcount : matrixCellCount rows cols = some cells)
    (hbudget : matrix.rnsPrefix = 0) (hsize : matrix.residues.size = cells)
    (hlimbs : noByteLimbStorage matrix = true)
    (hdevice : residueDeviceStorageMatches matrix backend cells = true) :
    finiteMatrixStorageMatches matrix backend rows cols = true := by
  rw [finiteMatrixStorageMatches, hcount]
  simp [hbudget, hsize, hlimbs, hdevice]

/-- **A new finite matrix on the CPU** has storage but no value. -/
theorem rns8CreateMatrix_finite {env : CreateEnv} {ctx : Context} {desc : MatrixDesc}
    {matrix : RnsMatrix} (hcpu : ctx.backend = .cpuReference)
    (hfin : usesFiniteStorage desc.semantics = true)
    (h : rns8CreateMatrix env ctx desc = .ok matrix) :
    FiniteMatrix matrix ∧ matrix.hostResiduesCurrent = false := by
  unfold rns8CreateMatrix at h
  split at h
  · cases h
  simp only at h
  generalize (if desc.maxPrefix = 0 then defaultPrefixForSemantics desc.semantics
    else desc.maxPrefix) = r at h
  split at h
  · cases h
  next hvalid =>
  split at h
  · cases h
  split at h
  · cases h
  rw [if_neg (by simp [hcpu, nativeVectorBackend])] at h
  obtain ⟨-, hbound, hlayout, hld, hflags, rfl⟩ := validateMatrixDesc_finite (not_not.1 hvalid) hfin
  have hwrap : desc.semantics ≠ .wrapU64Mod2_64 := by
    intro h0
    rw [h0] at hfin
    cases hfin
  -- one plane of the counted cells, and no device copy
  cases hstore : withHostStorage ctx (newMatrix env ctx desc 0) with
  | error status => rw [hstore] at h; cases h
  | ok M =>
    rw [hstore] at h
    simp only [hcpu, hipResidentRnsBackend, Bool.false_eq_true, if_false, Except.ok.injEq] at h
    subst h
    unfold withHostStorage at hstore
    simp only [newMatrix, hwrap, hfin, if_false, if_true] at hstore
    split at hstore
    · cases hstore
    · next cells hcount =>
      obtain rfl := Except.ok.inj hstore
      refine ⟨⟨hcpu, hfin, hbound, hlayout, ?_, hflags, rfl, rfl, ?_⟩, rfl⟩
      · change desc.cols ≤ if desc.logicalLd = 0 then desc.cols else desc.logicalLd
        split <;> omega
      · exact finiteMatrixStorageMatches_of_count hcount rfl rfl
          (by simp [noByteLimbStorage, clearByteLimbCurrent, clearResidueCurrent])
          (by simp [residueDeviceStorageMatches, hipResidentRnsBackend, clearByteLimbCurrent,
            clearResidueCurrent])

/-! ### Packing -/

/-- The matrix that a finite pack leaves on the CPU. -/
def packedFiniteMatrix (matrix : RnsMatrix) (modulus : ℕ) (src : ℕ → UInt8) (ld : ℕ)
    (version : UInt64) : RnsMatrix :=
  { markHostResiduesCurrent (matrix.withPlanes (packFiniteU8Matrix matrix src ld modulus)) with
    finiteModulus := modulus
    sourceVersion := version }

/-- **A finite pack on the CPU** rejects or stores the residues of its source. -/
theorem rns8PackFiniteU8_cpu (env : PackEnv UInt8) {ctx : Context} (matrix : RnsMatrix)
    (modulus : ℕ) (src : ℕ → UInt8) (ld : ℕ) (version : UInt64)
    (hcpu : ctx.backend = .cpuReference) :
    ((rns8PackFiniteU8 env ctx matrix modulus src ld version).1 ≠ .success ∧
        (rns8PackFiniteU8 env ctx matrix modulus src ld version).2 = matrix) ∨
      (validFiniteModulusForSemantics matrix.desc.semantics modulus = true ∧
        rns8PackFiniteU8 env ctx matrix modulus src ld version =
          (.success, packedFiniteMatrix matrix modulus src ld version)) := by
  unfold rns8PackFiniteU8
  simp only [hcpu, hipResidentRnsBackend, Bool.false_eq_true, if_false, if_true]
  split
  · exact Or.inl ⟨by simp, rfl⟩
  · next hchecks =>
    split
    · exact Or.inl ⟨by simp, rfl⟩
    · split
      · exact Or.inl ⟨by simp, rfl⟩
      · simp only [Bool.or_eq_true, Bool.not_eq_true', not_or, Bool.not_eq_false] at hchecks
        exact Or.inr ⟨hchecks.2, rfl⟩

/-- A pack of a finite matrix with a valid access and modulus succeeds. -/
theorem rns8PackFiniteU8_success (env : PackEnv UInt8) {ctx : Context} {matrix : RnsMatrix}
    {modulus : ℕ} (src : ℕ → UInt8) {ld : ℕ} (version : UInt64)
    (hcpu : ctx.backend = .cpuReference) (hmatrix : FiniteMatrix matrix)
    (haccess : validMatrixAccess matrix.desc.rows matrix.desc.cols ld = true)
    (hmodulus : validFiniteModulusForSemantics matrix.desc.semantics modulus = true) :
    (rns8PackFiniteU8 env ctx matrix modulus src ld version).1 = .success := by
  unfold rns8PackFiniteU8
  simp [hcpu, hipResidentRnsBackend, haccess, hmodulus, hmatrix.backend, hmatrix.finite,
    hmatrix.storage]

theorem packedFiniteMatrix_finite {matrix : RnsMatrix} (hmatrix : FiniteMatrix matrix)
    (modulus : ℕ) (src : ℕ → UInt8) (ld : ℕ) (version : UInt64) :
    FiniteMatrix (packedFiniteMatrix matrix modulus src ld version) := by
  refine hmatrix.of_state rfl rfl rfl ?_
  have hstorage := hmatrix.storage
  unfold finiteMatrixStorageMatches at hstorage ⊢
  split at hstorage
  · cases hstorage
  · next expected hcount =>
    simp only [noByteLimbStorage, residueDeviceStorageMatches, hipResidentRnsBackend,
      Bool.false_eq_true, if_false, Bool.and_eq_true, decide_eq_true_eq, Bool.not_eq_true']
      at hstorage
    simp [packedFiniteMatrix, markHostResiduesCurrent, clearByteLimbCurrent, noByteLimbStorage,
      residueDeviceStorageMatches, hipResidentRnsBackend, RnsMatrix.withPlanes, hstorage]

/-- The cells of a packed matrix are the residues of the source bytes. -/
theorem packedFiniteMatrix_read (matrix : RnsMatrix) (modulus : ℕ) (src : ℕ → UInt8) (ld : ℕ)
    (version : UInt64) {row col : ℕ} (hrow : row < matrix.desc.rows)
    (hcol : col < matrix.desc.cols) :
    (packedFiniteMatrix matrix modulus src ld version).residues.cell (residueIndex matrix 0 row col) =
      centeredResidue (sourceU8 src ld row col) modulus :=
  packPlanes_read (fun _ => modulus) (sourceU8 src ld) matrix.residues.cell Nat.one_pos hrow hcol

/-! ### Products -/

/-- The matrix that a finite GEMM leaves on the CPU, with the cells of its plane loop. -/
def finiteOutput (modulus : ℕ) (A B C : RnsMatrix) (cell : ℕ → Int8) : RnsMatrix :=
  { markOutputHostResiduesCurrent (C.withPlanes cell) with
    finiteModulus := modulus
    sourceVersion := gemmOutputSourceVersion A B }

theorem finiteOutput_finite {C : RnsMatrix} (hC : FiniteMatrix C) (modulus : ℕ) (A B : RnsMatrix)
    (cell : ℕ → Int8) : FiniteMatrix (finiteOutput modulus A B C cell) := by
  refine hC.of_state rfl rfl rfl ?_
  have hstorage := hC.storage
  unfold finiteMatrixStorageMatches at hstorage ⊢
  split at hstorage
  · cases hstorage
  · next expected hcount =>
    simp only [noByteLimbStorage, residueDeviceStorageMatches, hipResidentRnsBackend,
      Bool.false_eq_true, if_false, Bool.and_eq_true, decide_eq_true_eq, Bool.not_eq_true']
      at hstorage
    simp [finiteOutput, markOutputHostResiduesCurrent, clearNativeCurrent, markHostResiduesCurrent,
      clearByteLimbCurrent, noByteLimbStorage, residueDeviceStorageMatches, hipResidentRnsBackend,
      RnsMatrix.withPlanes, hstorage]

/-- A loop of one call that fails has written nothing. -/
theorem finiteLoop_failed {g : GemmArgs Handle} {env : CpuEnv} {plan : Plan} {mem : Planes Handle}
    (h : (kernelLoop g env 0 (finiteGemmCalls plan) mem).1 ≠ .success) :
    (kernelLoop g env 0 (finiteGemmCalls plan) mem).2 = mem := by
  unfold finiteGemmCalls at h ⊢
  unfold kernelLoop at h ⊢
  split
  · rfl
  · next halloc =>
    rw [if_neg halloc] at h
    exact absurd rfl h

section Products

variable {env : GemmEnv} {ctx : Context} {plan : Plan} {modulus : ℕ} {a b c : Handle}
  {A B C : RnsMatrix} {s : Store}

/-- **A finite GEMM on the CPU after its checks** fails and keeps its output, or runs its loop. -/
theorem dispatchGemmFiniteU8_cpu (env : GemmEnv) (ctx : Context) (modulus : ℕ) (a b : Handle)
    (A B : RnsMatrix) (hbackend : plan.backend = .cpuReference) (hC : s c = some C) :
    ((dispatchGemmFiniteU8 env ctx plan modulus a b c A B C s).1 ≠ .success ∧
        (dispatchGemmFiniteU8 env ctx plan modulus a b c A B C s).2 = C) ∨
      (gemmShapesMatch plan A B C = true ∧ ∃ mem,
        kernelLoop (gemmArgs plan a b c A B C fun _ => modulus) env.cpu 0 (finiteGemmCalls plan)
          s.planes = (.success, mem) ∧
        dispatchGemmFiniteU8 env ctx plan modulus a b c A B C s =
          (.success, finiteOutput modulus A B C (mem c))) := by
  have hcells : C.withPlanes (s.planes c) = C := by rw [planes_of_some hC]; rfl
  unfold dispatchGemmFiniteU8
  simp only [hbackend]
  rcases cpuGemmFiniteU8_cases env.cpu plan modulus a b c A B C s.planes with heq | ⟨hshape, heq⟩
  · rw [heq]
    exact Or.inl ⟨by simp, hcells⟩
  · rw [heq]
    by_cases hst : (kernelLoop (gemmArgs plan a b c A B C fun _ => modulus) env.cpu 0
        (finiteGemmCalls plan) s.planes).1 = .success
    · obtain ⟨mem, hloop⟩ : ∃ mem, kernelLoop (gemmArgs plan a b c A B C fun _ => modulus) env.cpu 0
          (finiteGemmCalls plan) s.planes = (.success, mem) := ⟨_, Prod.ext hst rfl⟩
      rw [hloop]
      exact Or.inr ⟨hshape, mem, rfl, rfl⟩
    -- the loop has one call, so a failure is its allocation and nothing is written
    · have hkeep := finiteLoop_failed hst
      refine Or.inl ?_
      split
      · next mem hloop => rw [hloop] at hst; exact absurd rfl hst
      · next status mem hne hloop =>
        rw [hloop] at hkeep
        obtain rfl : mem = s.planes := hkeep
        exact ⟨hne, hcells⟩

/-- With a separate output the loop leaves the residues of the products. -/
theorem finiteLoop_read {mem : Planes Handle} (hshape : gemmShapesMatch plan A B C = true)
    (hA : s a = some A) (hB : s b = some B) (hmodulus : 0 < modulus ∧ modulus ≤ 256)
    (hac : a ≠ c) (hbc : b ≠ c)
    (hloop : kernelLoop (gemmArgs plan a b c A B C fun _ => modulus) env.cpu 0 (finiteGemmCalls plan)
      s.planes = (.success, mem)) {row col : ℕ} (hrow : row < plan.desc.m)
    (hcol : col < plan.desc.n) :
    mem c (residueIndex C 0 row col) =
      centeredResidue (residueDot A B plan.desc.k 0 row col) modulus := by
  obtain ⟨-, -, hrows, hcols⟩ := gemmShapesMatch_spec hshape
  have hcalls := finiteGemmCalls_callPlan plan
  rw [← hrows, ← hcols] at hcalls
  have hcall : (⟨0, 0, 0, plan.desc.m, plan.desc.n, false⟩ : KernelCall) ∈ finiteGemmCalls plan := by
    simp [finiteGemmCalls]
  have hcovers : (⟨0, 0, 0, plan.desc.m, plan.desc.n, false⟩ : KernelCall).Covers 0 row col :=
    ⟨rfl, Nat.zero_le _, by simpa, Nat.zero_le _, by simpa⟩
  have hread := CallPlan.run_read (g := gemmArgs plan a b c A B C fun _ => modulus) hcalls hloop
    (T := fun p row col => centeredResidue (cellDot (gemmArgs plan a b c A B C fun _ => modulus)
      s.planes p row col) modulus) (fun call hcall p row col hc => ?_) (fun _ _ => hmodulus) hac hbc
    hcall hcovers
  · rw [cellDot_eq_residueDot (planes_of_some hA) (planes_of_some hB)] at hread
    exact hread
  · obtain rfl : call = ⟨0, 0, 0, plan.desc.m, plan.desc.n, false⟩ := by
      simpa [finiteGemmCalls] using hcall
    rfl

end Products

/-! ### Checks -/

/-- A finite matrix of the given shape whose value is current and stands for the modulus. -/
structure CurrentFinite (matrix : RnsMatrix) (modulus : ℕ) : Prop where
  current : rnsResidueStateCurrentForBackend matrix .cpuReference = true
  modulus_eq : matrix.finiteModulus = modulus

section Checks

variable {ctx : Context} {plan : Plan} {modulus : ℕ} {A B C : RnsMatrix}

/-- The checks of a finite GEMM pass for operands of the shapes and the modulus of its plan. -/
theorem validateFiniteGemmOperands_of_shapes (hbackend : plan.backend = .cpuReference)
    (hfin : usesFiniteStorage plan.desc.semantics = true)
    (hvalid : validFiniteModulusForSemantics plan.desc.semantics modulus = true)
    (hmodulus : plan.desc.finiteModulus = modulus) (hA : FiniteMatrix A) (hB : FiniteMatrix B)
    (hC : FiniteMatrix C) (hAs : HasShape A plan.desc.semantics plan.desc.m plan.desc.k)
    (hBs : HasShape B plan.desc.semantics plan.desc.k plan.desc.n)
    (hCs : HasShape C plan.desc.semantics plan.desc.m plan.desc.n)
    (hAc : CurrentFinite A modulus) (hBc : CurrentFinite B modulus) :
    validateFiniteGemmOperands ctx plan modulus A B C = .success := by
  simp [validateFiniteGemmOperands, hfin, hvalid, hmodulus, operandBackendsMatch, hbackend,
    hipResidentRnsBackend, hA.compatible ctx, hB.compatible ctx, hC.compatible ctx,
    operandDescriptorsMatch, hA.descriptorMatches hAs, hB.descriptorMatches hBs,
    hC.descriptorMatches hCs, hA.storageMatches hAs, hB.storageMatches hBs, hC.storageMatches hCs,
    hAc.current, hBc.current, hAc.modulus_eq, hBc.modulus_eq]

/-- An accepted finite GEMM has compatible operands that are current. -/
theorem validateFiniteGemmOperands_current
    (h : validateFiniteGemmOperands ctx plan modulus A B C = .success) :
    matrixBackendCompatibleWithPlan ctx A plan.backend = true ∧
      rnsResidueStateCurrentForBackend A plan.backend = true ∧
      rnsResidueStateCurrentForBackend B plan.backend = true := by
  unfold validateFiniteGemmOperands at h
  split at h
  · cases h
  split at h
  · cases h
  next hbackends =>
  split at h
  · cases h
  split at h
  · cases h
  split at h
  · cases h
  next hstate =>
  simp only [operandBackendsMatch, Bool.not_eq_true', Bool.not_eq_false, Bool.and_eq_true]
    at hbackends
  simp only [Bool.or_eq_true, not_or, Bool.not_eq_true', Bool.not_eq_false] at hstate
  exact ⟨hbackends.1.1.1, hstate.1.1.1, hstate.1.1.2⟩

/-- A plan that takes a CPU matrix runs on the CPU. -/
theorem plan_backend_of_matrix (hA : FiniteMatrix A)
    (h : matrixBackendCompatibleWithPlan ctx A plan.backend = true) :
    plan.backend = .cpuReference := by
  simp only [matrixBackendCompatibleWithPlan, hA.backend, Bool.or_eq_true, beq_iff_eq,
    Bool.and_eq_true, reduceCtorEq, and_false, false_and, or_false] at h
  exact h.symm

/-- The shape and storage checks of the kernel pass as well. -/
theorem cpuGemmFiniteU8_runs (env : CpuEnv) (a b c : Handle) (mem : Planes Handle)
    (hA : FiniteMatrix A) (hB : FiniteMatrix B) (hC : FiniteMatrix C)
    (hAs : HasShape A plan.desc.semantics plan.desc.m plan.desc.k)
    (hBs : HasShape B plan.desc.semantics plan.desc.k plan.desc.n)
    (hCs : HasShape C plan.desc.semantics plan.desc.m plan.desc.n) :
    cpuGemmFiniteU8 env plan modulus a b c A B C mem =
      kernelLoop (gemmArgs plan a b c A B C fun _ => modulus) env 0 (finiteGemmCalls plan) mem := by
  have hshape : gemmShapesMatch plan A B C = true := by
    simp [gemmShapesMatch, hAs.rows, hAs.cols, hBs.rows, hBs.cols, hCs.rows, hCs.cols]
  simp [cpuGemmFiniteU8, hshape, hA.size, hB.size, hC.size]

/-- The checks of a finite export pass for a matrix of the shape and the modulus of its plan. -/
theorem validateFiniteExportMatrix_of_shape (hcontract : planScheduleContractMatches plan = true)
    (hctx : ctx.backend = .cpuReference) (hbackend : plan.backend = .cpuReference)
    (hfin : usesFiniteStorage plan.desc.semantics = true)
    (hvalid : validFiniteModulusForSemantics plan.desc.semantics modulus = true)
    (hmodulus : plan.desc.finiteModulus = modulus) (hC : FiniteMatrix C)
    (hCs : HasShape C plan.desc.semantics plan.desc.m plan.desc.n)
    (hCc : CurrentFinite C modulus) : validateFiniteExportMatrix ctx plan modulus C = .success := by
  simp [validateFiniteExportMatrix, hcontract, hfin, hvalid, hmodulus, contextAcceptsBackend, hctx,
    hbackend, hipResidentRnsBackend, hC.compatible ctx, hC.descriptorMatches hCs,
    hC.storageMatches hCs, hCc.current, hCc.modulus_eq]

theorem validateFiniteExportMatrix_backend (hctx : ctx.backend = .cpuReference)
    (h : validateFiniteExportMatrix ctx plan modulus C = .success) :
    plan.backend = .cpuReference := by
  unfold validateFiniteExportMatrix at h
  split at h
  · cases h
  split at h
  · cases h
  next hbackend =>
  simp only [Bool.or_eq_true, not_or, Bool.not_eq_true', Bool.not_eq_false] at hbackend
  have haccept := hbackend.1
  simp only [contextAcceptsBackend, hctx, Bool.or_eq_true, beq_iff_eq, Bool.and_eq_true,
    reduceCtorEq, and_false, false_and, or_false] at haccept
  exact haccept.symm

end Checks

end Rns8
