import Rns8.Api.Sparse
import Rns8.Plan.Created

/-!
# What a GEMM call on the CPU can do

For each GEMM entry point, a call whose plan runs on the CPU is either a rejection, which leaves the
store as it was, or a run of the kernel over live operands that passed every check
(`rns8GemmRns_cpu`, `rns8GemmFiniteU8_cpu`, `rns8GemmWrapU64_cpu`, `rns8GemmRnsSparseA_cpu`,
`rns8GemmFiniteU8SparseA_cpu`). The properties of runs cite these lemmas and never unfold an entry
point.
-/

namespace Rns8

open CenteredResidue

/-! ### Stores and calls -/

@[simp] theorem Store.set_same (s : Store) {h : Handle} {matrix : RnsMatrix}
    (hm : s h = some matrix) : s.set h matrix = s := by
  rw [Store.set, ← hm]
  exact Function.update_eq_self h s

@[simp] theorem onSuccess_success (s : Store) (next : Store → Status × Store) :
    onSuccess (.success, s) next = next s := by simp [onSuccess]

theorem onSuccess_of_ne {status : Status} (h : status ≠ .success) (s : Store)
    (next : Store → Status × Store) : onSuccess (status, s) next = (status, s) := by
  simp [onSuccess, h]

theorem withOperands_some {a b c : Handle} {s : Store} {A B C : RnsMatrix} (hA : s a = some A)
    (hB : s b = some B) (hC : s c = some C)
    (f : RnsMatrix → RnsMatrix → RnsMatrix → Status × RnsMatrix) :
    withOperands a b c s f = ((f A B C).1, s.set c (f A B C).2) := by
  simp [withOperands, hA, hB, hC]

/-- Three handles that are all in use hold matrices. -/
theorem exists_operands {a b c : Handle} {s : Store}
    (h : ¬ (s a = none ∨ s b = none ∨ s c = none)) :
    ∃ A B C, s a = some A ∧ s b = some B ∧ s c = some C := by
  simp only [not_or, ← ne_eq, Option.ne_none_iff_exists'] at h
  obtain ⟨⟨A, hA⟩, ⟨B, hB⟩, C, hC⟩ := h
  exact ⟨A, B, C, hA, hB, hC⟩

/-! ### The memory of a call -/

theorem planes_of_some {s : Store} {h : Handle} {matrix : RnsMatrix} (hm : s h = some matrix) :
    s.planes h = matrix.residues.cell := by simp [Store.planes, hm]

/-- The dot product of a row of plane `p` of `A` with a column of plane `p` of `B`. -/
def residueDot (A B : RnsMatrix) (k p row col : ℕ) : ℤ :=
  ∑ kk ∈ Finset.range k, (A.residues.cell (residueIndex A p row kk)).toInt *
    (B.residues.cell (residueIndex B p kk col)).toInt

theorem cellDot_eq_residueDot {plan : Plan} {a b c : Handle} {A B C : RnsMatrix}
    {modulus : ℕ → ℕ} {mem : Planes Handle} (hA : mem a = A.residues.cell)
    (hB : mem b = B.residues.cell) (p row col : ℕ) :
    cellDot (gemmArgs plan a b c A B C modulus) mem p row col =
      residueDot A B plan.desc.k p row col := by
  refine Finset.sum_congr rfl fun kk _ => ?_
  change (mem a _).toInt * (mem b _).toInt = _
  rw [hA, hB]
  rfl

/-- Planes that hold the residues of two integer matrices have the residue of their product. -/
theorem residueDot_modEq {A B : RnsMatrix} {u v : ℕ → ℕ → ℤ} {k p row col : ℕ} (hp : p < 28)
    (hA : ∀ kk < k, A.residues.cell (residueIndex A p row kk) =
      centeredResidue (u row kk) (modulusAt p))
    (hB : ∀ kk < k, B.residues.cell (residueIndex B p kk col) =
      centeredResidue (v kk col) (modulusAt p)) :
    residueDot A B k p row col ≡ matProduct k u v row col [ZMOD modulusAt p] := by
  obtain ⟨hlo, hhi⟩ := modulusAt_bounds hp
  refine dot_modEq (fun kk hkk => ?_) fun kk hkk => ?_
  · rw [hA kk (Finset.mem_range.1 hkk)]
    exact centeredResidue_modEq _ (by omega) hhi
  · rw [hB kk (Finset.mem_range.1 hkk)]
    exact centeredResidue_modEq _ (by omega) hhi

/-! ### Descriptors and storage -/

theorem matrixDescriptorMatches_spec {matrix : RnsMatrix} {semantics : Semantics}
    {boundKind : BoundKind} {rows cols r tileM tileN : ℕ}
    (h : matrixDescriptorMatches matrix semantics boundKind rows cols r tileM tileN = true) :
    (matrix.desc.semantics = semantics ∧ matrix.desc.boundKind = boundKind) ∧
      (matrix.desc.rows = rows ∧ matrix.desc.cols = cols) ∧
      r ≤ matrix.rnsPrefix ∧ (r = 0 → matrix.rnsPrefix = 0) := by
  unfold matrixDescriptorMatches at h
  split at h
  · cases h
  · next h1 =>
    split at h
    · cases h
    · next h2 =>
      simp only [not_or, ne_eq, not_not, not_lt] at h1
      refine ⟨⟨h1.1, h1.2.1⟩, ⟨h1.2.2.1, h1.2.2.2.1⟩, h1.2.2.2.2.2.2.2.1, fun hr => ?_⟩
      by_contra hne
      exact h2 ⟨hr, Or.inl hne⟩

theorem rnsMatrixStorageMatches_size {matrix : RnsMatrix} {backend : BackendKind} {rows cols r : ℕ}
    (h : rnsMatrixStorageMatches matrix backend rows cols r = true) :
    0 < matrix.rnsPrefix ∧ matrix.residues.size = rows * cols * matrix.rnsPrefix := by
  unfold rnsMatrixStorageMatches at h
  split at h
  · cases h
  · split at h
    · cases h
    · next expected hcount =>
      simp only [Bool.and_eq_true, decide_eq_true_eq] at h
      obtain ⟨-, -, hpos, heq⟩ := rnsResidueCount_eq_some hcount
      exact ⟨hpos, by rw [h.1.1, heq]⟩

/-- A plan that runs on the CPU only takes CPU matrices. -/
theorem matrix_backend_of_cpu {ctx : Context} {matrix : RnsMatrix} {backend : BackendKind}
    (hdev : hipDeviceBackend backend = false)
    (h : matrixBackendCompatibleWithPlan ctx matrix backend = true) : matrix.backend = backend := by
  simpa [matrixBackendCompatibleWithPlan, hdev] using h

/-- A CPU context accepts the plans of its own backend only. -/
theorem plan_backend_of_workspace {ctx : Context} {plan : Plan} {workspace : Workspace}
    (hcpu : ctx.backend = .cpuReference)
    (h : validatePlanContextWorkspace ctx plan workspace = .success) :
    plan.backend = .cpuReference := by
  have haccept := (validatePlanContextWorkspace_success h).2
  simp only [contextAcceptsBackend, hcpu, Bool.or_eq_true, beq_iff_eq, Bool.and_eq_true,
    reduceCtorEq, and_false, false_and, or_false] at haccept
  exact haccept.symm

/-- The same environment with other answers in the kernels of the CPU. -/
def GemmEnv.withCpu (env : GemmEnv) (cpu : CpuEnv) : GemmEnv := { env with cpu := cpu }

@[simp] theorem GemmEnv.withCpu_cpu (env : GemmEnv) (cpu : CpuEnv) : (env.withCpu cpu).cpu = cpu :=
  rfl

@[simp] theorem GemmEnv.withCpu_staged (env : GemmEnv) (cpu : CpuEnv) :
    (env.withCpu cpu).staged = env.staged := rfl

/-! ### Residue GEMMs -/

/-- A matrix that a residue plan on the CPU accepts, with the dimensions it has in the product. -/
structure CpuRnsOperand (plan : Plan) (m n : ℕ) (matrix : RnsMatrix) : Prop where
  backend : matrix.backend = .cpuReference
  semantics : matrix.desc.semantics = plan.desc.semantics
  boundKind : matrix.desc.boundKind = storageBoundKindForPlan plan
  rows : matrix.desc.rows = m
  cols : matrix.desc.cols = n
  storage : rnsStoragePrefixForPlan plan ≤ matrix.rnsPrefix
  size : matrix.residues.size = m * n * matrix.rnsPrefix

/-- The operands that `validate_rns_gemm_operands` accepts for a plan on the CPU. -/
structure CpuRnsOperands (plan : Plan) (a b c : Handle) (A B C : RnsMatrix) : Prop where
  semantics : usesRnsStorage plan.desc.semantics = true
  prefix_pos : 0 < plan.rnsPrefix
  left : CpuRnsOperand plan plan.desc.m plan.desc.k A
  right : CpuRnsOperand plan plan.desc.k plan.desc.n B
  out : CpuRnsOperand plan plan.desc.m plan.desc.n C
  left_current : A.hostResiduesCurrent = true
  right_current : B.hostResiduesCurrent = true
  separate : exactWideSemantics plan.desc.semantics = true → a ≠ c ∧ b ≠ c

theorem validateRnsGemmOperands_cpu {ctx : Context} {plan : Plan} {a b c : Handle}
    {A B C : RnsMatrix} (hcpu : plan.backend = .cpuReference)
    (h : validateRnsGemmOperands ctx plan a b c A B C = .success) :
    CpuRnsOperands plan a b c A B C := by
  -- what each check leaves when it is passed on the CPU
  unfold validateRnsGemmOperands at h
  split at h
  · cases h
  next h1 =>
  split at h
  · cases h
  next h2 =>
  split at h
  · cases h
  next h3 =>
  rw [if_neg (by rw [hcpu]; decide)] at h
  split at h
  · cases h
  next h4 =>
  rw [if_neg (by simp [hcpu])] at h
  split at h
  · cases h
  next h5 =>
  simp only [Bool.or_eq_true, not_or, Bool.not_eq_true', Bool.not_eq_false,
    decide_eq_true_eq] at h1 h2 h3 h4 h5
  simp only [operandBackendsMatch, Bool.and_eq_true, hcpu] at h2
  simp only [operandDescriptorsMatch, Bool.and_eq_true] at h3
  simp only [rnsStoragesMatch, Bool.and_eq_true] at h4
  simp only [rnsResidueStateCurrentForBackend, hcpu, hipResidentRnsBackend, Bool.false_eq_true,
    if_false, Bool.and_eq_true] at h5
  -- the three operands are checked alike
  have hoperand : ∀ {rows cols M}, matrixBackendCompatibleWithPlan ctx M .cpuReference = true →
      matrixDescriptorMatches M plan.desc.semantics (storageBoundKindForPlan plan) rows cols
        (rnsStoragePrefixForPlan plan) plan.desc.tileM plan.desc.tileN = true →
      rnsMatrixStorageMatches M plan.backend rows cols (rnsStoragePrefixForPlan plan) = true →
      CpuRnsOperand plan rows cols M := by
    intro rows cols M hb hd hs
    obtain ⟨⟨hsem, hkind⟩, ⟨hrows, hcols⟩, hle, -⟩ := matrixDescriptorMatches_spec hd
    exact ⟨matrix_backend_of_cpu rfl hb, hsem, hkind, hrows, hcols, hle,
      (rnsMatrixStorageMatches_size hs).2⟩
  refine ⟨h1.1, Nat.pos_of_ne_zero h1.2, hoperand h2.1.1.1 h3.1.1 h4.1.1,
    hoperand h2.1.1.2 h3.1.2 h4.1.2, hoperand h2.1.2 h3.2 h4.2, h5.1.1, h5.2.1, fun hexact => ?_⟩
  rw [if_pos hexact] at h
  split at h
  · cases h
  · next hne => exact not_or.1 hne

/-- A residue GEMM that was accepted: the live matrices behind its handles, and its range proof. -/
structure GemmRnsCall (ctx : Context) (plan : Plan) (workspace : Workspace) (a b c : Handle)
    (s : Store) (A B C : RnsMatrix) (range : ℤ × MatrixRanges) : Prop where
  left : s a = some A
  right : s b = some B
  out : s c = some C
  workspace : validatePlanContextWorkspace ctx plan workspace = .success
  operands : validateRnsGemmOperands ctx plan a b c A B C = .success
  range : exactGemmRange plan A B = .ok range

/-- The output as the kernel finds it: an exact-wide output is invalidated first. -/
def preparedOutput (plan : Plan) (C : RnsMatrix) : RnsMatrix :=
  if exactWideSemantics plan.desc.semantics then invalidateOutputCurrentness C else C

theorem ensureInputCurrent_cpu (bridge : DeviceOp Int8) (ctx : Context) {plan : Plan} {h : Handle}
    {s : Store} {matrix : RnsMatrix} (hcpu : plan.backend = .cpuReference)
    (hm : s h = some matrix) : ensureInputCurrent bridge ctx plan h s = (.success, s) := by
  have hid : ensureBoundedNativeResiduesCurrentForRnsPlan bridge ctx plan matrix =
      (.success, matrix) := by
    simp [ensureBoundedNativeResiduesCurrentForRnsPlan, hcpu, hipResidentRnsBackend]
  simp [ensureInputCurrent, hm, hid]

/-- A call whose workspace is rejected is rejected. -/
theorem rns8GemmRns_of_workspace (env : GemmEnv) {ctx : Context} {plan : Plan} {workspace : Workspace}
    (a b c : Handle) (s : Store) (h : validatePlanContextWorkspace ctx plan workspace ≠ .success) :
    (rns8GemmRns env ctx plan workspace a b c s).1 ≠ .success ∧
      (rns8GemmRns env ctx plan workspace a b c s).2 = s := by
  unfold rns8GemmRns
  split
  · exact ⟨by simp, rfl⟩
  · simp only
    rw [onSuccess_of_ne h]
    exact ⟨h, rfl⟩

theorem gemmRnsOperands_cpu (env : GemmEnv) (ctx : Context) {plan : Plan} (a b c : Handle)
    (A B C : RnsMatrix) (s : Store) (hcpu : plan.backend = .cpuReference) :
    (∀ cpu, (gemmRnsOperands (env.withCpu cpu) ctx plan a b c A B C s).1 ≠ .success ∧
        (gemmRnsOperands (env.withCpu cpu) ctx plan a b c A B C s).2 = C) ∨
      ∃ range, (validateRnsGemmOperands ctx plan a b c A B C = .success ∧
          exactGemmRange plan A B = .ok range) ∧
        ∀ cpu, gemmRnsOperands (env.withCpu cpu) ctx plan a b c A B C s =
          cpuBranchGemmRns (env.withCpu cpu) plan a b c A B (preparedOutput plan C) range s := by
  unfold gemmRnsOperands
  simp only
  by_cases hops : validateRnsGemmOperands ctx plan a b c A B C = .success
  swap
  · simp only [if_pos hops]
    exact Or.inl fun _ => ⟨hops, trivial⟩
  simp only [hops, ne_eq, not_true_eq_false, if_false]
  split
  · next hrange => exact Or.inl fun _ => ⟨exactGemmRange_error hrange, rfl⟩
  · next range hrange =>
    refine Or.inr ⟨range, ⟨trivial, hrange⟩, fun cpu => ?_⟩
    simp only [dispatchGemmRns, hcpu, preparedOutput]

/-- **A residue GEMM on the CPU** is a rejection or a run of the CPU branch. Which of the two does
not depend on what happens in the kernel. -/
theorem rns8GemmRns_cases (env : GemmEnv) (ctx : Context) {plan : Plan} (workspace : Workspace)
    (a b c : Handle) (s : Store) (hcpu : plan.backend = .cpuReference) :
    (∀ cpu, (rns8GemmRns (env.withCpu cpu) ctx plan workspace a b c s).1 ≠ .success ∧
        (rns8GemmRns (env.withCpu cpu) ctx plan workspace a b c s).2 = s) ∨
      ∃ A B C range, GemmRnsCall ctx plan workspace a b c s A B C range ∧
        ∀ cpu, rns8GemmRns (env.withCpu cpu) ctx plan workspace a b c s =
          ((cpuBranchGemmRns (env.withCpu cpu) plan a b c A B (preparedOutput plan C) range s).1,
            s.set c (cpuBranchGemmRns (env.withCpu cpu) plan a b c A B (preparedOutput plan C) range
              s).2) := by
  -- a dead handle and a foreign workspace are refused before the operands are looked at
  by_cases hlive : s a = none ∨ s b = none ∨ s c = none
  · refine Or.inl fun cpu => ?_
    unfold rns8GemmRns
    rw [if_pos hlive]
    exact ⟨by simp, rfl⟩
  obtain ⟨A, B, C, hA, hB, hC⟩ := exists_operands hlive
  by_cases hws : validatePlanContextWorkspace ctx plan workspace = .success
  swap
  · exact Or.inl fun cpu => rns8GemmRns_of_workspace (env.withCpu cpu) a b c s hws
  -- neither the trusted launch nor the uploads concern the CPU
  have htrusted : (decide (plan.backend = .hipDirect) && planAllZeroOutputTiles plan) = false := by
    simp [hcpu]
  have hrun : ∀ cpu, rns8GemmRns (env.withCpu cpu) ctx plan workspace a b c s =
      ((gemmRnsOperands (env.withCpu cpu) ctx plan a b c A B C s).1,
        s.set c (gemmRnsOperands (env.withCpu cpu) ctx plan a b c A B C s).2) := by
    intro cpu
    unfold rns8GemmRns
    simp only
    rw [if_neg hlive, hws, onSuccess_success, htrusted, if_neg Bool.false_ne_true,
      ensureInputCurrent_cpu _ _ hcpu hA, onSuccess_success, ensureInputCurrent_cpu _ _ hcpu hB,
      onSuccess_success, withOperands_some hA hB hC]
  simp only [hrun]
  rcases gemmRnsOperands_cpu env ctx a b c A B C s hcpu with hrej | ⟨range, ⟨hops, hrange⟩, heq⟩
  · exact Or.inl fun cpu => ⟨(hrej cpu).1, by rw [(hrej cpu).2, Store.set_same s hC]⟩
  · exact Or.inr ⟨A, B, C, range, ⟨hA, hB, hC, hws, hops, hrange⟩, fun cpu => by rw [heq cpu]⟩

/-- The same for one run. -/
theorem rns8GemmRns_cpu (env : GemmEnv) (ctx : Context) {plan : Plan} (workspace : Workspace)
    (a b c : Handle) (s : Store) (hcpu : plan.backend = .cpuReference) :
    ((rns8GemmRns env ctx plan workspace a b c s).1 ≠ .success ∧
        (rns8GemmRns env ctx plan workspace a b c s).2 = s) ∨
      ∃ A B C range, GemmRnsCall ctx plan workspace a b c s A B C range ∧
        rns8GemmRns env ctx plan workspace a b c s =
          ((cpuBranchGemmRns env plan a b c A B (preparedOutput plan C) range s).1,
            s.set c (cpuBranchGemmRns env plan a b c A B (preparedOutput plan C) range s).2) := by
  rcases rns8GemmRns_cases env ctx workspace a b c s hcpu with hrej | ⟨A, B, C, range, hcall, heq⟩
  · exact Or.inl (hrej env.cpu)
  · exact Or.inr ⟨A, B, C, range, hcall, heq env.cpu⟩

/-- The output of a residue GEMM that has run its loop. -/
def committedOutput (plan : Plan) (A B C : RnsMatrix) (cell : ℕ → Int8) (range : ℤ × MatrixRanges) :
    RnsMatrix :=
  commitExactRange { markOutputHostResiduesCurrent (C.withPlanes cell) with
    sourceVersion := gemmOutputSourceVersion A B } plan range.1 range.2

@[simp] theorem preparedOutput_desc (plan : Plan) (C : RnsMatrix) :
    (preparedOutput plan C).desc = C.desc := by
  unfold preparedOutput; split <;> rfl

@[simp] theorem committedOutput_desc (plan : Plan) (A B C : RnsMatrix) (cell : ℕ → Int8)
    (range : ℤ × MatrixRanges) : (committedOutput plan A B C cell range).desc = C.desc :=
  commitExactRange_desc _ _ _ _

@[simp] theorem committedOutput_cell (plan : Plan) (A B C : RnsMatrix) (cell : ℕ → Int8)
    (range : ℤ × MatrixRanges) : (committedOutput plan A B C cell range).residues.cell = cell := by
  rw [committedOutput, commitExactRange_residues]
  rfl

/-- A CPU branch that succeeds has run its loop to the end and commits what the loop left. -/
theorem cpuBranchGemmRns_success {env : GemmEnv} {plan : Plan} {a b c : Handle} {A B C : RnsMatrix}
    {range : ℤ × MatrixRanges} {s : Store}
    (h : (cpuBranchGemmRns env plan a b c A B C range s).1 = .success) :
    gemmShapesMatch plan A B C = true ∧ ∃ mem,
      kernelLoop (gemmArgs plan a b c A B C modulusAt) env.cpu 0 (cpuGemmCalls plan) s.planes =
        (.success, mem) ∧
      (cpuBranchGemmRns env plan a b c A B C range s).2 =
        committedOutput plan A B C (mem c) range := by
  unfold cpuBranchGemmRns at h ⊢
  rcases cpuGemmRns_cases env.cpu plan a b c A B C s.planes with heq | ⟨hshape, heq⟩
  · simp [heq] at h
  · refine ⟨hshape, ?_⟩
    rw [heq] at h ⊢
    split at h
    · next mem hloop => exact ⟨mem, hloop, rfl⟩
    · next status mem hne hloop => exact absurd h hne

/-- A CPU branch whose allocations all succeed, or that fails at the first of them, fails before it
writes. -/
theorem cpuBranchGemmRns_failed {env : GemmEnv} {plan : Plan} {a b c : Handle} {A B C : RnsMatrix}
    {range : ℤ × MatrixRanges} {s : Store} (halloc : FailsAtOnce env.cpu (cpuGemmCalls plan) ∨
      ∀ i < (cpuGemmCalls plan).length, env.cpu.allocOk i = true)
    (hC : s.planes c = C.residues.cell)
    (h : (cpuBranchGemmRns env plan a b c A B C range s).1 ≠ .success) :
    (cpuBranchGemmRns env plan a b c A B C range s).2 = C := by
  unfold cpuBranchGemmRns at h ⊢
  rcases cpuGemmRns_cases env.cpu plan a b c A B C s.planes with heq | ⟨-, heq⟩
  · rw [heq]
    simp only [hC]
    rfl
  · rcases halloc with hfails | halloc
    · rw [heq, kernelLoop_of_failsAtOnce _ hfails]
      simp only [hC]
      rfl
    · have hloop := kernelLoop_of_allocOk (gemmArgs plan a b c A B C modulusAt) 0
        (cpuGemmCalls plan) (by simpa using halloc) s.planes
      rw [← heq] at hloop
      split at h
      · exact absurd rfl h
      · next status mem hne hmem => exact absurd (by rw [hmem] at hloop; exact hloop) hne

/-- The planes of a scheduled loop are planes of the plan. -/
theorem plane_lt_of_mem_cpuGemmCalls {plan : Plan} (hplan : CreatedPlan plan) {call : KernelCall}
    (hcall : call ∈ cpuGemmCalls plan) : call.plane < plan.rnsPrefix := by
  unfold cpuGemmCalls at hcall
  split at hcall
  · obtain ⟨p, hp, rfl⟩ := List.mem_map.1 hcall
    exact List.mem_range.1 hp
  · next hne =>
    obtain ⟨entry, he, hmem⟩ := List.mem_flatMap.1 hcall
    obtain ⟨p, hp, rfl⟩ := List.mem_map.1 hmem
    obtain ⟨i, hi⟩ := List.mem_iff_getElem?.1 he
    -- only a plan with per-tile bounds has a schedule
    have hrns : usesRnsStorage plan.desc.semantics = true := by
      by_contra hrns
      exact hne (hplan.unladdered (by simpa using hrns)).1
    have htile : isPerTileBoundKind plan.desc.boundKind = true := by
      by_contra htile
      exact hne (hplan.global hrns (by simpa using htile)).tileSchedule
    have hle := ((hplan.perTile hrns htile).choice i entry hi).1.required_le_selected.2
    exact lt_of_lt_of_le (List.mem_range.1 hp) hle

/-- **What a scheduled loop leaves** in an output of its own: in every plane selected for a cell, the
residue of an integer whose residue the operands have there, and which is zero in the tiles declared
zero. -/
theorem scheduledLoop_residues {plan : Plan} {a b c : Handle} {A B C : RnsMatrix} {env : CpuEnv}
    {mem mem' : Planes Handle} {V : ℕ → ℕ → ℤ} (hplan : CreatedPlan plan) (hle : plan.rnsPrefix ≤ 28)
    (hshape : C.desc.rows = plan.desc.m ∧ C.desc.cols = plan.desc.n) (hac : a ≠ c) (hbc : b ≠ c)
    (hloop : kernelLoop (gemmArgs plan a b c A B C modulusAt) env 0 (cpuGemmCalls plan) mem =
      (.success, mem'))
    (hV : ∀ row < plan.desc.m, ∀ col < plan.desc.n, ∀ p < selectedPrefixForCell plan row col,
      if zeroOutputForCell plan row col then V row col = 0
      else cellDot (gemmArgs plan a b c A B C modulusAt) mem p row col ≡ V row col
        [ZMOD modulusAt p]) {row col p : ℕ} (hrow : row < plan.desc.m) (hcol : col < plan.desc.n)
    (hp : p < selectedPrefixForCell plan row col) :
    mem' c (residueIndex C p row col) = centeredResidue (V row col) (modulusAt p) := by
  set g := gemmArgs plan a b c A B C modulusAt with hg
  have hcalls : CallPlan g.C.rows g.C.cols (cpuGemmCalls plan) := by
    have := cpuGemmCalls_callPlan hplan.grid
    rwa [← hshape.1, ← hshape.2] at this
  have hbounds : ∀ call ∈ cpuGemmCalls plan, 2 ≤ modulusAt call.plane ∧
      modulusAt call.plane ≤ 256 := fun call hmem => by
    have := plane_lt_of_mem_cpuGemmCalls hplan hmem
    exact modulusAt_bounds (by omega)
  -- the target of the loop is the residue of `V`, zero in the declared tiles
  have htarget : CallTarget g (cpuGemmCalls plan) mem
      fun p row col => centeredResidue (V row col) (modulusAt p) := by
    intro call hmem q r c' hc
    have hin := (cpuGemmCalls_callPlan hplan.grid).fits _ hmem _ _ _ hc
    have hq := (exists_covers_iff hplan.grid hin.1 hin.2).1 ⟨call, hmem, hc⟩
    have hval := hV r hin.1 c' hin.2 q hq
    obtain ⟨hlo, hhi⟩ := hbounds call hmem
    rw [hc.1] at hlo hhi
    rw [zeroOutput_eq_of_covers hplan.grid hmem hc]
    split
    · next hz =>
      rw [if_pos hz] at hval
      change centeredResidue (V r c') (modulusAt q) = 0
      rw [hval, centeredResidue_zero (by omega)]
    · next hz =>
      rw [if_neg hz] at hval
      exact (centeredResidue_congr (by omega) hhi hval).symm
  -- the plane of the cell is written by the call that covers it
  obtain ⟨call, hmem, hc⟩ := (exists_covers_iff hplan.grid hrow hcol).2 hp
  refine hcalls.run_read hloop htarget (fun call hmem => ?_) hac hbc hmem hc
  obtain ⟨hlo, hhi⟩ := hbounds call hmem
  exact ⟨show 0 < modulusAt call.plane by omega, hhi⟩

/-! ### Finite GEMMs -/

/-- A finite GEMM that was accepted. -/
structure GemmFiniteCall (ctx : Context) (plan : Plan) (workspace : Workspace) (modulus : ℕ)
    (a b c : Handle) (s : Store) (A B C : RnsMatrix) : Prop where
  left : s a = some A
  right : s b = some B
  out : s c = some C
  workspace : validatePlanContextWorkspace ctx plan workspace = .success
  operands : validateFiniteGemmOperands ctx plan modulus A B C = .success

/-- The operands that `validate_finite_gemm_operands` accepts have the shapes of the plan. -/
theorem validateFiniteGemmOperands_spec {ctx : Context} {plan : Plan} {modulus : ℕ}
    {A B C : RnsMatrix} (h : validateFiniteGemmOperands ctx plan modulus A B C = .success) :
    validFiniteModulusForSemantics plan.desc.semantics modulus = true ∧
      plan.desc.finiteModulus = modulus ∧ A.finiteModulus = modulus ∧ B.finiteModulus = modulus := by
  unfold validateFiniteGemmOperands at h
  split at h
  · cases h
  next h1 =>
  split at h
  · cases h
  split at h
  · cases h
  split at h
  · cases h
  split at h
  · cases h
  next h5 =>
  simp only [Bool.or_eq_true, not_or, Bool.not_eq_true', Bool.not_eq_false, decide_eq_true_eq,
    ne_eq, not_not] at h1 h5
  exact ⟨h1.1.2, h1.2, h5.1.2, h5.2⟩

theorem finiteModulus_bounds {semantics : Semantics} {modulus : ℕ}
    (h : validFiniteModulusForSemantics semantics modulus = true) : 0 < modulus ∧ modulus ≤ 256 := by
  unfold validFiniteModulusForSemantics at h
  split at h
  · simp only [validFiniteFieldModulus, Bool.and_eq_true, decide_eq_true_eq] at h
    omega
  · simp only [validFiniteRingModulus, Bool.and_eq_true, decide_eq_true_eq] at h
    omega
  · cases h

/-- **A finite GEMM on the CPU** is a rejection or a run of the CPU branch. Which of the two does not
depend on what happens in the kernel. -/
theorem rns8GemmFiniteU8_cases (env : GemmEnv) (ctx : Context) (plan : Plan) (workspace : Workspace)
    (modulus : ℕ) (a b c : Handle) (s : Store) :
    (∀ cpu, (rns8GemmFiniteU8 (env.withCpu cpu) ctx plan workspace modulus a b c s).1 ≠ .success ∧
        (rns8GemmFiniteU8 (env.withCpu cpu) ctx plan workspace modulus a b c s).2 = s) ∨
      ∃ A B C, GemmFiniteCall ctx plan workspace modulus a b c s A B C ∧
        ∀ cpu, rns8GemmFiniteU8 (env.withCpu cpu) ctx plan workspace modulus a b c s =
          ((dispatchGemmFiniteU8 (env.withCpu cpu) ctx plan modulus a b c A B C s).1,
            s.set c (dispatchGemmFiniteU8 (env.withCpu cpu) ctx plan modulus a b c A B C s).2) := by
  unfold rns8GemmFiniteU8
  split
  · exact Or.inl fun cpu => ⟨by simp, rfl⟩
  next hlive =>
  obtain ⟨A, B, C, hA, hB, hC⟩ := exists_operands hlive
  by_cases hws : validatePlanContextWorkspace ctx plan workspace = .success
  swap
  · simp only [onSuccess_of_ne hws]
    exact Or.inl fun _ => ⟨hws, trivial⟩
  simp only [hws, onSuccess_success, withOperands_some hA hB hC]
  split
  · next hops => exact Or.inl fun cpu => ⟨hops, by rw [Store.set_same s hC]⟩
  · next hops => exact Or.inr ⟨A, B, C, ⟨hA, hB, hC, hws, not_not.1 hops⟩, fun cpu => rfl⟩

/-- The same for one run. -/
theorem rns8GemmFiniteU8_cpu (env : GemmEnv) (ctx : Context) (plan : Plan) (workspace : Workspace)
    (modulus : ℕ) (a b c : Handle) (s : Store) :
    ((rns8GemmFiniteU8 env ctx plan workspace modulus a b c s).1 ≠ .success ∧
        (rns8GemmFiniteU8 env ctx plan workspace modulus a b c s).2 = s) ∨
      ∃ A B C, GemmFiniteCall ctx plan workspace modulus a b c s A B C ∧
        rns8GemmFiniteU8 env ctx plan workspace modulus a b c s =
          ((dispatchGemmFiniteU8 env ctx plan modulus a b c A B C s).1,
            s.set c (dispatchGemmFiniteU8 env ctx plan modulus a b c A B C s).2) := by
  rcases rns8GemmFiniteU8_cases env ctx plan workspace modulus a b c s with hrej |
    ⟨A, B, C, hcall, heq⟩
  · exact Or.inl (hrej env.cpu)
  · exact Or.inr ⟨A, B, C, hcall, heq env.cpu⟩

/-! ### Wrapping GEMMs -/

/-- A wrapping GEMM that was accepted. -/
structure GemmWrapCall (ctx : Context) (plan : Plan) (a b c : Handle) (s : Store) (A B C : RnsMatrix) :
    Prop where
  left : s a = some A
  right : s b = some B
  out : s c = some C
  operands : validateWrapGemmOperands ctx plan A B C = .success

/-- **A wrapping GEMM** is a rejection or a run of the branch of its backend. Which of the two does not
depend on what happens in the kernel. -/
theorem rns8GemmWrapU64_cases (env : GemmEnv) (ctx : Context) (plan : Plan) (workspace : Workspace)
    (a b c : Handle) (s : Store) :
    (∀ cpu, (rns8GemmWrapU64 (env.withCpu cpu) ctx plan workspace a b c s).1 ≠ .success ∧
        (rns8GemmWrapU64 (env.withCpu cpu) ctx plan workspace a b c s).2 = s) ∨
      ∃ A B C, GemmWrapCall ctx plan a b c s A B C ∧
        ∀ cpu, rns8GemmWrapU64 (env.withCpu cpu) ctx plan workspace a b c s =
          ((dispatchGemmWrapU64 (env.withCpu cpu) plan a b c A B C s).1,
            s.set c (dispatchGemmWrapU64 (env.withCpu cpu) plan a b c A B C s).2) := by
  unfold rns8GemmWrapU64
  split
  · exact Or.inl fun cpu => ⟨by simp, rfl⟩
  next hlive =>
  obtain ⟨A, B, C, hA, hB, hC⟩ := exists_operands hlive
  by_cases hws : validatePlanContextWorkspace ctx plan workspace = .success
  swap
  · simp only [onSuccess_of_ne hws]
    exact Or.inl fun _ => ⟨hws, trivial⟩
  simp only [hws, onSuccess_success, withOperands_some hA hB hC]
  split
  · next hops => exact Or.inl fun cpu => ⟨hops, by rw [Store.set_same s hC]⟩
  · next hops => exact Or.inr ⟨A, B, C, ⟨hA, hB, hC, not_not.1 hops⟩, fun cpu => rfl⟩

/-! ### Sparse GEMMs -/

/-- A sparse residue GEMM on the CPU that reached its kernel. -/
structure GemmRnsSparseCall (ctx : Context) (plan : Plan) (workspace : Workspace) (A : SparseMatrix)
    (b c : Handle) (s : Store) (B C : RnsMatrix) (bound : ℤ) : Prop where
  right : s b = some B
  out : s c = some C
  workspace : validatePlanContextWorkspace ctx plan workspace = .success
  matchesPlan : sparseRnsMatchesPlan A plan = true
  range : sparseGemmRange plan A b c B = .ok bound
  current : A.hostCurrent = true
  expanded : (makeSparseExpandedRnsMatrix A plan).residues.size ≠ 0
  operands : validateRnsGemmOperands ctx plan (temporary b c) b c
    (makeSparseExpandedRnsMatrix A plan) B C = .success

theorem temporary_ne (b c : Handle) : temporary b c ≠ b ∧ temporary b c ≠ c :=
  ⟨Nat.ne_of_gt (Nat.lt_succ_of_le (Nat.le_add_right b c)),
    Nat.ne_of_gt (Nat.lt_succ_of_le (Nat.le_add_left c b))⟩

theorem sparseGemmRange_error {plan : Plan} {A : SparseMatrix} {b c : Handle} {B : RnsMatrix}
    {status : Status} (h : sparseGemmRange plan A b c B = .error status) : status ≠ .success := by
  unfold sparseGemmRange at h
  split at h
  · cases h
  · split at h
    · obtain rfl := Except.error.inj h; simp
    · split at h
      · obtain rfl := Except.error.inj h; simp
      · simp only at h
        split at h
        · cases h
        · obtain rfl := Except.error.inj h; simp

/-- The kernel run of a sparse residue GEMM on the CPU, over its prepared output. -/
def sparseBranch (env : GemmEnv) (plan : Plan) (A : SparseMatrix) (b c : Handle) (B C : RnsMatrix)
    (bound : ℤ) (s : Store) : Status × RnsMatrix :=
  match cpuGemmRns env.cpu plan (temporary b c) b c (makeSparseExpandedRnsMatrix A plan) B C
      (s.planesWith b c (makeSparseExpandedRnsMatrix A plan)) with
  | (.success, mem) => (.success, commitExactRange
      { markOutputHostResiduesCurrent (C.withPlanes (mem c)) with
        sourceVersion := gemmOutputSourceVersionValues A.sourceVersion B.sourceVersion }
      plan bound {})
  | (status, mem) => (status, C.withPlanes (mem c))

theorem gemmRnsSparseAOperands_cpu (env : GemmEnv) (ctx : Context) {plan : Plan} (A : SparseMatrix)
    (b c : Handle) (B C : RnsMatrix) (s : Store) (hcpu : plan.backend = .cpuReference) :
    (∀ cpu, (gemmRnsSparseAOperands (env.withCpu cpu) ctx plan A b c B C s).1 ≠ .success ∧
        (gemmRnsSparseAOperands (env.withCpu cpu) ctx plan A b c B C s).2 = C) ∨
      ∃ bound, (sparseRnsMatchesPlan A plan = true ∧ sparseGemmRange plan A b c B = .ok bound ∧
          A.hostCurrent = true ∧ (makeSparseExpandedRnsMatrix A plan).residues.size ≠ 0 ∧
          validateRnsGemmOperands ctx plan (temporary b c) b c
            (makeSparseExpandedRnsMatrix A plan) B C = .success) ∧
        ∀ cpu, gemmRnsSparseAOperands (env.withCpu cpu) ctx plan A b c B C s =
          sparseBranch (env.withCpu cpu) plan A b c B (preparedOutput plan C) bound s := by
  unfold gemmRnsSparseAOperands
  split
  · exact Or.inl fun cpu => ⟨by simp, rfl⟩
  next hmatch =>
  split
  · next hrange => exact Or.inl fun cpu => ⟨sparseGemmRange_error hrange, rfl⟩
  next bound hrange =>
  split
  swap
  · simp only [if_neg (show ¬ (plan.backend = .amdgpuBuiltins ∧ A.backend = .amdgpuBuiltins) by
      simp [hcpu])]
    exact Or.inl fun cpu => ⟨by simp, trivial⟩
  -- on the CPU the operand is expanded, and the dense checks follow
  unfold cpuGemmRnsSparseA
  simp only [GemmEnv.withCpu_staged]
  split
  · exact Or.inl fun cpu => ⟨by simp, rfl⟩
  next hcur =>
  split
  · exact Or.inl fun cpu => ⟨by simp, rfl⟩
  split
  · exact Or.inl fun cpu => ⟨by simp, rfl⟩
  next hexp =>
  split
  · next hops => exact Or.inl fun cpu => ⟨hops, rfl⟩
  · next hops =>
    exact Or.inr ⟨bound, ⟨by simpa using hmatch, hrange, by simpa using hcur, hexp,
      not_not.1 hops⟩, fun cpu => rfl⟩

/-- **A sparse residue GEMM on the CPU** is a rejection or a run of its kernel. Which of the two does
not depend on what happens in the kernel. -/
theorem rns8GemmRnsSparseA_cases (env : GemmEnv) (ctx : Context) {plan : Plan} (workspace : Workspace)
    (A : SparseMatrix) (b c : Handle) (s : Store) (hcpu : plan.backend = .cpuReference) :
    (∀ cpu, (rns8GemmRnsSparseA (env.withCpu cpu) ctx plan workspace A b c s).1 ≠ .success ∧
        (rns8GemmRnsSparseA (env.withCpu cpu) ctx plan workspace A b c s).2 = s) ∨
      ∃ B C bound, GemmRnsSparseCall ctx plan workspace A b c s B C bound ∧
        ∀ cpu, rns8GemmRnsSparseA (env.withCpu cpu) ctx plan workspace A b c s =
          ((sparseBranch (env.withCpu cpu) plan A b c B (preparedOutput plan C) bound s).1,
            s.set c (sparseBranch (env.withCpu cpu) plan A b c B (preparedOutput plan C) bound
              s).2) := by
  unfold rns8GemmRnsSparseA
  split
  · exact Or.inl fun cpu => ⟨by simp, rfl⟩
  next hlive =>
  obtain ⟨B, -, C, hB, -, hC⟩ := exists_operands (a := b) (b := b) (c := c) (s := s) (by tauto)
  by_cases hws : validatePlanContextWorkspace ctx plan workspace = .success
  swap
  · simp only [onSuccess_of_ne hws]
    exact Or.inl fun _ => ⟨hws, trivial⟩
  simp only [hws, onSuccess_success, withOperands_some hB hB hC]
  rcases gemmRnsSparseAOperands_cpu env ctx A b c B C s hcpu with hrej | ⟨bound, hacc, heq⟩
  · exact Or.inl fun cpu => ⟨(hrej cpu).1, by rw [(hrej cpu).2, Store.set_same s hC]⟩
  · obtain ⟨hmatch, hrange, hcur, hexp, hops⟩ := hacc
    exact Or.inr ⟨B, C, bound, ⟨hB, hC, hws, hmatch, hrange, hcur, hexp, hops⟩, fun cpu => by
      rw [heq cpu]⟩

/-- The same for one run. -/
theorem rns8GemmRnsSparseA_cpu (env : GemmEnv) (ctx : Context) {plan : Plan} (workspace : Workspace)
    (A : SparseMatrix) (b c : Handle) (s : Store) (hcpu : plan.backend = .cpuReference) :
    ((rns8GemmRnsSparseA env ctx plan workspace A b c s).1 ≠ .success ∧
        (rns8GemmRnsSparseA env ctx plan workspace A b c s).2 = s) ∨
      ∃ B C bound, GemmRnsSparseCall ctx plan workspace A b c s B C bound ∧
        rns8GemmRnsSparseA env ctx plan workspace A b c s =
          ((sparseBranch env plan A b c B (preparedOutput plan C) bound s).1,
            s.set c (sparseBranch env plan A b c B (preparedOutput plan C) bound s).2) := by
  rcases rns8GemmRnsSparseA_cases env ctx workspace A b c s hcpu with hrej |
    ⟨B, C, bound, hcall, heq⟩
  · exact Or.inl (hrej env.cpu)
  · exact Or.inr ⟨B, C, bound, hcall, heq env.cpu⟩

/-- A sparse finite GEMM on the CPU that reached its kernel. -/
structure GemmFiniteSparseCall (ctx : Context) (plan : Plan) (modulus : ℕ) (A : SparseMatrix)
    (b c : Handle) (s : Store) (B C : RnsMatrix) : Prop where
  right : s b = some B
  out : s c = some C
  matchesPlan : sparseFiniteMatchesPlan A plan modulus = true
  operands : validateFiniteGemmOperands ctx plan modulus
    (makeSparseExpandedFiniteMatrix A plan modulus) B C = .success

/-- The kernel run of a sparse finite GEMM on the CPU. -/
def sparseFiniteBranch (env : GemmEnv) (plan : Plan) (modulus : ℕ) (A : SparseMatrix) (b c : Handle)
    (B C : RnsMatrix) (s : Store) : Status × RnsMatrix :=
  match cpuGemmFiniteU8 env.cpu plan modulus (temporary b c) b c
      (makeSparseExpandedFiniteMatrix A plan modulus) B C
      (s.planesWith b c (makeSparseExpandedFiniteMatrix A plan modulus)) with
  | (.success, mem) => (.success, { markOutputHostResiduesCurrent (C.withPlanes (mem c)) with
      finiteModulus := modulus
      sourceVersion := gemmOutputSourceVersionValues A.sourceVersion B.sourceVersion })
  | (status, mem) => (status, C.withPlanes (mem c))

theorem gemmFiniteU8SparseAOperands_cpu (env : GemmEnv) (ctx : Context) {plan : Plan} (modulus : ℕ)
    (A : SparseMatrix) (b c : Handle) (B C : RnsMatrix) (s : Store)
    (hcpu : plan.backend = .cpuReference) :
    (∀ cpu, (gemmFiniteU8SparseAOperands (env.withCpu cpu) ctx plan modulus A b c B C s).1 ≠ .success ∧
        (gemmFiniteU8SparseAOperands (env.withCpu cpu) ctx plan modulus A b c B C s).2 = C) ∨
      (sparseFiniteMatchesPlan A plan modulus = true ∧
          validateFiniteGemmOperands ctx plan modulus
            (makeSparseExpandedFiniteMatrix A plan modulus) B C = .success) ∧
        ∀ cpu, gemmFiniteU8SparseAOperands (env.withCpu cpu) ctx plan modulus A b c B C s =
          sparseFiniteBranch (env.withCpu cpu) plan modulus A b c B C s := by
  unfold gemmFiniteU8SparseAOperands
  split
  · exact Or.inl fun cpu => ⟨by simp, rfl⟩
  next hmatch =>
  split
  swap
  · simp only [if_neg (show ¬ (plan.backend = .amdgpuBuiltins ∧ A.backend = .amdgpuBuiltins) by
      simp [hcpu])]
    exact Or.inl fun cpu => ⟨by simp, trivial⟩
  -- on the CPU the operand is expanded, and the dense checks follow
  unfold cpuGemmFiniteU8SparseA
  simp only [GemmEnv.withCpu_staged]
  split
  · exact Or.inl fun cpu => ⟨by simp, rfl⟩
  split
  · exact Or.inl fun cpu => ⟨by simp, rfl⟩
  split
  · exact Or.inl fun cpu => ⟨by simp, rfl⟩
  split
  · next hops => exact Or.inl fun cpu => ⟨hops, rfl⟩
  · next hops => exact Or.inr ⟨⟨by simpa using hmatch, not_not.1 hops⟩, fun cpu => rfl⟩

/-- **A sparse finite GEMM on the CPU** is a rejection or a run of its kernel. Which of the two does
not depend on what happens in the kernel. -/
theorem rns8GemmFiniteU8SparseA_cases (env : GemmEnv) (ctx : Context) {plan : Plan}
    (workspace : Workspace) (modulus : ℕ) (A : SparseMatrix) (b c : Handle) (s : Store)
    (hcpu : plan.backend = .cpuReference) :
    (∀ cpu, (rns8GemmFiniteU8SparseA (env.withCpu cpu) ctx plan workspace modulus A b c s).1 ≠
          .success ∧
        (rns8GemmFiniteU8SparseA (env.withCpu cpu) ctx plan workspace modulus A b c s).2 = s) ∨
      ∃ B C, GemmFiniteSparseCall ctx plan modulus A b c s B C ∧
        ∀ cpu, rns8GemmFiniteU8SparseA (env.withCpu cpu) ctx plan workspace modulus A b c s =
          ((sparseFiniteBranch (env.withCpu cpu) plan modulus A b c B C s).1,
            s.set c (sparseFiniteBranch (env.withCpu cpu) plan modulus A b c B C s).2) := by
  unfold rns8GemmFiniteU8SparseA
  split
  · exact Or.inl fun cpu => ⟨by simp, rfl⟩
  next hlive =>
  obtain ⟨B, -, C, hB, -, hC⟩ := exists_operands (a := b) (b := b) (c := c) (s := s) (by tauto)
  by_cases hws : validatePlanContextWorkspace ctx plan workspace = .success
  swap
  · simp only [onSuccess_of_ne hws]
    exact Or.inl fun _ => ⟨hws, trivial⟩
  simp only [hws, onSuccess_success, withOperands_some hB hB hC]
  rcases gemmFiniteU8SparseAOperands_cpu env ctx modulus A b c B C s hcpu with hrej |
    ⟨⟨hmatch, hops⟩, heq⟩
  · exact Or.inl fun cpu => ⟨(hrej cpu).1, by rw [(hrej cpu).2, Store.set_same s hC]⟩
  · exact Or.inr ⟨B, C, ⟨hB, hC, hmatch, hops⟩, fun cpu => by rw [heq cpu]⟩

/-- The same for one run. -/
theorem rns8GemmFiniteU8SparseA_cpu (env : GemmEnv) (ctx : Context) {plan : Plan}
    (workspace : Workspace) (modulus : ℕ) (A : SparseMatrix) (b c : Handle) (s : Store)
    (hcpu : plan.backend = .cpuReference) :
    ((rns8GemmFiniteU8SparseA env ctx plan workspace modulus A b c s).1 ≠ .success ∧
        (rns8GemmFiniteU8SparseA env ctx plan workspace modulus A b c s).2 = s) ∨
      ∃ B C, GemmFiniteSparseCall ctx plan modulus A b c s B C ∧
        rns8GemmFiniteU8SparseA env ctx plan workspace modulus A b c s =
          ((sparseFiniteBranch env plan modulus A b c B C s).1,
            s.set c (sparseFiniteBranch env plan modulus A b c B C s).2) := by
  rcases rns8GemmFiniteU8SparseA_cases env ctx workspace modulus A b c s hcpu with hrej |
    ⟨B, C, hcall, heq⟩
  · exact Or.inl (hrej env.cpu)
  · exact Or.inr ⟨B, C, hcall, heq env.cpu⟩

end Rns8
