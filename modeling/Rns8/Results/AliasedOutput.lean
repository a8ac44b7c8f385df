import Rns8.Api.CpuCalls
import Rns8.Api.Pack
import Rns8.Cpu.LoopOverlap
import Rns8.Cpu.WrapOverlap

/-!
# GEMM calls whose output is one of their operands

No GEMM entry point but the exact-wide one rejects an output handle that is also an operand. The
residue kernel zero-fills a row of the output before it reads the operands, and every kernel reads
operand rows that other rows may have overwritten, in whole or in part. `GemmCall.Undisturbed` says of
the operands that the overwriting does no harm: the terms that a row can no longer read do not count,
and those of the rows of other workers do not count whatever these have stored of them. Such a call
leaves the product of what its operands held on every team; and for an inner dimension of one K block
no other call does (`gemmCall_product_iff`). With an output of its own a call is undisturbed when the
tiles that the plan declares zero are zero.
-/

namespace Rns8

open CenteredResidue

/-! ### The calls -/

/-- A call of a GEMM entry point, with its handles. -/
inductive GemmCall
  | rns (a b c : Handle)
  | finite (modulus : ℕ) (a b c : Handle)
  | wrap (a b c : Handle)
  | rnsSparse (A : SparseMatrix) (b c : Handle)
  | finiteSparse (modulus : ℕ) (A : SparseMatrix) (b c : Handle)

namespace GemmCall

/-- The call. -/
def run (env : GemmEnv) (ctx : Context) (plan : Plan) (workspace : Workspace) :
    GemmCall → Store → Status × Store
  | rns a b c => rns8GemmRns env ctx plan workspace a b c
  | finite modulus a b c => rns8GemmFiniteU8 env ctx plan workspace modulus a b c
  | wrap a b c => rns8GemmWrapU64 env ctx plan workspace a b c
  | rnsSparse A b c => rns8GemmRnsSparseA env ctx plan workspace A b c
  | finiteSparse modulus A b c => rns8GemmFiniteU8SparseA env ctx plan workspace modulus A b c

/-- The backend on which the call runs on the CPU. -/
def cpuBackend : GemmCall → BackendKind
  | wrap .. => .wrap64ByteLimb
  | _ => .cpuReference

/-- The output handle is no operand; a wrapping GEMM may overwrite its left operand. -/
def Separate : GemmCall → Prop
  | rns a b c | finite _ a b c => a ≠ c ∧ b ≠ c
  | wrap _ b c => b ≠ c
  | rnsSparse _ b c | finiteSparse _ _ b c => b ≠ c

/-- One K block, or an output of its own; a wrapping GEMM knows no K blocks. -/
def OneBlock (plan : Plan) : GemmCall → Prop
  | wrap .. => True
  | call => call.Separate ∨ plan.desc.k ≤ safeInt32KBlock

end GemmCall

/-! ### Products -/

/-- The value of a cell of a byte-limb matrix. -/
def RnsMatrix.wrapValue (matrix : RnsMatrix) (row col : ℕ) : UInt64 :=
  (⟨(), matrix.desc.rows, matrix.desc.cols⟩ : PlaneOperand Unit).wrapCell
    (fun _ => matrix.byteLimbs.cell) row col

/-- `C` holds the product of `A` and `B` in every plane that the plan selects for a cell. -/
def RnsProduct (plan : Plan) (A B C : RnsMatrix) : Prop :=
  ∀ row < plan.desc.m, ∀ col < plan.desc.n, ∀ p < selectedPrefixForCell plan row col,
    C.residues.cell (residueIndex C p row col) =
      centeredResidue (residueDot A B plan.desc.k p row col) (modulusAt p)

/-- `C` holds the product of `A` and `B` in the finite ring. -/
def FiniteProduct (plan : Plan) (modulus : ℕ) (A B C : RnsMatrix) : Prop :=
  ∀ row < plan.desc.m, ∀ col < plan.desc.n, C.residues.cell (residueIndex C 0 row col) =
    centeredResidue (residueDot A B plan.desc.k 0 row col) modulus

/-- `C` holds the product of `A` and `B` modulo `2 ^ 64`. -/
def WrapProduct (plan : Plan) (A B C : RnsMatrix) : Prop :=
  ∀ row < plan.desc.m, ∀ col < plan.desc.n, C.wrapValue row col = UInt64.ofNat
    (∑ kk ∈ Finset.range plan.desc.k, (A.wrapValue row kk).toNat * (B.wrapValue kk col).toNat)

/-- The output of the call in `s'` is the product of what the operands held in `s`. -/
def GemmCall.Product (plan : Plan) (s s' : Store) : GemmCall → Prop
  | .rns a b c => ∀ A ∈ s a, ∀ B ∈ s b, ∀ C ∈ s' c, RnsProduct plan A B C
  | .finite modulus a b c => ∀ A ∈ s a, ∀ B ∈ s b, ∀ C ∈ s' c,
      FiniteProduct plan modulus A B C
  | .wrap a b c => ∀ A ∈ s a, ∀ B ∈ s b, ∀ C ∈ s' c, WrapProduct plan A B C
  | .rnsSparse A b c => ∀ B ∈ s b, ∀ C ∈ s' c,
      RnsProduct plan (makeSparseExpandedRnsMatrix A plan) B C
  | .finiteSparse modulus A b c => ∀ B ∈ s b, ∀ C ∈ s' c,
      FiniteProduct plan modulus (makeSparseExpandedFiniteMatrix A plan modulus) B C

/-- Every run of the call that succeeds leaves the product of what the operands held: whatever the
allocations of the kernels answer, and on whatever teams their rows run. -/
def GemmCall.AlwaysProduct (env : GemmEnv) (ctx : Context) (plan : Plan) (workspace : Workspace)
    (s : Store) (call : GemmCall) : Prop :=
  ∀ cpu s', call.run (env.withCpu cpu) ctx plan workspace s = (.success, s') → call.Product plan s s'

/-! ### Operands that are left undisturbed -/

/-- What a plane loop over the operands in `mem` is meant to leave. -/
def loopProduct (g : GemmArgs Handle) (mem : Planes Handle) (p row col : ℕ) : Int8 :=
  centeredResidue (cellDot g mem p row col) (g.modulus p)

/-- No kernel call of the loop does harm to a product. -/
def ProductUndisturbed (calls : List KernelCall) (g : GemmArgs Handle) (mem : Planes Handle) : Prop :=
  LoopUndisturbed g calls (loopProduct g mem) mem

/-- Overwriting the operands of the call does no harm to its product. -/
def GemmCall.Undisturbed (plan : Plan) (s : Store) : GemmCall → Prop
  | .rns a b c => ∀ A ∈ s a, ∀ B ∈ s b, ∀ C ∈ s c,
      ProductUndisturbed (cpuGemmCalls plan) (gemmArgs plan a b c A B C modulusAt) s.planes
  | .finite modulus a b c => ∀ A ∈ s a, ∀ B ∈ s b, ∀ C ∈ s c,
      ProductUndisturbed (finiteGemmCalls plan) (gemmArgs plan a b c A B C fun _ => modulus) s.planes
  | .wrap a b c => ∀ A ∈ s a, ∀ B ∈ s b, ∀ C ∈ s c,
      WrapUndisturbed (wrapArgs plan a b c A B C) (· < plan.desc.m) s.limbs
  | .rnsSparse A b c => ∀ B ∈ s b, ∀ C ∈ s c,
      let dense := makeSparseExpandedRnsMatrix A plan
      ProductUndisturbed (cpuGemmCalls plan)
        (gemmArgs plan (temporary b c) b c dense B C modulusAt) (s.planesWith b c dense)
  | .finiteSparse modulus A b c => ∀ B ∈ s b, ∀ C ∈ s c,
      let dense := makeSparseExpandedFiniteMatrix A plan modulus
      ProductUndisturbed (finiteGemmCalls plan)
        (gemmArgs plan (temporary b c) b c dense B C fun _ => modulus) (s.planesWith b c dense)

/-- Every cell of a tile that the plan declares zero has a zero product in the planes it selects. -/
def ZeroTilesHold (plan : Plan) (A B : RnsMatrix) : Prop :=
  ∀ row < plan.desc.m, ∀ col < plan.desc.n, zeroOutputForCell plan row col = true →
    ∀ p < selectedPrefixForCell plan row col,
      centeredResidue (residueDot A B plan.desc.k p row col) (modulusAt p) = 0

/-- The zero tiles that the plan declares are zero in the product of the operands. -/
def GemmCall.ZeroTiles (plan : Plan) (s : Store) : GemmCall → Prop
  | .rns a b _ => ∀ A ∈ s a, ∀ B ∈ s b, ZeroTilesHold plan A B
  | .rnsSparse A b _ => ∀ B ∈ s b, ZeroTilesHold plan (makeSparseExpandedRnsMatrix A plan) B
  | _ => True

/-! ### The memory of a call -/

theorem limbs_of_some {s : Store} {h : Handle} {matrix : RnsMatrix} (hm : s h = some matrix) :
    s.limbs h = matrix.byteLimbs.cell := by simp [Store.limbs, hm]

theorem planesWith_temporary (s : Store) (b c : Handle) (dense : RnsMatrix) :
    s.planesWith b c dense (temporary b c) = dense.residues.cell := by simp [Store.planesWith]

theorem planesWith_of_ne (s : Store) {b c h : Handle} (dense : RnsMatrix) (hne : h ≠ temporary b c) :
    s.planesWith b c dense h = s.planes h := by simp [Store.planesWith, hne]

/-! ### Residue loops -/

section PlaneLoop

variable {plan : Plan} {a b c : Handle} {A B C : RnsMatrix} {mem : Planes Handle}

theorem gemmArgs_shaped (hshape : gemmShapesMatch plan A B C = true) (hac : a = c → A.desc = C.desc)
    (hbc : b = c → B.desc = C.desc) (modulus : ℕ → ℕ) :
    (gemmArgs plan a b c A B C modulus).Shaped where
  left := (gemmShapesMatch_spec hshape).1.2.ge
  right := (gemmShapesMatch_spec hshape).2.1.1.ge
  left_eq h := ⟨congrArg MatrixDesc.rows (hac h), congrArg MatrixDesc.cols (hac h)⟩
  right_eq h := ⟨congrArg MatrixDesc.rows (hbc h), congrArg MatrixDesc.cols (hbc h)⟩

/-- A scheduled loop has left the product when it has left the residues of the dot products. -/
theorem rnsProduct_iff (hgrid : ScheduleGrid plan) (hA : mem a = A.residues.cell)
    (hB : mem b = B.residues.cell) {mem' : Planes Handle} {C' : RnsMatrix} (hdesc : C'.desc = C.desc)
    (hcell : C'.residues.cell = mem' c) {g : GemmArgs Handle} (hg : g = gemmArgs plan a b c A B C modulusAt) :
    RnsProduct plan A B C' ↔ ∀ call ∈ cpuGemmCalls plan, ∀ p row col, call.Covers p row col →
      mem' g.C.buf (g.C.offset p row col) = loopProduct g mem p row col := by
  subst hg
  have hread : ∀ p row col, C'.residues.cell (residueIndex C' p row col) =
      mem' c ((C.operand c).offset p row col) := fun p row col => by
    rw [hcell, residueIndex, hdesc]
    rfl
  constructor
  · intro h call hcall p row col hc
    have hin := (cpuGemmCalls_callPlan hgrid).fits _ hcall _ _ _ hc
    have hp := (exists_covers_iff hgrid hin.1 hin.2).1 ⟨call, hcall, hc⟩
    refine (hread p row col).symm.trans ((h row hin.1 col hin.2 p hp).trans ?_)
    rw [loopProduct, cellDot_eq_residueDot hA hB]
    rfl
  · intro h row hrow col hcol p hp
    obtain ⟨call, hcall, hc⟩ := (exists_covers_iff hgrid hrow hcol).2 hp
    refine (hread p row col).trans ((h call hcall p row col hc).trans ?_)
    rw [loopProduct, cellDot_eq_residueDot hA hB]
    rfl

/-- The same for the loop of a finite product. -/
theorem finiteProduct_iff {modulus : ℕ} (hA : mem a = A.residues.cell) (hB : mem b = B.residues.cell)
    {mem' : Planes Handle} {C' : RnsMatrix} (hdesc : C'.desc = C.desc)
    (hcell : C'.residues.cell = mem' c) {g : GemmArgs Handle}
    (hg : g = gemmArgs plan a b c A B C fun _ => modulus) :
    FiniteProduct plan modulus A B C' ↔ ∀ call ∈ finiteGemmCalls plan, ∀ p row col,
      call.Covers p row col → mem' g.C.buf (g.C.offset p row col) = loopProduct g mem p row col := by
  subst hg
  have hread : ∀ row col, C'.residues.cell (residueIndex C' 0 row col) =
      mem' c ((C.operand c).offset 0 row col) := fun row col => by
    rw [hcell, residueIndex, hdesc]
    rfl
  constructor
  · intro h call hcall p row col hc
    have hin := (finiteGemmCalls_callPlan plan).fits _ hcall _ _ _ hc
    obtain rfl : call = ⟨0, 0, 0, plan.desc.m, plan.desc.n, false⟩ := by
      simpa [finiteGemmCalls] using hcall
    obtain rfl : 0 = p := hc.1
    refine (hread row col).symm.trans ((h row hin.1 col hin.2).trans ?_)
    rw [loopProduct, cellDot_eq_residueDot hA hB]
    rfl
  · intro h row hrow col hcol
    refine (hread row col).trans ((h ⟨0, 0, 0, plan.desc.m, plan.desc.n, false⟩
      (by simp [finiteGemmCalls]) 0 row col
      ⟨rfl, Nat.zero_le _, by simpa, Nat.zero_le _, by simpa⟩).trans ?_)
    rw [loopProduct, cellDot_eq_residueDot hA hB]
    rfl

/-- With an output of its own and honest zero tiles a scheduled loop leaves its operands undisturbed. -/
theorem scheduledUndisturbed_of_separate (hgrid : ScheduleGrid plan) (hA : mem a = A.residues.cell)
    (hB : mem b = B.residues.cell) (hac : a ≠ c) (hbc : b ≠ c) (hzero : ZeroTilesHold plan A B) :
    ProductUndisturbed (cpuGemmCalls plan) (gemmArgs plan a b c A B C modulusAt) mem := by
  refine loopUndisturbed_of_separate hac hbc fun call hcall p row col hc => ?_
  split
  · next hz =>
    have hin := (cpuGemmCalls_callPlan hgrid).fits _ hcall _ _ _ hc
    have hp := (exists_covers_iff hgrid hin.1 hin.2).1 ⟨call, hcall, hc⟩
    rw [loopProduct, cellDot_eq_residueDot hA hB]
    exact hzero row hin.1 col hin.2 (by rw [← zeroOutput_eq_of_covers hgrid hcall hc, hz]) p hp
  · rfl

/-- With an output of its own a finite loop leaves its operands undisturbed. -/
theorem finiteUndisturbed_of_separate {modulus : ℕ} (hac : a ≠ c) (hbc : b ≠ c) :
    ProductUndisturbed (finiteGemmCalls plan) (gemmArgs plan a b c A B C fun _ => modulus) mem := by
  refine loopUndisturbed_of_separate hac hbc fun call hcall p row col hc => ?_
  obtain rfl : call = ⟨0, 0, 0, plan.desc.m, plan.desc.n, false⟩ := by
    simpa [finiteGemmCalls] using hcall
  rfl

end PlaneLoop

/-! ### Wrapping loops -/

section WrapLoop

variable {plan : Plan} {a b c : Handle} {A B C : RnsMatrix} {mem : Limbs Handle}

/-- A row loop has left the product when it has left the sums in every cell. -/
theorem wrapProduct_iff (hA : mem a = A.byteLimbs.cell) (hB : mem b = B.byteLimbs.cell)
    {mem' : Limbs Handle} {C' : RnsMatrix} (hdesc : C'.desc = C.desc)
    (hcell : C'.byteLimbs.cell = mem' c) {g : WrapArgs Handle} (hg : g = wrapArgs plan a b c A B C) :
    WrapProduct plan A B C' ↔ ∀ row < g.m, ∀ col < g.n,
      g.C.wrapCell mem' row col = wrapRowAcc g mem row col := by
  have hread : ∀ row col, C'.wrapValue row col = g.C.wrapCell mem' row col := fun row col => by
    subst hg
    simp only [RnsMatrix.wrapValue, PlaneOperand.wrapCell, hcell, hdesc]
    rfl
  have hacc : ∀ row col, wrapRowAcc g mem row col = UInt64.ofNat
      (∑ kk ∈ Finset.range plan.desc.k, (A.wrapValue row kk).toNat * (B.wrapValue kk col).toNat) := by
    intro row col
    subst hg
    rw [wrapRowAcc_eq]
    simp only [RnsMatrix.wrapValue, PlaneOperand.wrapCell, wrapArgs, RnsMatrix.operand, hA, hB]
    rfl
  simp only [WrapProduct, hread, ← hacc]
  subst hg
  rfl

theorem wrapArgs_shaped (hA : A.desc.cols = plan.desc.k) (hC : C.desc.cols = plan.desc.n)
    (hac : a = c → A.desc = C.desc) (hbc : b = c → B.desc = C.desc) :
    (wrapArgs plan a b c A B C).Shaped where
  cols := hC
  left := hA.ge
  left_eq h := congrArg MatrixDesc.cols (hac h)
  right_eq h := congrArg MatrixDesc.cols (hbc h)

/-- **When every team leaves the wrapping product.** -/
theorem wrapLoop_all_iff {g : WrapArgs Handle} (hshape : g.Shaped) :
    (∀ team, ∀ row < g.m, ∀ col < g.n,
      g.C.wrapCell (wrapLoop g team mem) row col = wrapRowAcc g mem row col) ↔
        WrapUndisturbed g (· < g.m) mem :=
  ⟨fun h => wrapUndisturbed_of_all_teams hshape h, fun h team _ hrow _ hcol =>
    wrapCell_of_rowBytes (wrapLoop_rowBytes mem hshape h team hrow) hcol⟩

end WrapLoop

/-! ### The kernels of a call -/

/-- A call that commits what its kernel left always leaves a product when the kernel does. -/
theorem always_iff {M : Type} {run : CpuEnv → Status × Store} {branch : CpuEnv → Status × RnsMatrix}
    {kernel : CpuEnv → Status × M} {out : M → RnsMatrix} {s : Store} {c : Handle}
    (hrun : ∀ cpu, run cpu = ((branch cpu).1, s.set c (branch cpu).2))
    (hbranch : ∀ cpu C', branch cpu = (.success, C') ↔
      ∃ m, kernel cpu = (.success, m) ∧ C' = out m) {P : RnsMatrix → Prop} :
    (∀ cpu s', run cpu = (.success, s') → ∀ C, s' c = some C → P C) ↔
      ∀ cpu m, kernel cpu = (.success, m) → P (out m) := by
  constructor
  · intro h cpu m hm
    have hout : branch cpu = (.success, out m) := (hbranch cpu _).2 ⟨m, hm, rfl⟩
    exact h cpu (s.set c (out m)) (by rw [hrun, hout]) _ (Store.set_self ..)
  · intro h cpu s' hs C hC
    rw [hrun, Prod.mk.injEq] at hs
    obtain ⟨hst, rfl⟩ := hs
    rw [Store.set_self, Option.some.injEq] at hC
    obtain ⟨m, hm, hout⟩ := (hbranch cpu (branch cpu).2).1 (Prod.ext hst rfl)
    rw [← hC, hout]
    exact h cpu m hm

theorem cpuBranchGemmRns_eq_success {env : GemmEnv} {plan : Plan} {a b c : Handle}
    {A B C C' : RnsMatrix} {range : ℤ × MatrixRanges} {s : Store} :
    cpuBranchGemmRns env plan a b c A B C range s = (.success, C') ↔ ∃ mem,
      cpuGemmRns env.cpu plan a b c A B C s.planes = (.success, mem) ∧
        C' = committedOutput plan A B C (mem c) range := by
  unfold cpuBranchGemmRns
  constructor
  · intro h
    split at h
    · next mem hmem => exact ⟨mem, hmem, (Prod.mk.inj h).2.symm⟩
    · next status mem hne hmem => exact absurd (Prod.mk.inj h).1 hne
  · rintro ⟨mem, hmem, rfl⟩
    rw [hmem]
    rfl

/-- The output that a sparse residue GEMM commits. -/
def committedSparseOutput (plan : Plan) (A : SparseMatrix) (B C : RnsMatrix) (cell : ℕ → Int8)
    (bound : ℤ) : RnsMatrix :=
  commitExactRange { markOutputHostResiduesCurrent (C.withPlanes cell) with
    sourceVersion := gemmOutputSourceVersionValues A.sourceVersion B.sourceVersion } plan bound {}

@[simp] theorem committedSparseOutput_desc (plan : Plan) (A : SparseMatrix) (B C : RnsMatrix)
    (cell : ℕ → Int8) (bound : ℤ) : (committedSparseOutput plan A B C cell bound).desc = C.desc :=
  commitExactRange_desc _ _ _ _

@[simp] theorem committedSparseOutput_cell (plan : Plan) (A : SparseMatrix) (B C : RnsMatrix)
    (cell : ℕ → Int8) (bound : ℤ) :
    (committedSparseOutput plan A B C cell bound).residues.cell = cell := by
  rw [committedSparseOutput, commitExactRange_residues]
  rfl

theorem sparseBranch_eq_success {env : GemmEnv} {plan : Plan} {A : SparseMatrix} {b c : Handle}
    {B C C' : RnsMatrix} {bound : ℤ} {s : Store} :
    sparseBranch env plan A b c B C bound s = (.success, C') ↔ ∃ mem,
      cpuGemmRns env.cpu plan (temporary b c) b c (makeSparseExpandedRnsMatrix A plan) B C
        (s.planesWith b c (makeSparseExpandedRnsMatrix A plan)) = (.success, mem) ∧
      C' = committedSparseOutput plan A B C (mem c) bound := by
  unfold sparseBranch
  constructor
  · intro h
    split at h
    · next mem hmem => exact ⟨mem, hmem, (Prod.mk.inj h).2.symm⟩
    · next status mem hne hmem => exact absurd (Prod.mk.inj h).1 hne
  · rintro ⟨mem, hmem, rfl⟩
    rw [hmem]
    rfl

/-- The output that a finite GEMM commits. -/
def committedFiniteOutput (modulus : ℕ) (C : RnsMatrix) (version : UInt64) (cell : ℕ → Int8) : RnsMatrix :=
  { markOutputHostResiduesCurrent (C.withPlanes cell) with
    finiteModulus := modulus
    sourceVersion := version }

theorem dispatchGemmFiniteU8_eq_success {env : GemmEnv} {ctx : Context} {plan : Plan} {modulus : ℕ}
    {a b c : Handle} {A B C C' : RnsMatrix} {s : Store} (hcpu : plan.backend = .cpuReference) :
    dispatchGemmFiniteU8 env ctx plan modulus a b c A B C s = (.success, C') ↔ ∃ mem,
      cpuGemmFiniteU8 env.cpu plan modulus a b c A B C s.planes = (.success, mem) ∧
        C' = committedFiniteOutput modulus C (gemmOutputSourceVersion A B) (mem c) := by
  unfold dispatchGemmFiniteU8
  simp only [hcpu]
  constructor
  · intro h
    split at h
    · next mem hmem => exact ⟨mem, hmem, (Prod.mk.inj h).2.symm⟩
    · next status mem hne hmem => exact absurd (Prod.mk.inj h).1 hne
  · rintro ⟨mem, hmem, rfl⟩
    rw [hmem]
    rfl

theorem sparseFiniteBranch_eq_success {env : GemmEnv} {plan : Plan} {modulus : ℕ} {A : SparseMatrix}
    {b c : Handle} {B C C' : RnsMatrix} {s : Store} :
    sparseFiniteBranch env plan modulus A b c B C s = (.success, C') ↔ ∃ mem,
      cpuGemmFiniteU8 env.cpu plan modulus (temporary b c) b c
        (makeSparseExpandedFiniteMatrix A plan modulus) B C
        (s.planesWith b c (makeSparseExpandedFiniteMatrix A plan modulus)) = (.success, mem) ∧
      C' = committedFiniteOutput modulus C
        (gemmOutputSourceVersionValues A.sourceVersion B.sourceVersion) (mem c) := by
  unfold sparseFiniteBranch
  constructor
  · intro h
    split at h
    · next mem hmem => exact ⟨mem, hmem, (Prod.mk.inj h).2.symm⟩
    · next status mem hne hmem => exact absurd (Prod.mk.inj h).1 hne
  · rintro ⟨mem, hmem, rfl⟩
    rw [hmem]
    rfl

theorem dispatchGemmWrapU64_eq_success {env : GemmEnv} {plan : Plan} {a b c : Handle}
    {A B C C' : RnsMatrix} {s : Store} (hcpu : plan.backend = .wrap64ByteLimb) :
    dispatchGemmWrapU64 env plan a b c A B C s = (.success, C') ↔ ∃ mem,
      cpuGemmWrapU64 env.cpu plan a b c A B C s.limbs = (.success, mem) ∧
        C' = markOutputHostByteLimbsCurrent (C.withLimbs (mem c)) := by
  unfold dispatchGemmWrapU64
  simp only [hcpu]
  constructor
  · intro h
    split at h
    · next mem hmem => exact ⟨mem, hmem, (Prod.mk.inj h).2.symm⟩
    · next status mem hne hmem => exact absurd (Prod.mk.inj h).1 hne
  · rintro ⟨mem, hmem, rfl⟩
    rw [hmem]

/-! ### Every entry point -/

/-- The plane loop behind a call. -/
structure PlaneCall (env : GemmEnv) (ctx : Context) (plan : Plan) (workspace : Workspace) (s : Store)
    (gemm : GemmCall) (g : GemmArgs Handle) (calls : List KernelCall) (mem : Planes Handle) :
    Prop where
  callPlan : CallPlan g.C.rows g.C.cols calls
  shaped : g.Shaped
  bounds : ∀ call ∈ calls, 0 < g.modulus call.plane ∧ g.modulus call.plane ≤ 256
  oneBlock : gemm.OneBlock plan → g.A.buf = g.C.buf ∨ g.B.buf = g.C.buf → g.k ≤ safeInt32KBlock
  undisturbed : gemm.Undisturbed plan s ↔ ProductUndisturbed calls g mem
  always : gemm.AlwaysProduct env ctx plan workspace s ↔
    ∀ cpu mem', kernelLoop g cpu 0 calls mem = (.success, mem') → ∀ call ∈ calls, ∀ p row col,
      call.Covers p row col → mem' g.C.buf (g.C.offset p row col) = loopProduct g mem p row col

/-- **Plane loops.** A call that leaves its operands undisturbed always leaves the product; for one K
block no other call does. -/
theorem PlaneCall.product {env : GemmEnv} {ctx : Context} {plan : Plan} {workspace : Workspace}
    {s : Store} {gemm : GemmCall} {g : GemmArgs Handle} {calls : List KernelCall}
    {mem : Planes Handle} (h : PlaneCall env ctx plan workspace s gemm g calls mem) :
    (gemm.Undisturbed plan s → gemm.AlwaysProduct env ctx plan workspace s) ∧
      (gemm.OneBlock plan → gemm.AlwaysProduct env ctx plan workspace s →
        gemm.Undisturbed plan s) := by
  rw [h.always, h.undisturbed]
  refine ⟨fun hun cpu mem' hrun => h.callPlan.run_undisturbed h.bounds h.shaped hun hrun, fun hone => ?_⟩
  exact (h.callPlan.all_runs_iff h.bounds h.shaped (h.oneBlock hone)).1

section Calls

variable {env : GemmEnv} {ctx : Context} {plan : Plan} {workspace : Workspace} {s : Store}

theorem desc_eq_of_handle {h h' : Handle} {M M' : RnsMatrix} (hM : s h = some M)
    (hM' : s h' = some M') (heq : h = h') : M.desc = M'.desc := by
  subst heq
  rw [Option.some.inj (hM.symm.trans hM')]

theorem oneBlock_of_handles {gemm : GemmCall} {t b c : Handle}
    (hsep : gemm.OneBlock plan → gemm.Separate ∨ plan.desc.k ≤ safeInt32KBlock)
    (hhandles : gemm.Separate → t ≠ c ∧ b ≠ c) (hone : gemm.OneBlock plan) (hbuf : t = c ∨ b = c) :
    plan.desc.k ≤ safeInt32KBlock := by
  rcases hsep hone with h | h
  · exact (hbuf.elim (hhandles h).1 (hhandles h).2).elim
  · exact h

theorem modulusAt_bounds_of_call (hplan : CreatedPlan plan)
    (hws : validatePlanContextWorkspace ctx plan workspace = .success)
    (hsem : usesRnsStorage plan.desc.semantics = true) {call : KernelCall}
    (hcall : call ∈ cpuGemmCalls plan) :
    0 < modulusAt call.plane ∧ modulusAt call.plane ≤ 256 := by
  have hladder := planScheduleContractMatches_ladder (validatePlanContextWorkspace_success hws).1 hsem
  have hlt := plane_lt_of_mem_cpuGemmCalls hplan hcall
  have h20 : maxSupportedPrefix = 20 := rfl
  have h28 : call.plane < 28 := by omega
  exact ⟨modulusAt_pos h28, (modulusAt_bounds h28).2⟩

/-- The loop of a scheduled product, whose left operand lies behind `t`. -/
theorem planeCall_scheduled {gemm : GemmCall} {t b c : Handle} {A B C : RnsMatrix}
    {mem : Planes Handle} (out : Planes Handle → RnsMatrix) (hplan : CreatedPlan plan)
    (hws : validatePlanContextWorkspace ctx plan workspace = .success)
    (hsem : usesRnsStorage plan.desc.semantics = true) (hshape : gemmShapesMatch plan A B C = true)
    (hac : t = c → A.desc = C.desc) (hbc : b = c → B.desc = C.desc) (hA : mem t = A.residues.cell)
    (hB : mem b = B.residues.cell)
    (hone : gemm.OneBlock plan → t = c ∨ b = c → plan.desc.k ≤ safeInt32KBlock)
    (hun : gemm.Undisturbed plan s ↔
      ProductUndisturbed (cpuGemmCalls plan) (gemmArgs plan t b c A B C modulusAt) mem)
    (hout : ∀ mem', (out mem').desc = C.desc ∧ (out mem').residues.cell = mem' c)
    (halways : gemm.AlwaysProduct env ctx plan workspace s ↔ ∀ cpu mem',
      kernelLoop (gemmArgs plan t b c A B C modulusAt) cpu 0 (cpuGemmCalls plan) mem =
        (.success, mem') → RnsProduct plan A B (out mem')) :
    PlaneCall env ctx plan workspace s gemm (gemmArgs plan t b c A B C modulusAt)
      (cpuGemmCalls plan) mem where
  callPlan := by
    have hcalls := cpuGemmCalls_callPlan hplan.grid
    rwa [← (gemmShapesMatch_spec hshape).2.2.1, ← (gemmShapesMatch_spec hshape).2.2.2] at hcalls
  shaped := gemmArgs_shaped hshape hac hbc _
  bounds _ hcall := modulusAt_bounds_of_call hplan hws hsem hcall
  oneBlock := hone
  undisturbed := hun
  always := by
    rw [halways]
    refine forall_congr' fun cpu => forall_congr' fun mem' => imp_congr_right fun _ => ?_
    exact rnsProduct_iff hplan.grid hA hB (hout mem').1 (hout mem').2 rfl

/-- The loop of a finite product, whose left operand lies behind `t`. -/
theorem planeCall_finite {gemm : GemmCall} {modulus : ℕ} {t b c : Handle} {A B C : RnsMatrix}
    {mem : Planes Handle} (out : Planes Handle → RnsMatrix)
    (hoperands : validateFiniteGemmOperands ctx plan modulus A B C = .success)
    (hshape : gemmShapesMatch plan A B C = true) (hac : t = c → A.desc = C.desc)
    (hbc : b = c → B.desc = C.desc) (hA : mem t = A.residues.cell) (hB : mem b = B.residues.cell)
    (hone : gemm.OneBlock plan → t = c ∨ b = c → plan.desc.k ≤ safeInt32KBlock)
    (hun : gemm.Undisturbed plan s ↔
      ProductUndisturbed (finiteGemmCalls plan) (gemmArgs plan t b c A B C fun _ => modulus) mem)
    (hout : ∀ mem', (out mem').desc = C.desc ∧ (out mem').residues.cell = mem' c)
    (halways : gemm.AlwaysProduct env ctx plan workspace s ↔ ∀ cpu mem',
      kernelLoop (gemmArgs plan t b c A B C fun _ => modulus) cpu 0 (finiteGemmCalls plan) mem =
        (.success, mem') → FiniteProduct plan modulus A B (out mem')) :
    PlaneCall env ctx plan workspace s gemm (gemmArgs plan t b c A B C fun _ => modulus)
      (finiteGemmCalls plan) mem where
  callPlan := by
    have hcalls := finiteGemmCalls_callPlan plan
    rwa [← (gemmShapesMatch_spec hshape).2.2.1, ← (gemmShapesMatch_spec hshape).2.2.2] at hcalls
  shaped := gemmArgs_shaped hshape hac hbc _
  bounds _ _ := finiteModulus_bounds (validateFiniteGemmOperands_spec hoperands).1
  oneBlock := hone
  undisturbed := hun
  always := by
    rw [halways]
    refine forall_congr' fun cpu => forall_congr' fun mem' => imp_congr_right fun _ => ?_
    exact finiteProduct_iff hA hB (hout mem').1 (hout mem').2 rfl

theorem rns_planeCall {a b c : Handle} (hplan : CreatedPlan plan)
    (hcpu : plan.backend = .cpuReference)
    (h : ((GemmCall.rns a b c).run env ctx plan workspace s).1 = .success) :
    (∃ g calls mem, PlaneCall env ctx plan workspace s (.rns a b c) g calls mem) ∧
      ((GemmCall.rns a b c).Separate → (GemmCall.rns a b c).ZeroTiles plan s →
        (GemmCall.rns a b c).Undisturbed plan s) := by
  rcases rns8GemmRns_cases env ctx workspace a b c s hcpu with hrej | ⟨A, B, C, range, hcall, heq⟩
  · exact absurd h (hrej env.cpu).1
  have hst : (cpuBranchGemmRns env plan a b c A B (preparedOutput plan C) range s).1 = .success :=
    (congrArg Prod.fst (heq env.cpu)).symm.trans h
  obtain ⟨mem, hmem, -⟩ := cpuBranchGemmRns_eq_success.1 (Prod.ext hst rfl)
  obtain ⟨hshape, hloop⟩ := cpuGemmRns_of_success (congrArg Prod.fst hmem)
  have hA := planes_of_some hcall.left
  have hB := planes_of_some hcall.right
  -- an output that is invalidated keeps its planes and its shape
  have hg : gemmArgs plan a b c A B (preparedOutput plan C) modulusAt =
      gemmArgs plan a b c A B C modulusAt := by
    simp [gemmArgs, RnsMatrix.operand]
  have hun : (GemmCall.rns a b c).Undisturbed plan s ↔ ProductUndisturbed (cpuGemmCalls plan)
      (gemmArgs plan a b c A B (preparedOutput plan C) modulusAt) s.planes := by
    simp only [GemmCall.Undisturbed, Option.mem_def, hcall.left, hcall.right, hcall.out,
      Option.some.injEq, forall_eq', hg]
  refine ⟨⟨_, _, _, planeCall_scheduled
    (fun mem => committedOutput plan A B (preparedOutput plan C) (mem c) range) hplan
    hcall.workspace (validateRnsGemmOperands_cpu hcpu hcall.operands).semantics hshape
    (fun hac => (desc_eq_of_handle hcall.left hcall.out hac).trans (preparedOutput_desc ..).symm)
    (fun hbc => (desc_eq_of_handle hcall.right hcall.out hbc).trans (preparedOutput_desc ..).symm)
    hA hB (oneBlock_of_handles (fun h => h) fun h => h) hun
    (fun mem' => ⟨by simp, by simp⟩) ?_⟩, fun hsep hzero => ?_⟩
  · simp only [GemmCall.AlwaysProduct, GemmCall.Product, Option.mem_def, hcall.left, hcall.right,
      Option.some.injEq, forall_eq', ← hloop]
    exact always_iff heq fun cpu C' => cpuBranchGemmRns_eq_success
  · rw [hun, hg]
    exact scheduledUndisturbed_of_separate hplan.grid hA hB hsep.1 hsep.2
      (hzero A hcall.left B hcall.right)

theorem finite_planeCall {modulus : ℕ} {a b c : Handle} (hcpu : plan.backend = .cpuReference)
    (h : ((GemmCall.finite modulus a b c).run env ctx plan workspace s).1 = .success) :
    (∃ g calls mem, PlaneCall env ctx plan workspace s (.finite modulus a b c) g calls mem) ∧
      ((GemmCall.finite modulus a b c).Separate →
        (GemmCall.finite modulus a b c).Undisturbed plan s) := by
  rcases rns8GemmFiniteU8_cases env ctx plan workspace modulus a b c s with hrej |
    ⟨A, B, C, hcall, heq⟩
  · exact absurd h (hrej env.cpu).1
  have hst : (dispatchGemmFiniteU8 env ctx plan modulus a b c A B C s).1 = .success :=
    (congrArg Prod.fst (heq env.cpu)).symm.trans h
  obtain ⟨mem, hmem, -⟩ := (dispatchGemmFiniteU8_eq_success hcpu).1 (Prod.ext hst rfl)
  obtain ⟨hshape, hloop⟩ := cpuGemmFiniteU8_of_success (congrArg Prod.fst hmem)
  have hun : (GemmCall.finite modulus a b c).Undisturbed plan s ↔
      ProductUndisturbed (finiteGemmCalls plan) (gemmArgs plan a b c A B C fun _ => modulus)
        s.planes := by
    simp only [GemmCall.Undisturbed, Option.mem_def, hcall.left, hcall.right, hcall.out,
      Option.some.injEq, forall_eq']
  refine ⟨⟨_, _, _, planeCall_finite
    (fun mem => committedFiniteOutput modulus C (gemmOutputSourceVersion A B) (mem c))
    hcall.operands hshape
    (desc_eq_of_handle hcall.left hcall.out) (desc_eq_of_handle hcall.right hcall.out)
    (planes_of_some hcall.left) (planes_of_some hcall.right)
    (oneBlock_of_handles (fun h => h) fun h => h) hun
    (fun mem' => ⟨rfl, rfl⟩) ?_⟩, fun hsep => ?_⟩
  · simp only [GemmCall.AlwaysProduct, GemmCall.Product, Option.mem_def, hcall.left, hcall.right,
      Option.some.injEq, forall_eq', ← hloop]
    exact always_iff heq fun cpu C' => dispatchGemmFiniteU8_eq_success hcpu
  · rw [hun]
    exact finiteUndisturbed_of_separate hsep.1 hsep.2

theorem rnsSparse_planeCall {A : SparseMatrix} {b c : Handle} (hplan : CreatedPlan plan)
    (hcpu : plan.backend = .cpuReference)
    (h : ((GemmCall.rnsSparse A b c).run env ctx plan workspace s).1 = .success) :
    (∃ g calls mem, PlaneCall env ctx plan workspace s (.rnsSparse A b c) g calls mem) ∧
      ((GemmCall.rnsSparse A b c).Separate → (GemmCall.rnsSparse A b c).ZeroTiles plan s →
        (GemmCall.rnsSparse A b c).Undisturbed plan s) := by
  -- a call that reaches no kernel does not succeed
  rcases rns8GemmRnsSparseA_cases env ctx workspace A b c s hcpu with hrej |
    ⟨B, C, bound, hcall, heq⟩
  · exact absurd h (hrej env.cpu).1
  have hst : (sparseBranch env plan A b c B (preparedOutput plan C) bound s).1 = .success :=
    (congrArg Prod.fst (heq env.cpu)).symm.trans h
  obtain ⟨mem, hmem, -⟩ := sparseBranch_eq_success.1 (Prod.ext hst rfl)
  obtain ⟨hshape, hloop⟩ := cpuGemmRns_of_success (congrArg Prod.fst hmem)
  -- the left operand is the expanded temporary, a handle of its own
  have htemp := temporary_ne b c
  have hA := planesWith_temporary s b c (makeSparseExpandedRnsMatrix A plan)
  have hB : s.planesWith b c (makeSparseExpandedRnsMatrix A plan) b = B.residues.cell := by
    rw [planesWith_of_ne s _ htemp.1.symm, planes_of_some hcall.right]
  have hg : gemmArgs plan (temporary b c) b c (makeSparseExpandedRnsMatrix A plan) B
      (preparedOutput plan C) modulusAt = gemmArgs plan (temporary b c) b c
        (makeSparseExpandedRnsMatrix A plan) B C modulusAt := by
    simp [gemmArgs, RnsMatrix.operand]
  have hun : (GemmCall.rnsSparse A b c).Undisturbed plan s ↔ ProductUndisturbed (cpuGemmCalls plan)
      (gemmArgs plan (temporary b c) b c (makeSparseExpandedRnsMatrix A plan) B
        (preparedOutput plan C) modulusAt)
      (s.planesWith b c (makeSparseExpandedRnsMatrix A plan)) := by
    simp only [GemmCall.Undisturbed, Option.mem_def, hcall.right, hcall.out, Option.some.injEq,
      forall_eq', hg]
  refine ⟨⟨_, _, _, planeCall_scheduled
    (fun mem => committedSparseOutput plan A B (preparedOutput plan C) (mem c) bound) hplan
    hcall.workspace (validateRnsGemmOperands_cpu hcpu hcall.operands).semantics hshape
    (fun hac => absurd hac htemp.2)
    (fun hbc => (desc_eq_of_handle hcall.right hcall.out hbc).trans (preparedOutput_desc ..).symm)
    hA hB (oneBlock_of_handles (fun h => h) fun h => ⟨htemp.2, h⟩) hun
    (fun mem' => ⟨by simp, by simp⟩) ?_⟩, fun hsep hzero => ?_⟩
  · simp only [GemmCall.AlwaysProduct, GemmCall.Product, Option.mem_def, hcall.right,
      Option.some.injEq, forall_eq', ← hloop]
    exact always_iff heq fun cpu C' => sparseBranch_eq_success
  · rw [hun, hg]
    exact scheduledUndisturbed_of_separate hplan.grid hA hB htemp.2 hsep (hzero B hcall.right)

theorem finiteSparse_planeCall {modulus : ℕ} {A : SparseMatrix} {b c : Handle}
    (hcpu : plan.backend = .cpuReference)
    (h : ((GemmCall.finiteSparse modulus A b c).run env ctx plan workspace s).1 = .success) :
    (∃ g calls mem, PlaneCall env ctx plan workspace s (.finiteSparse modulus A b c) g calls mem) ∧
      ((GemmCall.finiteSparse modulus A b c).Separate →
        (GemmCall.finiteSparse modulus A b c).Undisturbed plan s) := by
  rcases rns8GemmFiniteU8SparseA_cases env ctx workspace modulus A b c s hcpu with hrej |
    ⟨B, C, hcall, heq⟩
  · exact absurd h (hrej env.cpu).1
  have hst : (sparseFiniteBranch env plan modulus A b c B C s).1 = .success :=
    (congrArg Prod.fst (heq env.cpu)).symm.trans h
  obtain ⟨mem, hmem, -⟩ := sparseFiniteBranch_eq_success.1 (Prod.ext hst rfl)
  obtain ⟨hshape, hloop⟩ := cpuGemmFiniteU8_of_success (congrArg Prod.fst hmem)
  -- the left operand is the expanded temporary, a handle of its own
  have htemp := temporary_ne b c
  have hA := planesWith_temporary s b c (makeSparseExpandedFiniteMatrix A plan modulus)
  have hB : s.planesWith b c (makeSparseExpandedFiniteMatrix A plan modulus) b = B.residues.cell := by
    rw [planesWith_of_ne s _ htemp.1.symm, planes_of_some hcall.right]
  have hun : (GemmCall.finiteSparse modulus A b c).Undisturbed plan s ↔
      ProductUndisturbed (finiteGemmCalls plan) (gemmArgs plan (temporary b c) b c
          (makeSparseExpandedFiniteMatrix A plan modulus) B C fun _ => modulus)
        (s.planesWith b c (makeSparseExpandedFiniteMatrix A plan modulus)) := by
    simp only [GemmCall.Undisturbed, Option.mem_def, hcall.right, hcall.out, Option.some.injEq,
      forall_eq']
  refine ⟨⟨_, _, _, planeCall_finite (fun mem => committedFiniteOutput modulus C
      (gemmOutputSourceVersionValues A.sourceVersion B.sourceVersion) (mem c)) hcall.operands
    hshape (fun hac => absurd hac htemp.2)
    (desc_eq_of_handle hcall.right hcall.out) hA hB
    (oneBlock_of_handles (fun h => h) fun h => ⟨htemp.2, h⟩) hun
    (fun mem' => ⟨rfl, rfl⟩) ?_⟩, fun hsep => ?_⟩
  · simp only [GemmCall.AlwaysProduct, GemmCall.Product, Option.mem_def, hcall.right,
      Option.some.injEq, forall_eq', ← hloop]
    exact always_iff heq fun cpu C' => sparseFiniteBranch_eq_success
  · rw [hun]
    exact finiteUndisturbed_of_separate htemp.2 hsep

/-- **Wrapping calls.** -/
theorem wrap_product {a b c : Handle} (hcpu : plan.backend = .wrap64ByteLimb)
    (h : ((GemmCall.wrap a b c).run env ctx plan workspace s).1 = .success) :
    ((GemmCall.wrap a b c).AlwaysProduct env ctx plan workspace s ↔
        (GemmCall.wrap a b c).Undisturbed plan s) ∧
      ((GemmCall.wrap a b c).Separate → (GemmCall.wrap a b c).Undisturbed plan s) := by
  rcases rns8GemmWrapU64_cases env ctx plan workspace a b c s with hrej | ⟨A, B, C, hcall, heq⟩
  · exact absurd h (hrej env.cpu).1
  have hst : (dispatchGemmWrapU64 env plan a b c A B C s).1 = .success :=
    (congrArg Prod.fst (heq env.cpu)).symm.trans h
  obtain ⟨mem, hmem, -⟩ := (dispatchGemmWrapU64_eq_success hcpu).1 (Prod.ext hst rfl)
  obtain ⟨⟨hk, -, hcols⟩, hloop⟩ := cpuGemmWrapU64_of_success (congrArg Prod.fst hmem)
  -- from here on the call is its arguments and the memory the kernel left
  set g := wrapArgs plan a b c A B C with hg
  have hshape : g.Shaped := wrapArgs_shaped hk hcols (desc_eq_of_handle hcall.left hcall.out)
    (desc_eq_of_handle hcall.right hcall.out)
  have hun : (GemmCall.wrap a b c).Undisturbed plan s ↔ WrapUndisturbed g (· < g.m) s.limbs := by
    simp only [GemmCall.Undisturbed, Option.mem_def, hcall.left, hcall.right, hcall.out,
      Option.some.injEq, forall_eq']
    rfl
  -- the result is right iff every cell of the output is the row sum over the old limbs
  have hproduct : ∀ mem : Limbs Handle,
      WrapProduct plan A B (markOutputHostByteLimbsCurrent (C.withLimbs (mem c))) ↔
        ∀ row < g.m, ∀ col < g.n, g.C.wrapCell mem row col = wrapRowAcc g s.limbs row col := by
    intro mem
    have hdesc : (markOutputHostByteLimbsCurrent (C.withLimbs (mem c))).desc = C.desc := rfl
    have hcell : (markOutputHostByteLimbsCurrent (C.withLimbs (mem c))).byteLimbs.cell = mem c := rfl
    exact wrapProduct_iff (limbs_of_some hcall.left) (limbs_of_some hcall.right) hdesc hcell hg
  rw [hun]
  constructor
  · rw [← wrapLoop_all_iff hshape]
    simp only [GemmCall.AlwaysProduct, GemmCall.Product, Option.mem_def, hcall.left, hcall.right,
      Option.some.injEq, forall_eq']
    refine (always_iff heq fun cpu C' => dispatchGemmWrapU64_eq_success hcpu).trans ?_
    simp only [hproduct]
    constructor
    · exact fun h team => h ⟨fun _ => true, fun _ => serialTeam, team⟩ _ (hloop _ rfl)
    · intro h cpu mem' hmem'
      rcases cpuGemmWrapU64_cases cpu plan a b c A B C s.limbs with ⟨hne, -⟩ | ⟨-, hrun⟩
      · exact absurd (congrArg Prod.fst hmem') hne
      · rw [← (Prod.mk.inj (hrun.symm.trans hmem')).2]
        exact h cpu.wrapTeam
  · exact fun hbc hbuf => absurd hbuf hbc

end Calls

/-- **Aliased outputs.** A GEMM call of a created plan that is accepted on the CPU always leaves the
product of what its operands held, on every team, when overwriting them does no harm; and for one K
block, or an output of its own, only then. With an output of its own a call is undisturbed when the
tiles that the plan declares zero are zero. -/
theorem gemmCall_product_iff {env : GemmEnv} {ctx ctx' : Context} {desc : GemmDesc} {plan : Plan}
    {workspace : Workspace} {call : GemmCall} {s : Store} (hplan : rns8CreatePlan ctx' desc = .ok plan)
    (hcpu : plan.backend = call.cpuBackend)
    (h : (call.run env ctx plan workspace s).1 = .success) :
    (call.Undisturbed plan s → call.AlwaysProduct env ctx plan workspace s) ∧
      (call.OneBlock plan →
        (call.AlwaysProduct env ctx plan workspace s ↔ call.Undisturbed plan s)) ∧
      (call.Separate → call.ZeroTiles plan s → call.Undisturbed plan s) := by
  have hcreated := rns8CreatePlan_created hplan
  have hplanes : ∀ {gemm : GemmCall}, (∃ g calls mem, PlaneCall env ctx plan workspace s gemm g calls
      mem) → (gemm.Undisturbed plan s → gemm.AlwaysProduct env ctx plan workspace s) ∧
        (gemm.OneBlock plan →
          (gemm.AlwaysProduct env ctx plan workspace s ↔ gemm.Undisturbed plan s)) := by
    rintro gemm ⟨g, calls, mem, hcall⟩
    exact ⟨hcall.product.1, fun hone => ⟨hcall.product.2 hone, hcall.product.1⟩⟩
  cases call with
  | rns a b c =>
    obtain ⟨hcall, hsep⟩ := rns_planeCall hcreated hcpu h
    exact ⟨(hplanes hcall).1, (hplanes hcall).2, hsep⟩
  | finite modulus a b c =>
    obtain ⟨hcall, hsep⟩ := finite_planeCall hcpu h
    exact ⟨(hplanes hcall).1, (hplanes hcall).2, fun hs _ => hsep hs⟩
  | wrap a b c =>
    obtain ⟨hiff, hsep⟩ := wrap_product hcpu h
    exact ⟨hiff.2, fun _ => hiff, fun hs _ => hsep hs⟩
  | rnsSparse A b c =>
    obtain ⟨hcall, hsep⟩ := rnsSparse_planeCall hcreated hcpu h
    exact ⟨(hplanes hcall).1, (hplanes hcall).2, hsep⟩
  | finiteSparse modulus A b c =>
    obtain ⟨hcall, hsep⟩ := finiteSparse_planeCall hcpu h
    exact ⟨(hplanes hcall).1, (hplanes hcall).2, fun hs _ => hsep hs⟩

/-! ### A call of order one -/

/-- A bounded product of order one. -/
def unitDesc : GemmDesc where
  semantics := .boundedI64
  boundKind := .globalMaxAbs
  requestedBackend := .cpuReference
  m := 1
  n := 1
  k := 1
  bound := 1

/-- A bounded matrix of order one that was created and packed on the CPU. -/
def unitMatrix (instanceId : UInt64) (value : Int64) : Option RnsMatrix :=
  (rns8CreateMatrix (.ok instanceId) .cpu (makeMatrixDesc 1 1 .boundedI64 .globalMaxAbs 1 0 0)).toOption
    |>.map fun matrix => (rns8PackI64 (.ok _) .cpu matrix (fun _ => value) 1 0).2

/-- Three matrices of order one: two operands and an output. -/
def unitStore : Store := fun h => match h with
  | 0 => unitMatrix 1 1
  | 1 => unitMatrix 2 1
  | 2 => unitMatrix 3 0
  | _ => none

instance (plan : Plan) (A B C : RnsMatrix) : Decidable (RnsProduct plan A B C) :=
  inferInstanceAs (Decidable (∀ row < plan.desc.m, ∀ col < plan.desc.n, ∀ p < _, _ = _))

instance (plan : Plan) (A B : RnsMatrix) : Decidable (ZeroTilesHold plan A B) :=
  inferInstanceAs (Decidable (∀ row < plan.desc.m, ∀ col < plan.desc.n, _ → ∀ p < _, _ = _))

instance (plan : Plan) (s s' : Store) (a b c : Handle) :
    Decidable ((GemmCall.rns a b c).Product plan s s') :=
  inferInstanceAs (Decidable (∀ A ∈ s a, ∀ B ∈ s b, ∀ C ∈ s' c, RnsProduct plan A B C))

instance (plan : Plan) (s : Store) (a b c : Handle) :
    Decidable ((GemmCall.rns a b c).ZeroTiles plan s) :=
  inferInstanceAs (Decidable (∀ A ∈ s a, ∀ B ∈ s b, ZeroTilesHold plan A B))

/-- **The output of an accepted call is not the product** when it is the left operand: the row is
zero-filled before it is read, and `1 * 1` becomes `0`. -/
theorem aliasedOutput_ne_product :
    ∃ plan ∈ (rns8CreatePlan .cpu unitDesc).toOption,
      ∃ workspace ∈ (rns8CreateWorkspace .cpu plan).toOption,
        ((GemmCall.rns 0 1 0).run .ok .cpu plan workspace unitStore).1 = .success ∧
        ¬ (GemmCall.rns 0 1 0).Product plan unitStore
          ((GemmCall.rns 0 1 0).run .ok .cpu plan workspace unitStore).2 := by
  decide +kernel

/-- With an output of its own the same product is right. -/
theorem gemmCall_product_of_unit :
    ∃ plan ∈ (rns8CreatePlan .cpu unitDesc).toOption,
      ∃ workspace ∈ (rns8CreateWorkspace .cpu plan).toOption, ∃ s',
        (GemmCall.rns 0 1 2).run .ok .cpu plan workspace unitStore = (.success, s') ∧
        (GemmCall.rns 0 1 2).Product plan unitStore s' := by
  have hrun : ∃ plan ∈ (rns8CreatePlan .cpu unitDesc).toOption,
      ∃ workspace ∈ (rns8CreateWorkspace .cpu plan).toOption, plan.backend = .cpuReference ∧
        ((GemmCall.rns 0 1 2).run .ok .cpu plan workspace unitStore).1 = .success ∧
        (GemmCall.rns 0 1 2).ZeroTiles plan unitStore := by
    decide +kernel
  obtain ⟨plan, hplan, workspace, hworkspace, hcpu, hst, hzero⟩ := hrun
  have hcreated : rns8CreatePlan .cpu unitDesc = .ok plan := by
    cases he : rns8CreatePlan .cpu unitDesc with
    | error status => rw [he] at hplan; cases hplan
    | ok plan' => rw [he] at hplan; rw [Option.some.inj hplan]
  obtain ⟨hproduct, -, hsep⟩ := gemmCall_product_iff hcreated
    (show plan.backend = (GemmCall.rns 0 1 2).cpuBackend from hcpu) hst
  have hrun : (GemmCall.rns 0 1 2).run .ok .cpu plan workspace unitStore = (.success, _) :=
    Prod.ext hst rfl
  exact ⟨plan, hplan, workspace, hworkspace, _, hrun,
    hproduct (hsep ⟨by decide, by decide⟩ hzero) GemmEnv.ok.cpu _ hrun⟩

end Rns8
