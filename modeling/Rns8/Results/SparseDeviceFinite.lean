import Rns8.Results.SparseDeviceCalls

/-!
# Finite GEMMs of a sparse operand on the device

The finite siblings of the residue calls: the expansion on the device is accepted where the packed
form is, both calls run the same device operation, and so leave the same output. Only the dense call
compares its modulus with that of the plan.
-/

namespace Rns8

open CenteredResidue

variable {env : GemmEnv} {ctx : Context} {plan : Plan} {workspace : Workspace} {modulus : ℕ}
  {A : SparseMatrix} {a b c : Handle} {s : Store} {B C : RnsMatrix}

/-- A sparse finite GEMM on the device that has passed its checks. -/
structure BuiltinsFiniteCall (ctx : Context) (plan : Plan) (workspace : Workspace) (modulus : ℕ)
    (A : SparseMatrix) (b c : Handle) (s : Store) (B C : RnsMatrix) : Prop where
  right : s b = some B
  out : s c = some C
  workspace : validatePlanContextWorkspace ctx plan workspace = .success
  accepted : sparseFiniteMatchesPlan A plan modulus = true
  left : A.backend = .amdgpuBuiltins
  flat : plan.tileSchedule = []
  fixed : plan.scheduleAdaptivePrefixActive = false
  operands : sparseDeviceOperandsMatch ctx plan A B C .none 0 = true
  rightStorage : finiteMatrixStorageMatches B plan.backend plan.desc.k plan.desc.n = true
  outStorage : finiteMatrixStorageMatches C plan.backend plan.desc.m plan.desc.n = true
  rightCurrent : rnsResidueStateCurrentForBackend B plan.backend = true
  rightModulus : B.finiteModulus = modulus

/-- The output of a finite device GEMM whose kernel has left `cell`. -/
def builtinsFiniteOutput (modulus : ℕ) (C : RnsMatrix) (cell : ℕ → Int8) (version : UInt64) :
    RnsMatrix :=
  { markOutputDeviceResiduesCurrent (C.withHipResidues cell) with
    finiteModulus := modulus
    sourceVersion := version }

/-- A sparse call that has passed its checks commits what its kernel leaves. -/
theorem BuiltinsFiniteCall.run (hcall : BuiltinsFiniteCall ctx plan workspace modulus A b c s B C)
    (hdev : plan.backend = .amdgpuBuiltins) :
    ((rns8GemmFiniteU8SparseA env ctx plan workspace modulus A b c s).1 = .success ↔
        env.kernel.failure = none) ∧
      (env.kernel.failure = none → rns8GemmFiniteU8SparseA env ctx plan workspace modulus A b c s =
        (.success, s.set c (builtinsFiniteOutput modulus C env.kernel.left
          (gemmOutputSourceVersionValues A.sourceVersion B.sourceVersion)))) := by
  have hlive : ¬ (s b = none ∨ s c = none) := by simp [hcall.right, hcall.out]
  have hbackends : ¬ (plan.backend = .cpuReference ∧ A.backend = .cpuReference) := by simp [hdev]
  have hrun : rns8GemmFiniteU8SparseA env ctx plan workspace modulus A b c s =
      ((deviceGemmFiniteU8SparseA env ctx plan modulus A B C).1,
        s.set c (deviceGemmFiniteU8SparseA env ctx plan modulus A B C).2) := by
    unfold rns8GemmFiniteU8SparseA
    rw [if_neg hlive, hcall.workspace, onSuccess_success,
      withOperands_some hcall.right hcall.right hcall.out]
    unfold gemmFiniteU8SparseAOperands
    rw [hcall.accepted, Bool.not_true, if_neg Bool.false_ne_true, if_neg hbackends,
      if_pos ⟨hdev, hcall.left⟩]
  rw [hrun]
  unfold deviceGemmFiniteU8SparseA
  rw [if_neg (by simp [hcall.flat, hcall.fixed]), hcall.operands, hcall.rightStorage, hcall.outStorage,
    hcall.rightCurrent, if_neg (by simp [hcall.rightModulus])]
  unfold DeviceOp.run
  cases hfail : env.kernel.failure with
  | none => exact ⟨iff_of_true rfl rfl, fun _ => rfl⟩
  | some failure =>
    refine ⟨iff_of_false ?_ (by simp), nofun⟩
    obtain ⟨status, hne⟩ := failure
    cases status <;> simp at hne ⊢

/-- **A sparse finite GEMM that succeeds on the device** has passed its checks. -/
theorem rns8GemmFiniteU8SparseA_builtins (hdev : plan.backend = .amdgpuBuiltins)
    (h : (rns8GemmFiniteU8SparseA env ctx plan workspace modulus A b c s).1 = .success) :
    ∃ B C, BuiltinsFiniteCall ctx plan workspace modulus A b c s B C := by
  -- each check of a call that succeeded holds, in the order in which they are made
  have hws := rns8GemmFiniteU8SparseA_workspace h
  unfold rns8GemmFiniteU8SparseA at h
  split at h
  · cases h
  next hlive =>
  obtain ⟨B, -, C, hB, -, hC⟩ := exists_operands (a := b) (b := b) (c := c) (s := s) (by tauto)
  rw [hws, onSuccess_success, withOperands_some hB hB hC] at h
  dsimp only at h
  unfold gemmFiniteU8SparseAOperands at h
  split at h
  · cases h
  next hmatch =>
  rw [if_neg (by simp [hdev])] at h
  split at h
  swap
  · cases h
  next hbackend =>
  unfold deviceGemmFiniteU8SparseA at h
  split at h
  · cases h
  next hflat =>
  split at h
  · cases h
  next hops =>
  simp only [not_or, not_not, Bool.not_eq_true] at hflat
  simp only [Bool.or_eq_true, Bool.not_eq_true', not_or, Bool.not_eq_false, decide_eq_true_eq,
    not_not] at hops
  exact ⟨B, C, hB, hC, hws, by simpa using hmatch, hbackend.2, hflat.1, hflat.2, hops.1.1.1.1,
    hops.1.1.1.2, hops.1.1.2, hops.1.2, hops.2⟩

/-- The modulus of a packed finite matrix is supported. -/
theorem sparseFinite_modulus {dense : ℕ → UInt8} {ld : ℕ} (hheld : A.HoldsPacked dense ld)
    (hmatch : sparseFiniteMatchesPlan A plan modulus = true) :
    validFiniteModulusForSemantics plan.desc.semantics modulus = true := by
  obtain ⟨-, planes, hvalid⟩ := packSparseA4To2_valid hheld.packed
  simp only [sparseFiniteMatchesPlan, Bool.and_eq_true, decide_eq_true_eq] at hmatch
  obtain ⟨⟨⟨⟨⟨⟨⟨hfinite, hsem⟩, -⟩, -⟩, -⟩, -⟩, hmodulus⟩, -⟩ := hmatch
  have hident := (sparseContractValid_spec hvalid).1
  rw [← hsem] at hfinite
  have hkinds : ∀ semantics : Semantics, usesFiniteStorage semantics = true →
      usesRnsStorage semantics = false := fun semantics h => by
    cases semantics <;> first | rfl | cases h
  have hrns := hkinds A.desc.semantics hfinite
  unfold sparseSemanticIdentityValid at hident
  rw [hrns, if_neg Bool.false_ne_true, if_pos hfinite] at hident
  split at hident
  · cases hident
  · next hbad =>
    simp only [not_or, Bool.not_eq_false] at hbad
    rw [← hsem, ← hmodulus]
    exact hbad.2.2.2

/-- **The dense finite GEMM accepts the expansion** where the sparse one accepts the packed form. -/
theorem BuiltinsFiniteCall.validate
    (hcall : BuiltinsFiniteCall ctx plan workspace modulus A b c s B C)
    (hdev : plan.backend = .amdgpuBuiltins) {dense : ℕ → UInt8} {ld : ℕ} (hheld : A.HoldsPacked dense ld)
    (hm : plan.desc.m ≤ intMax) (hk : plan.desc.k ≤ safeInt32KBlock)
    (hmodulus : plan.desc.finiteModulus = modulus) :
    validateFiniteGemmOperands ctx plan modulus
      ((makeSparseExpandedFiniteMatrix A plan modulus).onBuiltins A.hipDeviceId) B C = .success := by
  have hstorage := expandedFinite_storage hheld.packed hcall.accepted hm hk A.hipDeviceId
  have hvalid := sparseFinite_modulus hheld hcall.accepted
  have hmatch := hcall.accepted
  simp only [sparseFiniteMatchesPlan, Bool.and_eq_true, decide_eq_true_eq] at hmatch
  obtain ⟨⟨⟨⟨⟨⟨⟨hfinite, -⟩, -⟩, -⟩, -⟩, -⟩, -⟩, -⟩ := hmatch
  have hops := hcall.operands
  simp only [sparseDeviceOperandsMatch, Bool.and_eq_true, decide_eq_true_eq] at hops
  obtain ⟨⟨⟨⟨⟨⟨⟨⟨⟨-, -⟩, hdevA⟩, -⟩, hbackB⟩, hbackC⟩, hdevB⟩, hdevC⟩, hdescB⟩, hdescC⟩ := hops
  -- what the sparse call has checked of its operands is what the dense call checks of the
  -- expanded one
  have hdescA : matrixDescriptorMatches
      ((makeSparseExpandedFiniteMatrix A plan modulus).onBuiltins A.hipDeviceId) plan.desc.semantics .none
      plan.desc.m plan.desc.k 0 plan.desc.tileM plan.desc.tileN = true := by
    simp [matrixDescriptorMatches, RnsMatrix.onBuiltins, makeSparseExpandedFiniteMatrix, makeMatrixDesc]
  have hbackends : operandBackendsMatch ctx plan (hipResidentRnsBackend plan.backend)
      ((makeSparseExpandedFiniteMatrix A plan modulus).onBuiltins A.hipDeviceId) B C = true := by
    have hbackA : matrixBackendCompatibleWithPlan ctx
        ((makeSparseExpandedFiniteMatrix A plan modulus).onBuiltins A.hipDeviceId) plan.backend =
          true := by
      simp [matrixBackendCompatibleWithPlan, RnsMatrix.onBuiltins, hdev]
    have hplace : ((makeSparseExpandedFiniteMatrix A plan modulus).onBuiltins
        A.hipDeviceId).hipDeviceId = ctx.deviceId := hdevA
    simp [operandBackendsMatch, hbackA, hbackB, hbackC, hdevB, hdevC, hplace]
  have hcurrent : rnsResidueStateCurrentForBackend
      ((makeSparseExpandedFiniteMatrix A plan modulus).onBuiltins A.hipDeviceId) plan.backend = true := by
    rw [hdev]
    rfl
  have hheldModulus : ((makeSparseExpandedFiniteMatrix A plan modulus).onBuiltins
      A.hipDeviceId).finiteModulus = modulus := rfl
  rw [← hdev] at hstorage
  unfold validateFiniteGemmOperands
  rw [hfinite, hvalid, hbackends, operandDescriptorsMatch, hdescA, hdescB, hdescC, hstorage,
    hcall.rightStorage, hcall.outStorage, hcurrent, hcall.rightCurrent, hheldModulus]
  simp [hmodulus, hcall.rightModulus]

/-- **The dense finite GEMM on the expansion** commits what its kernel leaves. -/
theorem BuiltinsFiniteCall.dense_run
    (hcall : BuiltinsFiniteCall ctx plan workspace modulus A b c s B C)
    (hdev : plan.backend = .amdgpuBuiltins) {dense : ℕ → UInt8} {ld : ℕ} (hheld : A.HoldsPacked dense ld)
    (hm : plan.desc.m ≤ intMax) (hk : plan.desc.k ≤ safeInt32KBlock)
    (hmodulus : plan.desc.finiteModulus = modulus)
    (ha : s a = some ((makeSparseExpandedFiniteMatrix A plan modulus).onBuiltins A.hipDeviceId))
    (hkernel : env.kernel.failure = none) :
    rns8GemmFiniteU8 env ctx plan workspace modulus a b c s =
      (.success, s.set c (builtinsFiniteOutput modulus C env.kernel.left
        (gemmOutputSourceVersionValues A.sourceVersion B.sourceVersion))) := by
  have hops := hcall.validate hdev hheld hm hk hmodulus
  have hlive : ¬ (s a = none ∨ s b = none ∨ s c = none) := by simp [ha, hcall.right, hcall.out]
  unfold rns8GemmFiniteU8
  rw [if_neg hlive, hcall.workspace, onSuccess_success, withOperands_some ha hcall.right hcall.out]
  dsimp only
  rw [hops, if_neg (by simp)]
  unfold dispatchGemmFiniteU8
  simp only [hdev]
  rw [if_neg (by simp [hcall.flat, hcall.fixed])]
  unfold DeviceOp.runIf DeviceOp.run
  rw [hkernel]
  rfl

/-- **Both finite calls run the same device operation.** -/
theorem withBuiltins_finite_eq {u : MatrixUnits} (hdoc : u.Documented) {dev : BuiltinDevice}
    (hbuilt : builtFor dev.arch = true) {variant : DenseKernelVariant} (env : GemmEnv)
    {dense : ℕ → UInt8} {ld : ℕ} (hheld : A.HoldsPacked dense ld) (hcurrent : A.deviceCurrent = true)
    (haccepted : sparseFiniteMatchesPlan A plan modulus = true) (B C : RnsMatrix)
    {sparseOrder denseOrder : WaveOrder 1 plan.desc.m plan.desc.n}
    (h : (env.withSparseBuiltins u dev (.finite (UInt32.ofNat modulus)) plan A B C
      sparseOrder).kernel.failure = none) :
    env.withDenseBuiltins u dev (.finite (UInt32.ofNat modulus)) variant plan
        ((makeSparseExpandedFiniteMatrix A plan modulus).onBuiltins A.hipDeviceId) B C denseOrder =
      env.withSparseBuiltins u dev (.finite (UInt32.ofNat modulus)) plan A B C sparseOrder := by
  obtain ⟨hvalues, hindices⟩ := hheld.device hcurrent
  obtain ⟨hpos, hbyte⟩ := finiteModulus_bounds (sparseFinite_modulus hheld haccepted)
  have hmatch := haccepted
  simp only [sparseFiniteMatchesPlan, Bool.and_eq_true, decide_eq_true_eq] at hmatch
  obtain ⟨⟨⟨⟨-, hrows⟩, hcols⟩, -⟩, -⟩ := hmatch.1
  obtain ⟨-, planes, hvalid⟩ := packSparseA4To2_valid hheld.packed
  have hcall : (amdgpuBuiltinsGemmSparseADevice u dev (.finite (UInt32.ofNat modulus))
      A.hipPackedValues A.hipPackedIndices B.hipResidues.cells plan.desc.m plan.desc.n plan.desc.k
      B.desc.cols C.desc.cols sparseOrder).1 = .success := builtinOp_failure_eq_none_iff.1 h
  unfold GemmEnv.withDenseBuiltins GemmEnv.withSparseBuiltins
  refine congrArg (fun op : DeviceOp Int8 => { env with kernel := op })
    (builtinOp_agree hdoc hbuilt ?_ hcall _)
  intro p hp row hrow kk hkk
  -- a finite matrix has one plane
  obtain rfl : p = 0 := Nat.lt_one_iff.1 hp
  have hcell := makeSparseExpandedFiniteMatrix_cell hheld.packed haccepted hrow hkk
  have hentry := expandedEntry_of_packed hheld.packed hvalid (.finite (UInt32.ofNat modulus))
    (sparsePlanes_pos hvalid) (by rw [hrows]; exact hrow) (by rw [hcols]; exact hkk)
  have hcellModulus : (BuiltinMode.finite (UInt32.ofNat modulus)).cellModulus 0 = modulus :=
    UInt32.toNat_ofNat_of_lt (lt_of_le_of_lt hbyte (by decide))
  rw [hrows, hcols, Nat.zero_mul, Nat.zero_add] at hentry
  rw [hvalues, hindices, hentry, hcellModulus]
  change ((makeSparseExpandedFiniteMatrix A plan modulus).residues.cell
    (residueIndex (makeSparseExpandedFiniteMatrix A plan modulus) 0 row kk)).toInt ≡ _ [ZMOD _]
  rw [hcell]
  exact centeredResidue_modEq _ hpos hbyte

section Kernels

variable {u : MatrixUnits} (hdoc : u.Documented) {dev : BuiltinDevice}
  (hbuilt : builtFor dev.arch = true) {variant : DenseKernelVariant}
  {sparseOrder denseOrder : WaveOrder 1 plan.desc.m plan.desc.n}
  (hdev : plan.backend = .amdgpuBuiltins) {dense : ℕ → UInt8} {ld : ℕ} (hheld : A.HoldsPacked dense ld)
  (hmodulus : plan.desc.finiteModulus = modulus)
  (ha : s a = some ((makeSparseExpandedFiniteMatrix A plan modulus).onBuiltins A.hipDeviceId))
  (hb : s b = some B) (hc : s c = some C)
include hdoc hbuilt hdev hheld hmodulus ha hb hc

/-- **A sparse finite GEMM on the device is the dense one** on the expanded operand. -/
theorem rns8GemmFiniteU8SparseA_device_dense
    (h : (rns8GemmFiniteU8SparseA (env.withSparseBuiltins u dev (.finite (UInt32.ofNat modulus)) plan A
      B C sparseOrder) ctx plan workspace modulus A b c s).1 = .success) :
    rns8GemmFiniteU8 (env.withDenseBuiltins u dev (.finite (UInt32.ofNat modulus)) variant plan
        ((makeSparseExpandedFiniteMatrix A plan modulus).onBuiltins A.hipDeviceId) B C denseOrder) ctx
        plan workspace modulus a b c s =
      rns8GemmFiniteU8SparseA (env.withSparseBuiltins u dev (.finite (UInt32.ofNat modulus)) plan A B C
        sparseOrder) ctx plan workspace modulus A b c s := by
  obtain ⟨B', C', hcall⟩ := rns8GemmFiniteU8SparseA_builtins hdev h
  obtain rfl : B = B' := Option.some.inj (hb.symm.trans hcall.right)
  obtain rfl : C = C' := Option.some.inj (hc.symm.trans hcall.out)
  have hkernel := (hcall.run hdev).1.1 h
  obtain ⟨hm, hk⟩ := limits_of_sparse_kernel (builtinOp_failure_eq_none_iff.1 hkernel)
  have hcurrent : A.deviceCurrent = true := by
    have hops := hcall.operands
    simp only [sparseDeviceOperandsMatch, Bool.and_eq_true] at hops
    tauto
  rw [withBuiltins_finite_eq hdoc hbuilt env hheld hcurrent hcall.accepted B C hkernel,
    (hcall.run hdev).2 hkernel]
  exact hcall.dense_run hdev hheld hm hk hmodulus ha hkernel

end Kernels

/-- What an accepted dense finite call on the device says about the sparse one. -/
theorem BuiltinsFiniteCall.of_dense (hdev : plan.backend = .amdgpuBuiltins) {D : RnsMatrix}
    (ha : s a = some D) (hb : s b = some B) (hc : s c = some C) (hA : A.backend = .amdgpuBuiltins)
    (hAcurrent : A.deviceCurrent = true) (hplace : A.hipDeviceId = ctx.deviceId)
    (hloaded : A.hipPacked = true) (haccepted : sparseFiniteMatchesPlan A plan modulus = true)
    (h : (rns8GemmFiniteU8 env ctx plan workspace modulus a b c s).1 = .success) :
    BuiltinsFiniteCall ctx plan workspace modulus A b c s B C ∧ env.kernel.failure = none := by
  have hws := rns8GemmFiniteU8_workspace h
  have hlocal : hipResidentRnsBackend plan.backend = true := by rw [hdev]; rfl
  -- follow the dense call to its kernel
  unfold rns8GemmFiniteU8 at h
  rw [if_neg (by simp [ha, hb, hc]), hws, onSuccess_success, withOperands_some ha hb hc] at h
  dsimp only at h
  split at h
  · next hops => exact absurd h hops
  next hops =>
  unfold dispatchGemmFiniteU8 at h
  simp only [hdev] at h
  split at h
  · cases h
  next hflat =>
  simp only [not_or, not_not, Bool.not_eq_true] at hflat
  have hkernel : env.kernel.failure = none := by
    unfold DeviceOp.runIf DeviceOp.run at h
    cases hfail : env.kernel.failure with
    | none => rfl
    | some failure =>
      rw [hfail] at h
      obtain ⟨status, hne⟩ := failure
      cases status <;> simp at hne h
  have hvalid := not_not.1 hops
  -- its checks in their order
  unfold validateFiniteGemmOperands at hvalid
  split at hvalid
  · cases hvalid
  split at hvalid
  · cases hvalid
  next hbackends =>
  split at hvalid
  · cases hvalid
  next hdescs =>
  split at hvalid
  · cases hvalid
  next hstorages =>
  split at hvalid
  · cases hvalid
  next hcurrents =>
  simp only [Bool.not_eq_true', Bool.not_eq_false, operandBackendsMatch, hlocal, Bool.not_true,
    Bool.false_or, Bool.and_eq_true, decide_eq_true_eq] at hbackends
  simp only [Bool.not_eq_true', Bool.not_eq_false, operandDescriptorsMatch, Bool.and_eq_true]
    at hdescs
  simp only [Bool.or_eq_true, Bool.not_eq_true', not_or, Bool.not_eq_false] at hstorages
  simp only [Bool.or_eq_true, Bool.not_eq_true', not_or, Bool.not_eq_false, decide_eq_true_eq,
    not_not] at hcurrents
  -- they cover those of the sparse call
  have haccepts := (validatePlanContextWorkspace_success hws).2
  refine ⟨⟨hb, hc, hws, haccepted, hA, hflat.1, hflat.2, ?_, hstorages.1.2, hstorages.2,
    hcurrents.1.1.2, hcurrents.2⟩, hkernel⟩
  simp [sparseDeviceOperandsMatch, haccepts, hAcurrent, hplace, hloaded, hbackends.1.1.2,
    hbackends.1.2, hbackends.2.1.2, hbackends.2.2, hdescs.1.2, hdescs.2]

/-- **Where the dense finite call succeeds so does the sparse one**, if the processor has a sparse
kernel. -/
theorem rns8GemmFiniteU8SparseA_device_of_dense {u : MatrixUnits} {dev : BuiltinDevice}
    {variant : DenseKernelVariant} {sparseOrder denseOrder : WaveOrder 1 plan.desc.m plan.desc.n}
    (hdev : plan.backend = .amdgpuBuiltins) {dense : ℕ → UInt8} {ld : ℕ}
    (hheld : A.HoldsPacked dense ld)
    (ha : s a = some ((makeSparseExpandedFiniteMatrix A plan modulus).onBuiltins A.hipDeviceId))
    (hb : s b = some B) (hc : s c = some C) (hkind : detectArchKind dev.arch ≠ .rdna3)
    (hA : A.backend = .amdgpuBuiltins) (hAcurrent : A.deviceCurrent = true)
    (hplace : A.hipDeviceId = ctx.deviceId) (hloaded : A.hipPacked = true)
    (haccepted : sparseFiniteMatchesPlan A plan modulus = true)
    (h : (rns8GemmFiniteU8 (env.withDenseBuiltins u dev (.finite (UInt32.ofNat modulus)) variant plan
      ((makeSparseExpandedFiniteMatrix A plan modulus).onBuiltins A.hipDeviceId) B C denseOrder) ctx
      plan workspace modulus a b c s).1 = .success) :
    (rns8GemmFiniteU8SparseA (env.withSparseBuiltins u dev (.finite (UInt32.ofNat modulus)) plan A B C
      sparseOrder) ctx plan workspace modulus A b c s).1 = .success := by
  obtain ⟨hcall, hkernel⟩ := BuiltinsFiniteCall.of_dense hdev ha hb hc hA hAcurrent hplace hloaded
    haccepted h
  obtain ⟨-, planes, hvalid⟩ := packSparseA4To2_valid hheld.packed
  obtain ⟨-, -, -, hK⟩ := sparseContractValid_spec hvalid
  have hcols : A.desc.expandedK = plan.desc.k := by
    simp only [sparseFiniteMatchesPlan, Bool.and_eq_true, decide_eq_true_eq] at haccepted
    tauto
  refine (hcall.run hdev).1.2 (builtinOp_failure_eq_none_iff.2
    (amdgpuBuiltinsGemmSparseADevice_of_dense ?_ hkind (builtinOp_failure_eq_none_iff.1 hkernel)))
  omega

end Rns8
