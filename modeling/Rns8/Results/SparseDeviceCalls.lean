import Rns8.Results.SparseBuiltins

/-!
# Residue GEMMs of a sparse operand on the device

The expansion of a packed matrix, put on the device (`RnsMatrix.onBuiltins`), is an operand that the
dense GEMM accepts wherever the sparse call accepts the packed one. With the kernels of the backend in
place (`GemmEnv.withSparseBuiltins`, `GemmEnv.withDenseBuiltins`) the two calls then run the same
device operation, and their outputs differ only in the range proof that they record.
-/

namespace Rns8

open CenteredResidue

/-! ### The dense operand -/

/-- A matrix with its residues on the matrix-core backend. -/
def RnsMatrix.onBuiltins (matrix : RnsMatrix) (deviceId : ℤ) : RnsMatrix :=
  { matrix with
    backend := .amdgpuBuiltins
    hostResiduesCurrent := false
    deviceResiduesCurrent := true
    hipDeviceId := deviceId
    hipResidues := some matrix.residues }

/-- The prefix of a residue plan without a tile schedule is that of its storages. -/
theorem rnsStoragePrefixForPlan_of_flat {plan : Plan} (hc : planScheduleContractMatches plan = true)
    (hrns : usesRnsStorage plan.desc.semantics = true) (hflat : plan.tileSchedule = []) :
    rnsStoragePrefixForPlan plan = plan.rnsPrefix := by
  have hkind : ¬ (plan.desc.semantics = .wrapU64Mod2_64 ∨
      usesFiniteStorage plan.desc.semantics = true) := by
    cases hs : plan.desc.semantics <;> simp_all [usesRnsStorage, usesFiniteStorage]
  unfold rnsStoragePrefixForPlan
  split
  · next hmax =>
    rw [Bool.and_eq_true, decide_eq_true_eq] at hmax
    simp only [planScheduleContractMatches, hkind, if_false, Bool.and_eq_true, hmax.1, if_true] at hc
    have htile := hc.2.2
    simp only [perTileContractMatches, hflat, List.isEmpty_nil, if_true, tileScheduleRedundant,
      Bool.and_eq_true, decide_eq_true_eq] at htile
    tauto
  · rfl

/-- A matrix fits the address space under the limits of the device. -/
theorem matrixCellCount_of_device {rows cols : ℕ} (hrows : 0 < rows) (hcols : 0 < cols)
    (hm : rows ≤ intMax) (hk : cols ≤ safeInt32KBlock) :
    matrixCellCount rows cols = some (rows * cols) := by
  have hcells : rows * cols ≤ intMax * safeInt32KBlock := Nat.mul_le_mul hm hk
  have hbound : intMax * safeInt32KBlock ≤ sizeMax := by decide
  have hfit : rows ≤ sizeMax / cols := (Nat.le_div_iff_mul_le hcols).2 (hcells.trans hbound)
  rw [matrixCellCount, if_neg (by omega), if_neg (not_lt.2 hfit)]

/-- So do its residue planes. -/
theorem rnsResidueCount_of_device {rows cols r : ℕ} (hrows : 0 < rows) (hcols : 0 < cols) (hr : 0 < r)
    (hm : rows ≤ intMax) (hk : cols ≤ safeInt32KBlock) (hmax : r ≤ maxSupportedPrefix) :
    rnsResidueCount rows cols r = some (rows * cols * r) := by
  have htotal : rows * cols * r ≤ intMax * safeInt32KBlock * maxSupportedPrefix :=
    Nat.mul_le_mul (Nat.mul_le_mul hm hk) hmax
  have hbound : intMax * safeInt32KBlock * maxSupportedPrefix ≤ sizeMax := by decide
  have hfit : rows * cols ≤ sizeMax / r := (Nat.le_div_iff_mul_le hr).2 (htotal.trans hbound)
  rw [rnsResidueCount, if_neg hr.ne', matrixCellCount_of_device hrows hcols hm hk]
  exact if_neg (not_lt.2 hfit)

/-- On the device a matrix has the storage that a residue plan expects, if its residues fill it. -/
theorem RnsMatrix.onBuiltins_rnsStorage {matrix : RnsMatrix} {rows cols r : ℕ}
    (hsize : matrix.residues.size = rows * cols * matrix.rnsPrefix)
    (hcount : rnsResidueCount rows cols matrix.rnsPrefix = some (rows * cols * matrix.rnsPrefix))
    (hlimbs : noByteLimbStorage matrix = true) (hle : r ≤ matrix.rnsPrefix) (deviceId : ℤ) :
    rnsMatrixStorageMatches (matrix.onBuiltins deviceId) .amdgpuBuiltins rows cols r = true := by
  have hfirst : (matrix.onBuiltins deviceId).rnsPrefix = matrix.rnsPrefix := rfl
  have hlimbs' : noByteLimbStorage (matrix.onBuiltins deviceId) = true := hlimbs
  unfold rnsMatrixStorageMatches
  rw [hfirst, if_neg (not_lt.2 hle)]
  simp only [hcount, hlimbs', Bool.and_true]
  simp [onBuiltins, hsize, residueDeviceStorageMatches, hipResidentRnsBackend]

/-- The same for a finite plan. -/
theorem RnsMatrix.onBuiltins_finiteStorage {matrix : RnsMatrix} {rows cols : ℕ}
    (hsize : matrix.residues.size = rows * cols)
    (hcount : matrixCellCount rows cols = some (rows * cols))
    (hlimbs : noByteLimbStorage matrix = true) (hfinite : matrix.rnsPrefix = 0) (deviceId : ℤ) :
    finiteMatrixStorageMatches (matrix.onBuiltins deviceId) .amdgpuBuiltins rows cols = true := by
  simpa [finiteMatrixStorageMatches, onBuiltins, hcount, hsize, noByteLimbStorage, hfinite,
    residueDeviceStorageMatches, hipResidentRnsBackend] using hlimbs

section Operand

variable {A : SparseMatrix} {plan : Plan} {dense : ℕ → UInt8} {ld : ℕ} {ctx : Context}
  (hpacked : packSparseA4To2 A.desc dense ld = .ok (A.packedValues, A.packedIndices))
include hpacked

/-- The expanded operand has the storage that a residue plan expects. -/
theorem expandedRns_storage (hmatch : sparseRnsMatchesPlan A plan = true)
    (hpos : 0 < rnsStoragePrefixForPlan plan) (hm : plan.desc.m ≤ intMax)
    (hk : plan.desc.k ≤ safeInt32KBlock) (deviceId : ℤ) :
    rnsMatrixStorageMatches ((makeSparseExpandedRnsMatrix A plan).onBuiltins deviceId) .amdgpuBuiltins
      plan.desc.m plan.desc.k (rnsStoragePrefixForPlan plan) = true := by
  have hsize := makeSparseExpandedRnsMatrix_size hpacked hmatch hpos
  simp only [sparseRnsMatchesPlan, Bool.and_eq_true, decide_eq_true_eq] at hmatch
  obtain ⟨⟨⟨⟨⟨⟨⟨⟨hrns, hsem⟩, -⟩, hrows⟩, hcols⟩, hprefix⟩, -⟩, -⟩, -⟩ := hmatch
  obtain ⟨-, planes, hvalid⟩ := packSparseA4To2_valid hpacked
  obtain ⟨-, hrows', hcols', -⟩ := sparseContractValid_spec hvalid
  have hmax : A.desc.maxPrefix ≤ maxSupportedPrefix :=
    sparseMaxPrefix_le hvalid (by rw [hsem]; exact hrns)
  have hcount := rnsResidueCount_of_device (hrows ▸ hrows') (hcols ▸ hcols') (hpos.trans_le hprefix)
    hm hk hmax
  have hbytes : A.desc.maxPrefix * plan.desc.m * plan.desc.k =
      plan.desc.m * plan.desc.k * A.desc.maxPrefix := by ring
  exact RnsMatrix.onBuiltins_rnsStorage (hsize.trans hbytes) hcount rfl hprefix deviceId

/-- The expanded operand has the storage that a finite plan expects. -/
theorem expandedFinite_storage {modulus : ℕ} (hmatch : sparseFiniteMatchesPlan A plan modulus = true)
    (hm : plan.desc.m ≤ intMax) (hk : plan.desc.k ≤ safeInt32KBlock) (deviceId : ℤ) :
    finiteMatrixStorageMatches ((makeSparseExpandedFiniteMatrix A plan modulus).onBuiltins deviceId)
      .amdgpuBuiltins plan.desc.m plan.desc.k = true := by
  have hsize := makeSparseExpandedFiniteMatrix_size hpacked hmatch
  simp only [sparseFiniteMatchesPlan, Bool.and_eq_true, decide_eq_true_eq] at hmatch
  obtain ⟨⟨⟨⟨-, hrows⟩, hcols⟩, -⟩, -⟩ := hmatch.1
  obtain ⟨-, planes, hvalid⟩ := packSparseA4To2_valid hpacked
  obtain ⟨-, hrows', hcols', -⟩ := sparseContractValid_spec hvalid
  have hcount := matrixCellCount_of_device (hrows ▸ hrows') (hcols ▸ hcols') hm hk
  exact RnsMatrix.onBuiltins_finiteStorage hsize hcount rfl rfl deviceId

end Operand

/-! ### Workspaces -/

section Workspaces

variable {env : GemmEnv} {ctx : Context} {plan : Plan} {workspace : Workspace} {A : SparseMatrix}
  {modulus : ℕ} {a b c : Handle} {s : Store}

/-- A sparse residue GEMM that succeeds has checked its workspace. -/
theorem rns8GemmRnsSparseA_workspace
    (h : (rns8GemmRnsSparseA env ctx plan workspace A b c s).1 = .success) :
    validatePlanContextWorkspace ctx plan workspace = .success := by
  by_contra hws
  unfold rns8GemmRnsSparseA at h
  split at h
  · cases h
  · rw [onSuccess_of_ne hws] at h
    exact hws h

/-- A finite GEMM that succeeds has checked its workspace. -/
theorem rns8GemmFiniteU8_workspace
    (h : (rns8GemmFiniteU8 env ctx plan workspace modulus a b c s).1 = .success) :
    validatePlanContextWorkspace ctx plan workspace = .success := by
  by_contra hws
  unfold rns8GemmFiniteU8 at h
  split at h
  · cases h
  · rw [onSuccess_of_ne hws] at h
    exact hws h

/-- A sparse finite GEMM that succeeds has checked its workspace. -/
theorem rns8GemmFiniteU8SparseA_workspace
    (h : (rns8GemmFiniteU8SparseA env ctx plan workspace modulus A b c s).1 = .success) :
    validatePlanContextWorkspace ctx plan workspace = .success := by
  by_contra hws
  unfold rns8GemmFiniteU8SparseA at h
  split at h
  · cases h
  · rw [onSuccess_of_ne hws] at h
    exact hws h

end Workspaces

/-! ### Residue GEMMs -/

section Rns

variable {env : GemmEnv} {ctx : Context} {plan : Plan} {workspace : Workspace} {A : SparseMatrix}
  {a b c : Handle} {s : Store} {B C : RnsMatrix} {bound : ℤ}

/-- Residues that are current for the backend of the plan are not converted. -/
theorem ensureInputCurrent_of_current (bridge : DeviceOp Int8) (ctx : Context) {h : Handle}
    {matrix : RnsMatrix} (hm : s h = some matrix)
    (hcurrent : rnsResidueStateCurrentForBackend matrix plan.backend = true) :
    ensureInputCurrent bridge ctx plan h s = (.success, s) := by
  have hid : ensureBoundedNativeResiduesCurrentForRnsPlan bridge ctx plan matrix =
      (.success, matrix) := by
    unfold ensureBoundedNativeResiduesCurrentForRnsPlan
    rw [hcurrent, if_pos rfl]
    split <;> rfl
  simp [ensureInputCurrent, hm, hid]

/-- A sparse residue GEMM on the device that has passed its checks. -/
structure BuiltinsSparseCall (ctx : Context) (plan : Plan) (workspace : Workspace) (A : SparseMatrix)
    (b c : Handle) (s : Store) (B C : RnsMatrix) (bound : ℤ) : Prop where
  right : s b = some B
  out : s c = some C
  workspace : validatePlanContextWorkspace ctx plan workspace = .success
  accepted : sparseRnsMatchesPlan A plan = true
  range : sparseGemmRange plan A b c B = .ok bound
  left : A.backend = .amdgpuBuiltins
  flat : plan.tileSchedule = []
  fixed : plan.scheduleAdaptivePrefixActive = false
  operands : sparseDeviceOperandsMatch ctx plan A B C (storageBoundKindForPlan plan)
    (rnsStoragePrefixForPlan plan) = true
  rightStorage : rnsMatrixStorageMatches B plan.backend plan.desc.k plan.desc.n
    (rnsStoragePrefixForPlan plan) = true
  outStorage : rnsMatrixStorageMatches C plan.backend plan.desc.m plan.desc.n
    (rnsStoragePrefixForPlan plan) = true
  rightCurrent : rnsResidueStateCurrentForBackend B plan.backend = true

/-- The output of a device GEMM whose kernel has left `cell`. -/
def builtinsOutput (plan : Plan) (C : RnsMatrix) (cell : ℕ → Int8) (version : UInt64)
    (range : ℤ × MatrixRanges) : RnsMatrix :=
  commitExactRange { markOutputDeviceResiduesCurrent ((preparedOutput plan C).withHipResidues cell) with
    sourceVersion := version } plan range.1 range.2

/-- A sparse call that has passed its checks commits what its kernel leaves. -/
theorem BuiltinsSparseCall.run (hcall : BuiltinsSparseCall ctx plan workspace A b c s B C bound)
    (hdev : plan.backend = .amdgpuBuiltins) :
    ((rns8GemmRnsSparseA env ctx plan workspace A b c s).1 = .success ↔ env.kernel.failure = none) ∧
      (env.kernel.failure = none → rns8GemmRnsSparseA env ctx plan workspace A b c s =
        (.success, s.set c (builtinsOutput plan C env.kernel.left
          (gemmOutputSourceVersionValues A.sourceVersion B.sourceVersion) (bound, {})))) := by
  have hlive : ¬ (s b = none ∨ s c = none) := by simp [hcall.right, hcall.out]
  have hbackends : ¬ (plan.backend = .cpuReference ∧ A.backend = .cpuReference) := by simp [hdev]
  have hrun : rns8GemmRnsSparseA env ctx plan workspace A b c s =
      ((deviceGemmRnsSparseA env ctx plan A B C bound).1,
        s.set c (deviceGemmRnsSparseA env ctx plan A B C bound).2) := by
    unfold rns8GemmRnsSparseA
    rw [if_neg hlive, hcall.workspace, onSuccess_success,
      withOperands_some hcall.right hcall.right hcall.out]
    unfold gemmRnsSparseAOperands
    rw [hcall.accepted, Bool.not_true, if_neg Bool.false_ne_true, hcall.range]
    dsimp only
    rw [if_neg hbackends, if_pos ⟨hdev, hcall.left⟩]
  rw [hrun]
  unfold deviceGemmRnsSparseA
  dsimp only
  rw [if_neg (by simp [hcall.flat, hcall.fixed]), hcall.operands, hcall.rightStorage, hcall.outStorage,
    hcall.rightCurrent, if_neg (by simp)]
  unfold DeviceOp.run
  cases hfail : env.kernel.failure with
  | none => exact ⟨iff_of_true rfl rfl, fun _ => rfl⟩
  | some failure =>
    refine ⟨iff_of_false ?_ (by simp), nofun⟩
    obtain ⟨status, hne⟩ := failure
    cases status <;> simp at hne ⊢

/-- **A sparse residue GEMM that succeeds on the device** has passed its checks. -/
theorem rns8GemmRnsSparseA_builtins (hdev : plan.backend = .amdgpuBuiltins)
    (h : (rns8GemmRnsSparseA env ctx plan workspace A b c s).1 = .success) :
    ∃ B C bound, BuiltinsSparseCall ctx plan workspace A b c s B C bound := by
  -- each check of a call that succeeded holds, in the order in which they are made
  have hws := rns8GemmRnsSparseA_workspace h
  unfold rns8GemmRnsSparseA at h
  split at h
  · cases h
  next hlive =>
  obtain ⟨B, -, C, hB, -, hC⟩ := exists_operands (a := b) (b := b) (c := c) (s := s) (by tauto)
  rw [hws, onSuccess_success, withOperands_some hB hB hC] at h
  dsimp only at h
  unfold gemmRnsSparseAOperands at h
  split at h
  · cases h
  next hmatch =>
  split at h
  · next hrange => exact absurd h (sparseGemmRange_error hrange)
  next bound hrange =>
  rw [if_neg (by simp [hdev])] at h
  split at h
  swap
  · cases h
  next hbackend =>
  unfold deviceGemmRnsSparseA at h
  dsimp only at h
  split at h
  · cases h
  next hflat =>
  split at h
  · cases h
  next hops =>
  simp only [not_or, not_not, Bool.not_eq_true] at hflat
  simp only [Bool.or_eq_true, Bool.not_eq_true', not_or, Bool.not_eq_false] at hops
  exact ⟨B, C, bound, hB, hC, hws, by simpa using hmatch, hrange, hbackend.2, hflat.1, hflat.2,
    hops.1.1.1, hops.1.1.2, hops.1.2, hops.2⟩

/-- What the checks of a sparse call say about its dense operands. -/
theorem BuiltinsSparseCall.prefix_eq (hcall : BuiltinsSparseCall ctx plan workspace A b c s B C bound) :
    rnsStoragePrefixForPlan plan = plan.rnsPrefix ∧ 0 < plan.rnsPrefix := by
  have hrns : usesRnsStorage plan.desc.semantics = true := by
    have hmatch := hcall.accepted
    simp only [sparseRnsMatchesPlan, Bool.and_eq_true] at hmatch
    tauto
  have hcontract := (validatePlanContextWorkspace_success hcall.workspace).1
  exact ⟨rnsStoragePrefixForPlan_of_flat hcontract hrns hcall.flat,
    (planScheduleContractMatches_ladder hcontract hrns).1⟩

/-- **The dense GEMM accepts the expansion** where the sparse one accepts the packed form. -/
theorem BuiltinsSparseCall.validate (hcall : BuiltinsSparseCall ctx plan workspace A b c s B C bound)
    (hdev : plan.backend = .amdgpuBuiltins) (hac : a ≠ c) {dense : ℕ → UInt8} {ld : ℕ}
    (hheld : A.HoldsPacked dense ld) (hm : plan.desc.m ≤ intMax) (hk : plan.desc.k ≤ safeInt32KBlock)
    {range : ℤ × MatrixRanges} (hrange : exactGemmRange plan
      ((makeSparseExpandedRnsMatrix A plan).onBuiltins A.hipDeviceId) B = .ok range) :
    validateRnsGemmOperands ctx plan a b c
      ((makeSparseExpandedRnsMatrix A plan).onBuiltins A.hipDeviceId) B C = .success := by
  -- the four checks of the dense call, each from its counterpart in the sparse one
  obtain ⟨hpre, hpos⟩ := hcall.prefix_eq
  have hstorage := expandedRns_storage hheld.packed hcall.accepted (by omega) hm hk A.hipDeviceId
  have hmatch := hcall.accepted
  simp only [sparseRnsMatchesPlan, Bool.and_eq_true, decide_eq_true_eq] at hmatch
  obtain ⟨⟨⟨⟨⟨⟨⟨⟨hrns, -⟩, -⟩, -⟩, -⟩, hle⟩, -⟩, -⟩, -⟩ := hmatch
  have hops := hcall.operands
  simp only [sparseDeviceOperandsMatch, Bool.and_eq_true, decide_eq_true_eq] at hops
  obtain ⟨⟨⟨⟨⟨⟨⟨⟨⟨-, -⟩, hdevA⟩, -⟩, hbackB⟩, hbackC⟩, hdevB⟩, hdevC⟩, hdescB⟩, hdescC⟩ := hops
  have hdescA : matrixDescriptorMatches ((makeSparseExpandedRnsMatrix A plan).onBuiltins A.hipDeviceId)
      plan.desc.semantics (storageBoundKindForPlan plan) plan.desc.m plan.desc.k
      (rnsStoragePrefixForPlan plan) plan.desc.tileM plan.desc.tileN = true := by
    have hne : rnsStoragePrefixForPlan plan ≠ 0 := by omega
    simp [matrixDescriptorMatches, RnsMatrix.onBuiltins, makeSparseExpandedRnsMatrix, makeMatrixDesc,
      not_lt.2 hle, hne]
  have hbackends : operandBackendsMatch ctx plan (hipDeviceBackend plan.backend)
      ((makeSparseExpandedRnsMatrix A plan).onBuiltins A.hipDeviceId) B C = true := by
    have hbackA : matrixBackendCompatibleWithPlan ctx
        ((makeSparseExpandedRnsMatrix A plan).onBuiltins A.hipDeviceId) plan.backend = true := by
      simp [matrixBackendCompatibleWithPlan, RnsMatrix.onBuiltins, hdev]
    have hplace : ((makeSparseExpandedRnsMatrix A plan).onBuiltins A.hipDeviceId).hipDeviceId =
        ctx.deviceId := hdevA
    simp [operandBackendsMatch, hbackA, hbackB, hbackC, hdevB, hdevC, hplace]
  have hstorages : rnsStoragesMatch plan
      ((makeSparseExpandedRnsMatrix A plan).onBuiltins A.hipDeviceId) B C = true := by
    rw [← hdev] at hstorage
    simp [rnsStoragesMatch, hstorage, hcall.rightStorage, hcall.outStorage]
  have hcurrent : rnsResidueStateCurrentForBackend
      ((makeSparseExpandedRnsMatrix A plan).onBuiltins A.hipDeviceId) plan.backend = true := by
    rw [hdev]
    rfl
  -- with them no test of the dense call fails
  unfold validateRnsGemmOperands
  rw [if_neg (by simp [hrns, hpos.ne']), hbackends, operandDescriptorsMatch, hdescA, hdescB, hdescC,
    hstorages, hcurrent, hcall.rightCurrent]
  simp only [Bool.not_true, Bool.and_self, Bool.false_eq_true, if_false, Bool.or_self, hrange]
  rw [if_neg (by rw [hdev]; decide), if_neg (by simp [hdev])]
  split
  · next hexact => rw [if_neg (not_or.2 ⟨hac, (sparseGemmRange_prefixes hcall.range hexact).1⟩)]
  · rfl

/-- **The dense GEMM on the expansion** commits what its kernel leaves. -/
theorem BuiltinsSparseCall.dense_run (hcall : BuiltinsSparseCall ctx plan workspace A b c s B C bound)
    (hdev : plan.backend = .amdgpuBuiltins) (hac : a ≠ c) {dense : ℕ → UInt8} {ld : ℕ}
    (hheld : A.HoldsPacked dense ld) (hm : plan.desc.m ≤ intMax) (hk : plan.desc.k ≤ safeInt32KBlock)
    (ha : s a = some ((makeSparseExpandedRnsMatrix A plan).onBuiltins A.hipDeviceId))
    {range : ℤ × MatrixRanges} (hrange : exactGemmRange plan
      ((makeSparseExpandedRnsMatrix A plan).onBuiltins A.hipDeviceId) B = .ok range)
    (hkernel : env.kernel.failure = none) :
    rns8GemmRns env ctx plan workspace a b c s =
      (.success, s.set c (builtinsOutput plan C env.kernel.left
        (gemmOutputSourceVersionValues A.sourceVersion B.sourceVersion) range)) := by
  have hops := hcall.validate hdev hac hheld hm hk hrange
  have hlive : ¬ (s a = none ∨ s b = none ∨ s c = none) := by simp [ha, hcall.right, hcall.out]
  -- this backend has no shortcut for schedules of zero tiles
  have hdirect : (decide (plan.backend = .hipDirect) && planAllZeroOutputTiles plan) = false := by
    simp [hdev]
  unfold rns8GemmRns
  rw [if_neg hlive]
  dsimp only
  rw [hcall.workspace, onSuccess_success, hdirect, if_neg Bool.false_ne_true,
    ensureInputCurrent_of_current _ _ ha (by rw [hdev]; rfl), onSuccess_success,
    ensureInputCurrent_of_current _ _ hcall.right hcall.rightCurrent, onSuccess_success,
    withOperands_some ha hcall.right hcall.out]
  unfold gemmRnsOperands
  dsimp only
  rw [hops, if_neg (by simp), hrange]
  dsimp only
  unfold dispatchGemmRns
  simp only [hdev]
  rw [if_neg (by simp [hcall.flat, hcall.fixed])]
  unfold residentGemmRns DeviceOp.runIf DeviceOp.run
  rw [hkernel]
  rfl

/-- The environment of a sparse GEMM with the kernel of the backend in place. -/
def GemmEnv.withSparseBuiltins (env : GemmEnv) (u : MatrixUnits) (dev : BuiltinDevice)
    (mode : BuiltinMode) (plan : Plan) (A : SparseMatrix) (B C : RnsMatrix)
    (order : WaveOrder mode.planes plan.desc.m plan.desc.n) : GemmEnv :=
  { env with
    kernel := builtinOp (amdgpuBuiltinsGemmSparseADevice u dev mode A.hipPackedValues
      A.hipPackedIndices B.hipResidues.cells plan.desc.m plan.desc.n plan.desc.k B.desc.cols
      C.desc.cols order) C.hipResidues.cells }

/-- The environment of a dense GEMM with the kernel of the backend in place. -/
def GemmEnv.withDenseBuiltins (env : GemmEnv) (u : MatrixUnits) (dev : BuiltinDevice)
    (mode : BuiltinMode) (variant : DenseKernelVariant) (plan : Plan) (A B C : RnsMatrix)
    (order : WaveOrder mode.planes plan.desc.m plan.desc.n) : GemmEnv :=
  { env with
    kernel := builtinOp (amdgpuBuiltinsGemmDevice u dev mode variant A.hipResidues.cells
      B.hipResidues.cells plan.desc.m plan.desc.n plan.desc.k A.desc.cols B.desc.cols C.desc.cols
      order) C.hipResidues.cells }

/-- Where a kernel runs, the shape of its plan is within the limits of the device. -/
theorem limits_of_sparse_kernel {u : MatrixUnits} {dev : BuiltinDevice} {mode : BuiltinMode}
    {v i : ℕ → UInt8} {b : ℕ → Int8} {m n k ldb ldc : ℕ} {order : WaveOrder mode.planes m n}
    (h : (amdgpuBuiltinsGemmSparseADevice u dev mode v i b m n k ldb ldc order).1 = .success) :
    m ≤ intMax ∧ k ≤ safeInt32KBlock := by
  obtain ⟨⟨hshape, -, hsafe⟩, -⟩ := amdgpuBuiltinsGemmSparseADevice_success_iff.1 h
  simp only [validSparseShape, fitsIntArgument, Bool.and_eq_true, decide_eq_true_eq] at hshape
  omega

/-- **Both calls run the same device operation.** -/
theorem withBuiltins_rns_eq {u : MatrixUnits} (hdoc : u.Documented) {dev : BuiltinDevice}
    (hbuilt : builtFor dev.arch = true) {variant : DenseKernelVariant} (env : GemmEnv)
    {dense : ℕ → UInt8} {ld : ℕ} (hheld : A.HoldsPacked dense ld) (hcurrent : A.deviceCurrent = true)
    (haccepted : sparseRnsMatchesPlan A plan = true)
    (hpre : rnsStoragePrefixForPlan plan = plan.rnsPrefix) (B C : RnsMatrix)
    {sparseOrder denseOrder : WaveOrder plan.rnsPrefix plan.desc.m plan.desc.n}
    (h : (env.withSparseBuiltins u dev (.rns plan.rnsPrefix) plan A B C sparseOrder).kernel.failure =
      none) :
    env.withDenseBuiltins u dev (.rns plan.rnsPrefix) variant plan
        ((makeSparseExpandedRnsMatrix A plan).onBuiltins A.hipDeviceId) B C denseOrder =
      env.withSparseBuiltins u dev (.rns plan.rnsPrefix) plan A B C sparseOrder := by
  obtain ⟨hvalues, hindices⟩ := hheld.device hcurrent
  have hmatch := haccepted
  simp only [sparseRnsMatchesPlan, Bool.and_eq_true, decide_eq_true_eq] at hmatch
  obtain ⟨⟨⟨⟨⟨⟨⟨⟨hrns, hsem⟩, -⟩, hrows⟩, hcols⟩, hle⟩, -⟩, -⟩, -⟩ := hmatch
  obtain ⟨-, planes, hvalid⟩ := packSparseA4To2_valid hheld.packed
  have hcall : (amdgpuBuiltinsGemmSparseADevice u dev (.rns plan.rnsPrefix) A.hipPackedValues
      A.hipPackedIndices B.hipResidues.cells plan.desc.m plan.desc.n plan.desc.k B.desc.cols
      C.desc.cols sparseOrder).1 = .success := builtinOp_failure_eq_none_iff.1 h
  unfold GemmEnv.withDenseBuiltins GemmEnv.withSparseBuiltins
  refine congrArg (fun op : DeviceOp Int8 => { env with kernel := op })
    (builtinOp_agree hdoc hbuilt ?_ hcall _)
  intro p hp row hrow kk hkk
  obtain ⟨hplanes, -⟩ := sparseContractValid_narrow hvalid (by rw [hsem]; exact hrns)
    (Nat.zero_lt_of_lt hp) (by rw [← hpre]; exact hle)
  have hcell := makeSparseExpandedRnsMatrix_cell hheld.packed haccepted
    (by rw [hpre]; exact hp : p < rnsStoragePrefixForPlan plan) hrow hkk
  -- the device expands the stored groups to the residues that the expanded matrix holds
  have hentry := expandedEntry_of_packed hheld.packed hvalid (.rns plan.rnsPrefix)
    (by rw [hplanes]; exact hp.trans_le (by rw [← hpre]; exact hle) : p < planes)
    (by rw [hrows]; exact hrow) (by rw [hcols]; exact hkk)
  rw [hvalues, hindices]
  rw [hrows, hcols] at hentry
  rw [hentry]
  change ((makeSparseExpandedRnsMatrix A plan).residues.cell
    (residueIndex (makeSparseExpandedRnsMatrix A plan) p row kk)).toInt ≡ _ [ZMOD _]
  rw [hcell]
  exact Int.ModEq.refl _

/-- The operands of a GEMM on device residues passed these checks. -/
theorem validateRnsGemmOperands_resident {D : RnsMatrix}
    (hnative : nativeVectorBackend plan.backend = false)
    (h : validateRnsGemmOperands ctx plan a b c D B C = .success) :
    operandBackendsMatch ctx plan (hipDeviceBackend plan.backend) D B C = true ∧
      operandDescriptorsMatch plan (storageBoundKindForPlan plan) (rnsStoragePrefixForPlan plan)
        D B C = true ∧ rnsStoragesMatch plan D B C = true := by
  unfold validateRnsGemmOperands at h
  split at h
  · cases h
  split at h
  · cases h
  next hbackends =>
  split at h
  · cases h
  next hdescs =>
  rw [hnative, if_neg Bool.false_ne_true] at h
  split at h
  · cases h
  next hstorages => exact ⟨by simpa using hbackends, by simpa using hdescs, by simpa using hstorages⟩

/-- Two outputs that differ in their range proof only. -/
theorem builtinsOutput_agree {D : RnsMatrix} {range : ℤ × MatrixRanges} (C : RnsMatrix)
    (cell : ℕ → Int8) (version : UInt64) (hbound : sparseGemmRange plan A b c B = .ok bound)
    (hrange : exactGemmRange plan D B = .ok range)
    (hmagnitude : D.exactMaxMagnitude = A.exactMaxMagnitude) :
    SparseOutput plan (builtinsOutput plan C cell version (bound, {}))
      (builtinsOutput plan C cell version range) := by
  unfold builtinsOutput
  by_cases hexact : exactWideSemantics plan.desc.semantics = true
  · refine ⟨?_, ?_, fun hno => by rw [hexact] at hno; cases hno⟩
    · simp only [commitExactRange, if_pos hexact]
    · simp only [commitExactRange, if_pos hexact, sparseGemmRange_ok hbound hexact,
        exactGemmRange_ok hrange hexact, ← hmagnitude]
      exact exactGemmBound_le plan D B
  · simp only [commitExactRange, if_neg hexact]
    exact ⟨rfl, le_rfl, fun _ => rfl⟩

section Kernels

variable {u : MatrixUnits} (hdoc : u.Documented) {dev : BuiltinDevice}
  (hbuilt : builtFor dev.arch = true) {variant : DenseKernelVariant}
  {sparseOrder denseOrder : WaveOrder plan.rnsPrefix plan.desc.m plan.desc.n}
  (hdev : plan.backend = .amdgpuBuiltins) (hac : a ≠ c) {dense : ℕ → UInt8} {ld : ℕ}
  (hheld : A.HoldsPacked dense ld)
  (ha : s a = some ((makeSparseExpandedRnsMatrix A plan).onBuiltins A.hipDeviceId))
  (hb : s b = some B) (hc : s c = some C)
include hdoc hbuilt hdev hac hheld ha hb hc

/-- **A sparse residue GEMM on the device leaves what the dense one leaves** on the expanded operand,
up to the recorded range. -/
theorem rns8GemmRnsSparseA_device_dense
    (h : (rns8GemmRnsSparseA (env.withSparseBuiltins u dev (.rns plan.rnsPrefix) plan A B C sparseOrder)
      ctx plan workspace A b c s).1 = .success) :
    ∃ sparse dense,
      rns8GemmRnsSparseA (env.withSparseBuiltins u dev (.rns plan.rnsPrefix) plan A B C sparseOrder) ctx
        plan workspace A b c s = (.success, s.set c sparse) ∧
      rns8GemmRns (env.withDenseBuiltins u dev (.rns plan.rnsPrefix) variant plan
        ((makeSparseExpandedRnsMatrix A plan).onBuiltins A.hipDeviceId) B C denseOrder) ctx plan
        workspace a b c s = (.success, s.set c dense) ∧
      SparseOutput plan sparse dense := by
  obtain ⟨B', C', bound, hcall⟩ := rns8GemmRnsSparseA_builtins hdev h
  obtain rfl : B = B' := Option.some.inj (hb.symm.trans hcall.right)
  obtain rfl : C = C' := Option.some.inj (hc.symm.trans hcall.out)
  have hkernel := (hcall.run hdev).1.1 h
  obtain ⟨hm, hk⟩ := limits_of_sparse_kernel (builtinOp_failure_eq_none_iff.1 hkernel)
  have hcurrent : A.deviceCurrent = true := by
    have hops := hcall.operands
    simp only [sparseDeviceOperandsMatch, Bool.and_eq_true] at hops
    tauto
  obtain ⟨range, hrange⟩ := exactGemmRange_of_sparse (A := A) (b := b) (c := c) (B := B)
    (D := (makeSparseExpandedRnsMatrix A plan).onBuiltins A.hipDeviceId) hcall.range rfl rfl
  refine ⟨_, _, (hcall.run hdev).2 hkernel, ?_, builtinsOutput_agree C _ _ hcall.range hrange rfl⟩
  rw [withBuiltins_rns_eq hdoc hbuilt env hheld hcurrent hcall.accepted hcall.prefix_eq.1 B C hkernel]
  exact hcall.dense_run hdev hac hheld hm hk ha hrange hkernel

end Kernels

/-- What an accepted operand of a dense device GEMM says about the sparse call. -/
theorem BuiltinsSparseCall.of_dense (hdev : plan.backend = .amdgpuBuiltins) {D : RnsMatrix}
    (ha : s a = some D) (hD : D.deviceResiduesCurrent = true) (hb : s b = some B) (hc : s c = some C)
    (hBcurrent : B.deviceResiduesCurrent = true) (hA : A.backend = .amdgpuBuiltins)
    (hAcurrent : A.deviceCurrent = true) (hplace : A.hipDeviceId = ctx.deviceId)
    (hloaded : A.hipPacked = true) (haccepted : sparseRnsMatchesPlan A plan = true)
    (hrange : sparseGemmRange plan A b c B = .ok bound)
    (h : (rns8GemmRns env ctx plan workspace a b c s).1 = .success) :
    BuiltinsSparseCall ctx plan workspace A b c s B C bound ∧ env.kernel.failure = none := by
  have hws : validatePlanContextWorkspace ctx plan workspace = .success := by
    by_contra hno
    exact (rns8GemmRns_of_workspace env a b c s hno).1 h
  have hcurrent : ∀ {M : RnsMatrix}, M.deviceResiduesCurrent = true →
      rnsResidueStateCurrentForBackend M plan.backend = true := fun hM => by
    rw [hdev]
    exact hM
  have hdirect : (decide (plan.backend = .hipDirect) && planAllZeroOutputTiles plan) = false := by
    simp [hdev]
  -- follow the dense call to its kernel
  unfold rns8GemmRns at h
  rw [if_neg (by simp [ha, hb, hc])] at h
  dsimp only at h
  rw [hws, onSuccess_success, hdirect, if_neg Bool.false_ne_true,
    ensureInputCurrent_of_current _ _ ha (hcurrent hD), onSuccess_success,
    ensureInputCurrent_of_current _ _ hb (hcurrent hBcurrent), onSuccess_success,
    withOperands_some ha hb hc] at h
  unfold gemmRnsOperands at h
  dsimp only at h
  split at h
  · next hops => exact absurd h hops
  next hops =>
  split at h
  · next hno => exact absurd h (exactGemmRange_error hno)
  next range hok =>
  unfold dispatchGemmRns at h
  simp only [hdev] at h
  split at h
  · cases h
  next hflat =>
  simp only [not_or, not_not, Bool.not_eq_true] at hflat
  have hkernel : env.kernel.failure = none := by
    unfold residentGemmRns DeviceOp.runIf DeviceOp.run at h
    cases hfail : env.kernel.failure with
    | none => rfl
    | some failure =>
      rw [hfail] at h
      obtain ⟨status, hne⟩ := failure
      cases status <;> simp at hne h
  -- the dense checks cover those of the sparse call
  obtain ⟨hbackends, hdescs, hstorages⟩ := validateRnsGemmOperands_resident
    (by rw [hdev]; rfl) (not_not.1 hops)
  have hlocal : hipDeviceBackend plan.backend = true := by rw [hdev]; rfl
  simp only [operandBackendsMatch, hlocal, Bool.not_true, Bool.false_or, Bool.and_eq_true,
    decide_eq_true_eq] at hbackends
  simp only [operandDescriptorsMatch, Bool.and_eq_true] at hdescs
  simp only [rnsStoragesMatch, Bool.and_eq_true] at hstorages
  have haccepts := (validatePlanContextWorkspace_success hws).2
  refine ⟨⟨hb, hc, hws, haccepted, hrange, hA, hflat.1, hflat.2, ?_, hstorages.1.2, hstorages.2,
    hcurrent hBcurrent⟩, hkernel⟩
  simp [sparseDeviceOperandsMatch, haccepts, hAcurrent, hplace, hloaded, hbackends.1.1.2,
    hbackends.1.2, hbackends.2.1.2, hbackends.2.2, hdescs.1.2, hdescs.2]

/-- **Where the dense call succeeds so does the sparse one**, if the magnitudes prove the range and
the processor has a sparse kernel. -/
theorem rns8GemmRnsSparseA_device_of_dense {u : MatrixUnits} {dev : BuiltinDevice}
    {variant : DenseKernelVariant}
    {sparseOrder denseOrder : WaveOrder plan.rnsPrefix plan.desc.m plan.desc.n}
    (hdev : plan.backend = .amdgpuBuiltins) {dense : ℕ → UInt8} {ld : ℕ}
    (hheld : A.HoldsPacked dense ld)
    (ha : s a = some ((makeSparseExpandedRnsMatrix A plan).onBuiltins A.hipDeviceId))
    (hb : s b = some B) (hc : s c = some C) (hkind : detectArchKind dev.arch ≠ .rdna3)
    (hBcurrent : B.deviceResiduesCurrent = true) (hA : A.backend = .amdgpuBuiltins)
    (hAcurrent : A.deviceCurrent = true) (hplace : A.hipDeviceId = ctx.deviceId)
    (hloaded : A.hipPacked = true) (haccepted : sparseRnsMatchesPlan A plan = true)
    (hrange : ∃ bound, sparseGemmRange plan A b c B = .ok bound)
    (h : (rns8GemmRns (env.withDenseBuiltins u dev (.rns plan.rnsPrefix) variant plan
      ((makeSparseExpandedRnsMatrix A plan).onBuiltins A.hipDeviceId) B C denseOrder) ctx plan
      workspace a b c s).1 = .success) :
    (rns8GemmRnsSparseA (env.withSparseBuiltins u dev (.rns plan.rnsPrefix) plan A B C sparseOrder)
      ctx plan workspace A b c s).1 = .success := by
  obtain ⟨bound, hrange⟩ := hrange
  obtain ⟨hcall, hkernel⟩ := BuiltinsSparseCall.of_dense hdev ha rfl hb hc hBcurrent hA hAcurrent hplace
    hloaded haccepted hrange h
  obtain ⟨-, planes, hvalid⟩ := packSparseA4To2_valid hheld.packed
  obtain ⟨-, -, -, hK⟩ := sparseContractValid_spec hvalid
  have hcols : A.desc.expandedK = plan.desc.k := by
    simp only [sparseRnsMatchesPlan, Bool.and_eq_true, decide_eq_true_eq] at haccepted
    tauto
  refine (hcall.run hdev).1.2 (builtinOp_failure_eq_none_iff.2
    (amdgpuBuiltinsGemmSparseADevice_of_dense ?_ hkind (builtinOp_failure_eq_none_iff.1 hkernel)))
  omega

end Rns

end Rns8
