import Rns8.Api.CpuCalls
import Rns8.Api.Pack
import Rns8.Api.Export

/-!
# What creating, packing and exporting a residue matrix on the CPU can do

The counterparts of the GEMM lemmas for the calls on one matrix: a creation that succeeds returns a
zero matrix (`rns8CreateMatrix_cpu`), a pack rejects or stores every plane of its source
(`packResidueMatrix_cpu`), and an export that is accepted reads the planes of its plan from a
host-current matrix (`validateExportMatrix_cpu`).
-/

namespace Rns8

open CenteredResidue

/-! ### Creation -/

/-- A residue matrix as `rns8_create_matrix` returns it on the CPU: every plane is zero and
current, and the zero matrix is proven when the semantics is exact-wide. -/
structure FreshRnsMatrix (desc : MatrixDesc) (matrix : RnsMatrix) : Prop where
  backend : matrix.backend = .cpuReference
  semantics : matrix.desc.semantics = desc.semantics
  rows : matrix.desc.rows = desc.rows
  cols : matrix.desc.cols = desc.cols
  prefix_pos : 0 < matrix.rnsPrefix
  prefix_le : matrix.rnsPrefix ≤ maxSupportedPrefix
  cells : ∀ o, matrix.residues.cell o = 0
  size : matrix.residues.size = desc.rows * desc.cols * matrix.rnsPrefix
  host : matrix.hostResiduesCurrent = true
  device : matrix.deviceResiduesCurrent = false
  magnitude : matrix.exactMaxMagnitude = 0
  ranges : matrix.exactAxisRanges = {}
  proven : matrix.exactRangePrefix =
    if exactWideSemantics desc.semantics then matrix.rnsPrefix else 0

theorem validateMatrixDesc_rns {desc : MatrixDesc} {r : ℕ} (h : validateMatrixDesc desc r = .success)
    (hrns : usesRnsStorage desc.semantics = true) :
    (0 < desc.rows ∧ 0 < desc.cols) ∧ 0 < r ∧ r ≤ maxSupportedPrefix := by
  unfold validateMatrixDesc at h
  simp only at h
  split at h
  · cases h
  split at h
  · cases h
  next hdims =>
  split at h
  · cases h
  split at h
  · cases h
  split at h
  · cases h
  split at h
  · cases h
  have hr : ¬ (r = 0 ∨ maxSupportedPrefix < r) := by
    intro hr
    cases hs : desc.semantics <;> simp only [hs, hr, if_true] at h <;>
      simp_all [usesRnsStorage]
  omega

/-- **A new residue matrix on the CPU** holds zero in every plane. -/
theorem rns8CreateMatrix_cpu {env : CreateEnv} {ctx : Context} {desc : MatrixDesc}
    {matrix : RnsMatrix} (hcpu : ctx.backend = .cpuReference)
    (hrns : usesRnsStorage desc.semantics = true)
    (h : rns8CreateMatrix env ctx desc = .ok matrix) : FreshRnsMatrix desc matrix := by
  unfold rns8CreateMatrix at h
  split at h
  · cases h
  simp only at h
  generalize (if desc.maxPrefix = 0 then defaultPrefixForSemantics desc.semantics
    else desc.maxPrefix) = r at h
  split at h
  · cases h
  next hvalid =>
  split at h
  · cases h
  split at h
  · cases h
  rw [if_neg (by simp [hcpu, nativeVectorBackend])] at h
  obtain ⟨-, hr0, hr⟩ := validateMatrixDesc_rns (not_not.1 hvalid) hrns
  -- the host storage of a residue matrix
  have hkind : desc.semantics ≠ .wrapU64Mod2_64 ∧ usesFiniteStorage desc.semantics = false := by
    cases hs : desc.semantics <;> simp_all [usesRnsStorage, usesFiniteStorage]
  cases hstore : withHostStorage ctx (newMatrix env ctx desc r) with
  | error status => rw [hstore] at h; cases h
  | ok M =>
    rw [hstore] at h
    simp only [hcpu, hipResidentRnsBackend, Bool.false_eq_true, if_false, Except.ok.injEq] at h
    subst h
    unfold withHostStorage at hstore
    simp only [newMatrix, hkind.1, hkind.2, if_false, Bool.false_eq_true] at hstore
    split at hstore
    · cases hstore
    · next elements hcount =>
      obtain rfl := Except.ok.inj hstore
      obtain ⟨-, -, -, hsize⟩ := rnsResidueCount_eq_some hcount
      refine ⟨hcpu, rfl, rfl, rfl, hr0, hr, fun _ => rfl, hsize, rfl, rfl, rfl, rfl, ?_⟩
      simp [clearByteLimbCurrent, hcpu]

theorem withHostStorage_error {ctx : Context} {matrix : RnsMatrix} {status : Status}
    (h : withHostStorage ctx matrix = .error status) : status ≠ .success := by
  unfold withHostStorage at h
  simp only at h
  split at h
  · split at h
    · obtain rfl := Except.error.inj h; simp
    · cases h
  · split at h
    · split at h
      · obtain rfl := Except.error.inj h; simp
      · cases h
    · split at h
      · obtain rfl := Except.error.inj h; simp
      · cases h

/-- A creation on the CPU that fails reports a failure. -/
theorem rns8CreateMatrix_cpu_error {env : CreateEnv} {ctx : Context} {desc : MatrixDesc}
    {status : Status} (hcpu : ctx.backend = .cpuReference)
    (h : rns8CreateMatrix env ctx desc = .error status) : status ≠ .success := by
  unfold rns8CreateMatrix at h
  split at h
  · obtain rfl := Except.error.inj h; simp
  simp only at h
  generalize (if desc.maxPrefix = 0 then defaultPrefixForSemantics desc.semantics
    else desc.maxPrefix) = r at h
  split at h
  · next hv => obtain rfl := Except.error.inj h; exact hv
  split at h
  · obtain rfl := Except.error.inj h; simp
  split at h
  · obtain rfl := Except.error.inj h; simp
  rw [if_neg (by simp [hcpu, nativeVectorBackend])] at h
  split at h
  · next hstore => obtain rfl := Except.error.inj h; exact withHostStorage_error hstore
  · rw [if_neg (by simp [hcpu, hipResidentRnsBackend])] at h
    cases h

/-! ### Packing -/

theorem packExactProof_error {ranges : Bool} {ctx : Context} {matrix : RnsMatrix}
    {source : PackSource} {version : UInt64} {status : Status}
    (h : packExactProof ranges ctx matrix source version = .error status) : status ≠ .success := by
  unfold packExactProof at h
  split at h
  · cases h
  · split at h
    · obtain rfl := Except.error.inj h; simp
    · simp only at h
      generalize (if sameSourceDeviceResiduePackCurrent ctx matrix version = true then
        (matrix.exactMaxMagnitude, ({} : MatrixRanges)) else _) = proof at h
      split at h
      · obtain rfl := Except.error.inj h; simp
      · split at h
        · cases h
        · obtain rfl := Except.error.inj h; simp

/-- The matrix after a pack on the CPU: all planes of the source, and the proof of its range. -/
def packedMatrix (matrix : RnsMatrix) (source : PackSource) (version : UInt64)
    (proof : ℤ × MatrixRanges) : RnsMatrix :=
  let packed := clearNativeCurrent (markHostResiduesCurrent (matrix.withPlanes
    (packPlanes matrix.rnsPrefix matrix.desc.rows matrix.desc.cols modulusAt source.value
      matrix.residues.cell)))
  if matrix.desc.semantics = source.exactWide then
    { packed with
      exactMaxMagnitude := proof.1
      exactAxisRanges := proof.2
      exactRangePrefix := matrix.rnsPrefix
      sourceVersion := version }
  else { packed with sourceVersion := version }

/-- **A pack on the CPU** is a rejection or stores the source with its proof. -/
theorem packResidueMatrix_cpu {α : Type} (env : PackEnv α) {ctx : Context} (matrix : RnsMatrix)
    (source : PackSource) (ld bytes : ℕ) (version : UInt64) (hcpu : ctx.backend = .cpuReference) :
    ((packResidueMatrix env ctx matrix source ld bytes version).1 ≠ .success ∧
        (packResidueMatrix env ctx matrix source ld bytes version).2 = matrix) ∨
      ∃ proof, packExactProof env.ranges ctx matrix source version = .ok proof ∧
        packResidueMatrix env ctx matrix source ld bytes version =
          (.success, packedMatrix matrix source version proof) := by
  unfold packResidueMatrix
  cases hproof : packExactProof env.ranges ctx matrix source version with
  | error status => exact Or.inl ⟨packExactProof_error hproof, rfl⟩
  | ok proof =>
    simp only [hcpu, nativeVectorBackend, hipResidentRnsBackend, Bool.false_eq_true, if_false]
    split
    · exact Or.inl ⟨by simp, rfl⟩
    · refine Or.inr ⟨proof, rfl, ?_⟩
      have hnative : ∀ M : RnsMatrix, shouldPopulateNativeOnPack ctx M = false := fun M => by
        unfold shouldPopulateNativeOnPack
        split <;> simp [hcpu, nativeVectorBackend]
      simp only [packFinish, hnative, Bool.false_eq_true, if_false]
      rfl

theorem packedMatrix_desc (matrix : RnsMatrix) (source : PackSource) (version : UInt64)
    (proof : ℤ × MatrixRanges) :
    (packedMatrix matrix source version proof).desc = matrix.desc ∧
      (packedMatrix matrix source version proof).backend = matrix.backend ∧
      (packedMatrix matrix source version proof).rnsPrefix = matrix.rnsPrefix ∧
      (packedMatrix matrix source version proof).residues.size = matrix.residues.size := by
  unfold packedMatrix
  simp only
  split <;> exact ⟨rfl, rfl, rfl, rfl⟩

/-- **A pack encodes its source** in every plane of the matrix. -/
theorem packedMatrix_read (matrix : RnsMatrix) (source : PackSource) (version : UInt64)
    (proof : ℤ × MatrixRanges) {p row col : ℕ} (hp : p < matrix.rnsPrefix)
    (hrow : row < matrix.desc.rows) (hcol : col < matrix.desc.cols) :
    (packedMatrix matrix source version proof).residues.cell (residueIndex matrix p row col) =
      centeredResidue (source.value row col) (modulusAt p) := by
  have hcell : (packedMatrix matrix source version proof).residues.cell =
      packPlanes matrix.rnsPrefix matrix.desc.rows matrix.desc.cols modulusAt source.value
        matrix.residues.cell := by
    unfold packedMatrix
    simp only
    split <;> rfl
  rw [hcell]
  exact packPlanes_read modulusAt source.value matrix.residues.cell hp hrow hcol

/-- **A signed pack on the CPU** is a rejection or a pack of a signed matrix. -/
theorem rns8PackI64_cpu (env : PackEnv Int64) {ctx : Context} (matrix : RnsMatrix) (src : ℕ → Int64)
    (ld : ℕ) (version : UInt64) (hcpu : ctx.backend = .cpuReference) :
    ((rns8PackI64 env ctx matrix src ld version).1 ≠ .success ∧
        (rns8PackI64 env ctx matrix src ld version).2 = matrix) ∨
      (matrix.desc.semantics = .boundedI64 ∨ matrix.desc.semantics = .exactWideSigned) ∧
        ∃ proof, packExactProof env.ranges ctx matrix (packSourceI64 env ctx src ld) version =
            .ok proof ∧
          rns8PackI64 env ctx matrix src ld version =
            (.success, packedMatrix matrix (packSourceI64 env ctx src ld) version proof) := by
  unfold rns8PackI64
  split
  · exact Or.inl ⟨by simp, rfl⟩
  split
  · exact Or.inl ⟨by simp, rfl⟩
  next hsem =>
  split
  · exact Or.inl ⟨by simp, rfl⟩
  rcases packResidueMatrix_cpu env matrix (packSourceI64 env ctx src ld) ld 8 version hcpu with h | h
  · exact Or.inl h
  · exact Or.inr ⟨by tauto, h⟩

/-- **An unsigned pack of a residue matrix on the CPU.** -/
theorem rns8PackU64_cpu (env : PackEnv UInt64) {ctx : Context} (matrix : RnsMatrix)
    (src : ℕ → UInt64) (ld : ℕ) (version : UInt64) (hcpu : ctx.backend = .cpuReference)
    (hrns : usesRnsStorage matrix.desc.semantics = true) :
    ((rns8PackU64 env ctx matrix src ld version).1 ≠ .success ∧
        (rns8PackU64 env ctx matrix src ld version).2 = matrix) ∨
      (matrix.desc.semantics = .boundedU64 ∨ matrix.desc.semantics = .exactWideUnsigned) ∧
        ∃ proof, packExactProof env.ranges ctx matrix (packSourceU64 env ctx src ld) version =
            .ok proof ∧
          rns8PackU64 env ctx matrix src ld version =
            (.success, packedMatrix matrix (packSourceU64 env ctx src ld) version proof) := by
  have hwrap : matrix.desc.semantics ≠ .wrapU64Mod2_64 := fun hw => by
    rw [hw] at hrns; cases hrns
  unfold rns8PackU64
  split
  · exact Or.inl ⟨by simp, rfl⟩
  split
  · exact Or.inl ⟨by simp, rfl⟩
  next hsem =>
  split
  · exact Or.inl ⟨by simp, rfl⟩
  rcases packResidueMatrix_cpu env matrix (packSourceU64 env ctx src ld) ld 8 version hcpu with h | h
  · exact Or.inl h
  · exact Or.inr ⟨by tauto, h⟩

/-! ### Exports -/

/-- What an export accepts on the CPU. -/
structure CpuExport (plan : Plan) (C : RnsMatrix) : Prop where
  contract : planScheduleContractMatches plan = true
  semantics : C.desc.semantics = plan.desc.semantics
  rows : C.desc.rows = plan.desc.m
  cols : C.desc.cols = plan.desc.n
  storage : rnsStoragePrefixForPlan plan ≤ C.rnsPrefix
  current : C.hostResiduesCurrent = true
  proven : exactWideSemantics plan.desc.semantics = true → C.exactRangePrefix ≠ 0 →
    plan.rnsPrefix ≤ C.exactRangePrefix ∧
      exactRangeFits plan.desc.semantics C.exactMaxMagnitude plan.modulusProduct = true

/-- A matrix that an export accepts has the shape of the plan. -/
theorem validateExportMatrix_dims {ctx : Context} {plan : Plan} {C : RnsMatrix}
    {semantics : Semantics} {boundKind : BoundKind} {r : ℕ}
    (h : validateExportMatrix ctx plan C semantics boundKind r = .success) :
    C.desc.rows = plan.desc.m ∧ C.desc.cols = plan.desc.n := by
  unfold validateExportMatrix at h
  simp only at h
  generalize (if usesRnsStorage semantics = true then rnsStoragePrefixForPlan plan else r) = q at h
  generalize (if usesRnsStorage semantics = true then storageBoundKindForPlan plan
    else boundKind) = kind at h
  split at h
  · cases h
  split at h
  · cases h
  split at h
  · cases h
  split at h
  · cases h
  next hd =>
  exact (matrixDescriptorMatches_spec (by simpa using hd)).2.1

/-- What the validation of a finite export checks of the matrix. -/
structure FiniteExport (plan : Plan) (modulus : ℕ) (C : RnsMatrix) : Prop where
  semantics : usesFiniteStorage plan.desc.semantics = true
  valid : validFiniteModulusForSemantics plan.desc.semantics modulus = true
  plan_modulus : plan.desc.finiteModulus = modulus
  rows : C.desc.rows = plan.desc.m
  cols : C.desc.cols = plan.desc.n
  storage : finiteMatrixStorageMatches C plan.backend plan.desc.m plan.desc.n = true
  current : rnsResidueStateCurrentForBackend C plan.backend = true
  modulus_eq : C.finiteModulus = modulus

theorem validateFiniteExportMatrix_spec {ctx : Context} {plan : Plan} {modulus : ℕ} {C : RnsMatrix}
    (h : validateFiniteExportMatrix ctx plan modulus C = .success) : FiniteExport plan modulus C := by
  unfold validateFiniteExportMatrix at h
  split at h
  · cases h
  next h1 =>
  split at h
  · cases h
  split at h
  · cases h
  split at h
  · cases h
  next hd =>
  split at h
  · cases h
  next hstorage =>
  obtain ⟨-, ⟨hrows, hcols⟩, -, -⟩ := matrixDescriptorMatches_spec (by simpa using hd)
  simp only [Bool.or_eq_true, Bool.not_eq_true', decide_eq_true_eq, not_or, Bool.not_eq_false,
    not_not] at h1 hstorage
  exact ⟨h1.1.1.2, h1.1.2, h1.2, hrows, hcols, hstorage.1.1, hstorage.1.2, hstorage.2⟩

theorem validateExportMatrix_cpu {ctx : Context} {plan : Plan} {C : RnsMatrix}
    {semantics : Semantics} {boundKind : BoundKind} (hcpu : plan.backend = .cpuReference)
    (hrns : usesRnsStorage semantics = true)
    (h : validateExportMatrix ctx plan C semantics boundKind plan.rnsPrefix = .success) :
    plan.desc.semantics = semantics ∧ CpuExport plan C := by
  -- what each check leaves when it is passed on the CPU
  unfold validateExportMatrix at h
  simp only [hrns, if_true, true_and] at h
  split at h
  · cases h
  next h1 =>
  split at h
  · cases h
  next h2 =>
  split at h
  · cases h
  split at h
  · cases h
  next h4 =>
  rw [hcpu, if_neg (by decide)] at h
  split at h
  · cases h
  next h5 =>
  split at h
  · cases h
  next h6 =>
  simp only [Bool.or_eq_true, not_or, Bool.not_eq_true', Bool.not_eq_false, decide_eq_true_eq, ne_eq,
    not_not] at h1 h2 h4 h5
  obtain ⟨⟨hsem, -⟩, ⟨hrows, hcols⟩, hle, -⟩ := matrixDescriptorMatches_spec h4
  simp only [rnsResidueStateCurrentForBackend, hipResidentRnsBackend, Bool.false_eq_true, if_false,
    Bool.and_eq_true] at h5
  refine ⟨h2.2, h1, hsem.trans h2.2.symm, hrows, hcols, hle, h5.2.1, fun hexact hne => ?_⟩
  rw [h2.2] at hexact ⊢
  simp only [hexact, true_and, not_and_or, not_or, not_lt, Bool.not_eq_false] at h6
  exact h6.resolve_left (fun h0 => h0 hne)

/-! ### Products of order one -/

/-- A bounded product of order one. -/
def scalarDesc (bound : ℕ) : GemmDesc where
  semantics := .boundedI64
  boundKind := .globalMaxAbs
  requestedBackend := .cpuReference
  m := 1
  n := 1
  k := 1
  bound := bound

/-- The descriptor of a bounded matrix of order one with the default planes. -/
def scalarMatrixDesc : MatrixDesc := makeMatrixDesc 1 1 .boundedI64 .globalMaxAbs 0 0 0

end Rns8
