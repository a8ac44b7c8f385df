import Rns8.Api.SparseCodec

/-!
# What a sparse matrix holds

A pack of a sparse matrix stages its source before it touches the matrix, so that a source that does
not pack leaves the matrix alone (`rns8PackSparseA4To2Matrix_cases`); from its swaps on the matrix
holds the packed form of the new source (`SparseMatrix.HoldsPacked`), in host memory and, while the
device copy is current, on the device. The operands that the CPU expands from it hold the source
again, residue planes byte for byte and finite residues centered.
-/

namespace Rns8

open CenteredResidue

/-! ### The range of a source -/

/-- The integer of a cell of an exact-wide source of residue planes. -/
def sparseCellValue (desc : SparseMatrixDesc) (dense : ℕ → UInt8) (ld row col : ℕ) : ℤ :=
  let value := reconstructCanonical
    (fun p => (dense (p * desc.rows * ld + row * ld + col)).toInt8) desc.maxPrefix
  if desc.semantics = .exactWideSigned then
    centeredFromCanonical value (modulusProduct desc.maxPrefix) else value

/-- The residues of a cell are those of its integer. -/
theorem sparseCellValue_modEq {desc : SparseMatrixDesc} (hmax : desc.maxPrefix ≤ maxSupportedPrefix)
    (dense : ℕ → UInt8) (ld row col : ℕ) : ∀ p < desc.maxPrefix,
      sparseCellValue desc dense ld row col ≡
        (dense (p * desc.rows * ld + row * ld + col)).toInt8.toInt [ZMOD modulusAt p] := by
  intro p hp
  simp only [maxSupportedPrefix] at hmax
  have hmod := reconstructCanonical_modEq (by omega : desc.maxPrefix ≤ 28) (noneWraps_of_le
    (fun p => (dense (p * desc.rows * ld + row * ld + col)).toInt8) (by omega)) p hp
  have hproduct : (modulusProduct desc.maxPrefix : ℤ) ≡ 0 [ZMOD modulusAt p] :=
    Int.modEq_zero_iff_dvd.2 (modulusAt_dvd_modulusProduct hp)
  unfold sparseCellValue centeredFromCanonical
  dsimp only
  split
  · split
    · simpa using hmod.sub hproduct
    · exact hmod
  · exact hmod

/-- A fold that never decreases ends above every value that one of its steps reaches. -/
private theorem le_foldl {α : Type} {step : ℤ → α → ℤ} (hle : ∀ m a, m ≤ step m a) {l : List α}
    {a : α} (ha : a ∈ l) {v : ℤ} (hv : ∀ m, v ≤ step m a) (start : ℤ) : v ≤ l.foldl step start := by
  have hmono : ∀ (l : List α) (m : ℤ), m ≤ l.foldl step m := fun l => by
    induction l with
    | nil => exact fun m => le_refl m
    | cons b l ih => exact fun m => (hle m b).trans (ih _)
  induction l generalizing start with
  | nil => cases ha
  | cons b l ih =>
    rcases List.mem_cons.1 ha with rfl | ha
    · exact (hv start).trans (hmono l _)
    · exact ih ha _

/-- The recorded maximum bounds every cell. -/
theorem le_sparseMaximum {desc : SparseMatrixDesc} (dense : ℕ → UInt8) (ld : ℕ) {row col : ℕ}
    (hrow : row < desc.rows) (hcol : col < desc.expandedK) :
    |sparseCellValue desc dense ld row col| ≤ sparseMaximum desc dense ld := by
  have hcell : ∀ (m : ℤ) (row col : ℕ), |sparseCellValue desc dense ld row col| ≤
      max m (sparseCellMagnitude desc.semantics desc.maxPrefix fun p =>
        (dense (p * desc.rows * ld + row * ld + col)).toInt8) := fun m row col => le_max_right _ _
  refine le_foldl (fun m r => ?_) (List.mem_range.2 hrow) (fun m => ?_) 0
  · exact LoopFold.foldl_invariant (I := fun x : ℤ => m ≤ x)
      (fun x c _ hx => le_max_of_le_left hx) (le_refl m)
  · refine le_foldl ?_ (List.mem_range.2 hcol) ?_ m
    · exact fun x c => le_max_left _ _
    · exact fun x => hcell x row col

/-! ### Packing -/

/-- An upload changes the device copy only, and leaves it current exactly when it succeeds. -/
theorem uploadSparseDeviceStorage_cases (env : SparsePackEnv) (ctx : Context) (matrix : SparseMatrix)
    (hhost : matrix.hostCurrent = true) :
    ∃ current hip device, (uploadSparseDeviceStorage env ctx matrix).2 =
        { matrix with
          deviceCurrent := current
          hipPackedValues := device.1
          hipPackedIndices := device.2
          hipPacked := hip } ∧
      (current = true → device = (matrix.packedValues, matrix.packedIndices)) ∧
      ((uploadSparseDeviceStorage env ctx matrix).1 = .success ↔ current = true) := by
  unfold uploadSparseDeviceStorage
  rw [hhost, Bool.not_true, if_neg Bool.false_ne_true]
  split
  · exact ⟨false, matrix.hipPacked, (matrix.hipPackedValues, matrix.hipPackedIndices), rfl, nofun,
      by simp⟩
  · split
    · exact ⟨true, true, (matrix.packedValues, matrix.packedIndices), rfl, fun _ => rfl, by simp⟩
    · next failure hfailure =>
      exact ⟨false, env.packedLeft, env.left, rfl, nofun, by simpa using failure.2⟩

theorem packSparseA4To2_error {desc : SparseMatrixDesc} {dense : ℕ → UInt8} {ld : ℕ}
    {status : Status} (h : packSparseA4To2 desc dense ld = .error status) :
    status = .invalidArgument := by
  unfold packSparseA4To2 at h
  split at h
  · exact (Except.error.inj h).symm
  · split at h
    · exact (Except.error.inj h).symm
    · dsimp only at h
      split at h
      · cases h
      · exact (Except.error.inj h).symm

/-- A pack of a sparse matrix reaches its swaps: the backend is the context's, the staging vectors are
there and the source packs. -/
def packReachesSwaps (env : SparsePackEnv) (ctx : Context) (matrix : SparseMatrix) (dense : ℕ → UInt8)
    (ld : ℕ) : Bool :=
  decide (ctx.backend = matrix.backend) && env.staged && (packSparseA4To2 matrix.desc dense ld).isOk

theorem assignSparseCacheKey_success_iff {env : SparsePackEnv} {matrix : SparseMatrix} :
    (assignSparseCacheKey env matrix).1 = .success ↔ env.keyed = true := by
  cases h : env.keyed <;> simp [assignSparseCacheKey, h]

/-- **What a pack of a sparse matrix leaves.** It fails before it touches the matrix, or it has
replaced the packed form with its version and its range; only the upload and the cache key can fail
after that. -/
theorem rns8PackSparseA4To2Matrix_cases (env : SparsePackEnv) (ctx : Context) (matrix : SparseMatrix)
    (dense : ℕ → UInt8) (ld : ℕ) (version : UInt64) :
    (packReachesSwaps env ctx matrix dense ld = false ∧
        (rns8PackSparseA4To2Matrix env ctx matrix dense ld version).1 ≠ .success ∧
        (rns8PackSparseA4To2Matrix env ctx matrix dense ld version).2 = matrix) ∨
      packReachesSwaps env ctx matrix dense ld = true ∧
        ∃ packed, packSparseA4To2 matrix.desc dense ld = .ok packed ∧
        ∃ current hip device, (rns8PackSparseA4To2Matrix env ctx matrix dense ld version).2 =
          { matrix with
            packedValues := packed.1
            packedIndices := packed.2
            exactMaxMagnitude := if exactWideSemantics matrix.desc.semantics then
              sparseMaximum matrix.desc dense ld else 0
            exactRangePrefix := if exactWideSemantics matrix.desc.semantics then
              matrix.desc.maxPrefix else 0
            sourceVersion := version
            hostCurrent := true
            deviceCurrent := current
            hipPackedValues := device.1
            hipPackedIndices := device.2
            hipPacked := hip } ∧
          (current = true → device = packed) ∧
          ((rns8PackSparseA4To2Matrix env ctx matrix dense ld version).1 = .success →
            current = sparseDeviceBackendSupported matrix.backend) ∧
          ((rns8PackSparseA4To2Matrix env ctx matrix dense ld version).1 ≠ .success →
            (sparseDeviceBackendSupported matrix.backend = true ∧ current = false) ∨
              env.keyed = false) := by
  unfold rns8PackSparseA4To2Matrix packReachesSwaps
  split
  -- the three ways to fail before the swaps
  · next hbackend => exact Or.inl ⟨by simp [hbackend], by simp, rfl⟩
  next hbackend =>
  split
  · next hstaged => exact Or.inl ⟨by simp [hstaged], by simp, rfl⟩
  next hstaged =>
  split
  · next status hpack =>
    exact Or.inl ⟨by simp [hpack, Except.isOk, Except.toBool],
      by rw [packSparseA4To2_error hpack]; simp, rfl⟩
  next packed hpack =>
  -- the packed form is swapped in; what is left differs by backend
  refine Or.inr ⟨by simpa [hpack, Except.isOk, Except.toBool, not_not.1 hbackend] using hstaged,
    packed, hpack, ?_⟩
  dsimp only
  split
  · next hdev =>
    obtain ⟨current, hip, device, hupload, hsame, hiff⟩ := uploadSparseDeviceStorage_cases env ctx
      { matrix with
        packedValues := packed.1
        packedIndices := packed.2
        exactMaxMagnitude := if exactWideSemantics matrix.desc.semantics then
          sparseMaximum matrix.desc dense ld else 0
        exactRangePrefix := if exactWideSemantics matrix.desc.semantics then
          matrix.desc.maxPrefix else 0
        sourceVersion := version
        hostCurrent := true
        deviceCurrent := false } rfl
    refine ⟨current, hip, device, ?_⟩
    split
    · next uploaded hrun =>
      -- the upload went through: only the cache key is left
      rw [hrun] at hupload hiff
      obtain rfl := hupload
      have hcurrent : current = true := hiff.1 rfl
      refine ⟨rfl, hsame, fun _ => by rw [hcurrent, hdev], fun hst => Or.inr ?_⟩
      rw [Ne, assignSparseCacheKey_success_iff] at hst
      simpa using hst
    -- the upload failed: its copy is not current
    · next status uploaded hne hrun =>
      rw [hrun] at hupload hiff
      have hst : status ≠ .success := hne
      refine ⟨hupload, hsame, fun h => absurd h hst, fun _ => Or.inl ⟨hdev, ?_⟩⟩
      simpa using mt hiff.2 hst
  -- no device copy: only the cache key is left
  · next hdev =>
    refine ⟨false, matrix.hipPacked, (matrix.hipPackedValues, matrix.hipPackedIndices), rfl, nofun,
      fun _ => by simpa using hdev, fun hst => Or.inr ?_⟩
    rw [Ne, assignSparseCacheKey_success_iff] at hst
    simpa using hst

/-- The matrix holds the packed form of a source, in host memory and, while the device copy is
current, on the device. -/
structure SparseMatrix.HoldsPacked (A : SparseMatrix) (dense : ℕ → UInt8) (ld : ℕ) : Prop where
  packed : packSparseA4To2 A.desc dense ld = .ok (A.packedValues, A.packedIndices)
  host : A.hostCurrent = true
  device : A.deviceCurrent = true →
    A.hipPackedValues = A.packedValues ∧ A.hipPackedIndices = A.packedIndices

/-- A source is packed under a valid descriptor, from rows that are long enough. -/
theorem packSparseA4To2_valid {desc : SparseMatrixDesc} {dense : ℕ → UInt8} {ld : ℕ}
    {packed : (ℕ → UInt8) × (ℕ → UInt8)} (h : packSparseA4To2 desc dense ld = .ok packed) :
    desc.expandedK ≤ ld ∧ ∃ planes, sparseContractValid desc = some planes := by
  unfold packSparseA4To2 at h
  split at h
  · cases h
  · next hld =>
    cases hvalid : sparseContractValid desc with
    | none => rw [hvalid] at h; cases h
    | some planes => exact ⟨not_lt.1 hld, planes, rfl⟩

/-- **A pack that reaches its swaps leaves the packed form of its source.** -/
theorem rns8PackSparseA4To2Matrix_holds {env : SparsePackEnv} {ctx : Context} {matrix : SparseMatrix}
    {dense : ℕ → UInt8} {ld : ℕ} {version : UInt64}
    (h : packReachesSwaps env ctx matrix dense ld = true) :
    (rns8PackSparseA4To2Matrix env ctx matrix dense ld version).2.HoldsPacked dense ld := by
  rcases rns8PackSparseA4To2Matrix_cases env ctx matrix dense ld version with ⟨hno, -⟩ |
    ⟨-, packed, hpacked, current, hip, device, hmatrix, hdevice, -⟩
  · rw [h] at hno
    cases hno
  · rw [hmatrix]
    exact ⟨hpacked, rfl, fun hcurrent => Prod.ext_iff.1 (hdevice hcurrent)⟩

/-- Expanding a packed matrix gives back its source. -/
theorem SparseMatrix.HoldsPacked.expand {A : SparseMatrix} {dense : ℕ → UInt8} {ld planes : ℕ}
    (h : A.HoldsPacked dense ld) (hvalid : sparseContractValid A.desc = some planes) {ld' : ℕ}
    (hld' : A.desc.expandedK ≤ ld') (buffer : ℕ → UInt8) :
    ∃ expanded, rns8ExpandSparseA4To2Matrix A buffer ld' = .ok expanded ∧
      ∀ row < planes * A.desc.rows, ∀ col < A.desc.expandedK,
        expanded (row * ld' + col) = dense (row * ld + col) := by
  rw [rns8ExpandSparseA4To2Matrix, h.host, Bool.not_true, if_neg Bool.false_ne_true]
  exact expandSparse_pack hvalid (packSparseA4To2_valid h.packed).1 hld' h.packed buffer

/-! ### The expanded operand -/

/-- A valid descriptor has a plane. -/
theorem sparsePlanes_pos {desc : SparseMatrixDesc} {planes : ℕ}
    (h : sparseContractValid desc = some planes) : 0 < planes := by
  have hident := (sparseContractValid_spec h).1
  unfold sparseSemanticIdentityValid at hident
  split at hident
  · split at hident
    · cases hident
    · next hbad =>
      simp only [not_or] at hbad
      have hpos := Nat.pos_of_ne_zero hbad.2.1
      split at hident
      · split at hident
        · cases hident
        · exact Option.some.inj hident ▸ hpos
      · split at hident
        · cases hident
        · exact Option.some.inj hident ▸ hpos
  · split at hident
    · split at hident
      · cases hident
      · exact Option.some.inj hident ▸ Nat.one_pos
    · cases hident

/-- A descriptor of residue planes has at most the supported ones. -/
theorem sparseMaxPrefix_le {desc : SparseMatrixDesc} {planes : ℕ}
    (h : sparseContractValid desc = some planes) (hrns : usesRnsStorage desc.semantics = true) :
    desc.maxPrefix ≤ maxSupportedPrefix := by
  have hident := (sparseContractValid_spec h).1
  unfold sparseSemanticIdentityValid at hident
  rw [if_pos hrns] at hident
  split at hident
  · cases hident
  · next hbad => omega

/-- A descriptor of residue planes stays valid with fewer of them. -/
theorem sparseContractValid_narrow {desc : SparseMatrixDesc} {planes r : ℕ}
    (hvalid : sparseContractValid desc = some planes)
    (hrns : usesRnsStorage desc.semantics = true) (hr : 0 < r) (hle : r ≤ desc.maxPrefix) :
    planes = desc.maxPrefix ∧ sparseContractValid { desc with maxPrefix := r } = some r := by
  have hident := (sparseContractValid_spec hvalid).1
  -- the identity checks of the two descriptors differ in the prefix only
  have hplanes : planes = desc.maxPrefix ∧
      sparseSemanticIdentityValid { desc with maxPrefix := r } = some r := by
    unfold sparseSemanticIdentityValid at hident ⊢
    simp only [if_pos hrns] at hident ⊢
    split at hident
    · cases hident
    · next hbad =>
      simp only [not_or] at hbad
      rw [if_neg (by simp only [not_or]; exact ⟨hbad.1, hr.ne', by omega, hbad.2.2.2⟩)]
      split at hident
      · next hexact =>
        rw [if_pos hexact]
        split at hident
        · cases hident
        · next hbound => exact ⟨(Option.some.inj hident).symm, if_neg hbound⟩
      · next hexact =>
        rw [if_neg hexact]
        split at hident
        · cases hident
        · next hbound => exact ⟨(Option.some.inj hident).symm, if_neg hbound⟩
  obtain ⟨rfl, hnarrow⟩ := hplanes
  refine ⟨rfl, ?_⟩
  unfold sparseContractValid at hvalid ⊢
  rw [hident] at hvalid
  rw [hnarrow]
  simp only [SparseMatrixDesc.groupsPerRow] at hvalid ⊢
  split at hvalid
  · cases hvalid
  · next hbad =>
    rw [if_neg hbad]
    refine if_neg fun hsizes => ?_
    -- fewer planes take fewer groups, so no count overflows
    have hmul := Nat.mul_le_mul_left (desc.rows * (desc.expandedK / 4)) hle
    exact Option.some_ne_none _ (hvalid.symm.trans (if_pos (by omega)))

/-- The planes that a residue GEMM uses expand to the source that was packed. -/
theorem expandSparseA4To2_narrow {A : SparseMatrix} {plan : Plan} {dense : ℕ → UInt8} {ld : ℕ}
    (hpacked : packSparseA4To2 A.desc dense ld = .ok (A.packedValues, A.packedIndices))
    (hmatch : sparseRnsMatchesPlan A plan = true) (hpos : 0 < rnsStoragePrefixForPlan plan) :
    ∃ expanded, expandSparseA4To2 { A.desc with maxPrefix := rnsStoragePrefixForPlan plan }
        A.packedValues A.packedIndices = .ok expanded ∧
      ∀ p < rnsStoragePrefixForPlan plan, ∀ row < plan.desc.m, ∀ col < plan.desc.k,
        expanded ((p * plan.desc.m + row) * plan.desc.k + col) =
          dense ((p * plan.desc.m + row) * ld + col) := by
  simp only [sparseRnsMatchesPlan, Bool.and_eq_true, decide_eq_true_eq] at hmatch
  obtain ⟨⟨⟨⟨⟨⟨⟨⟨hrns, hsem⟩, -⟩, hrows⟩, hk⟩, hplanes'⟩, -⟩, -⟩, -⟩ := hmatch
  obtain ⟨hld, planes, hvalid⟩ := packSparseA4To2_valid hpacked
  obtain ⟨rfl, hnarrow⟩ := sparseContractValid_narrow hvalid (by rw [hsem]; exact hrns) hpos hplanes'
  obtain ⟨expanded, hexp, hcells⟩ := expandSparse_pack hvalid hld le_rfl hpacked fun _ => 0
  obtain ⟨hwell, hlanes, -⟩ := expandSparseInto_ok hvalid le_rfl hexp
  -- fewer planes are a shorter run over the same groups
  obtain ⟨narrow, hnarrowExp⟩ : ∃ narrow, expandSparseInto
      { A.desc with maxPrefix := rnsStoragePrefixForPlan plan } A.packedValues A.packedIndices
        A.desc.expandedK (fun _ => 0) = .ok narrow := by
    have hok := (expandSparseInto_isOk_iff hnarrow (le_refl A.desc.expandedK) A.packedValues
      A.packedIndices fun _ => 0).2 fun g hg => hwell g (lt_of_lt_of_le hg (by
        simp only [SparseMatrixDesc.groups, SparseMatrixDesc.groupsPerRow]
        exact Nat.mul_le_mul_right _ (Nat.mul_le_mul_right _ hplanes')))
    revert hok
    cases expandSparseInto { A.desc with maxPrefix := rnsStoragePrefixForPlan plan } A.packedValues
      A.packedIndices A.desc.expandedK (fun _ => 0) with
    | error status => exact fun h => by cases h
    | ok narrow => exact fun _ => ⟨narrow, rfl⟩
  obtain ⟨-, hnarrowLanes, -⟩ := expandSparseInto_ok hnarrow le_rfl hnarrowExp
  refine ⟨narrow, by rw [expandSparseA4To2_eq]; exact hnarrowExp, fun p hp row hrow col hcol => ?_⟩
  rw [← hrows] at hrow ⊢
  rw [← hk] at hcol ⊢
  have hin : p * A.desc.rows + row < rnsStoragePrefixForPlan plan * A.desc.rows :=
    RowMajor.offset_lt hrow hp
  have hin' := lt_of_lt_of_le hin (Nat.mul_le_mul_right A.desc.rows hplanes')
  rw [hnarrowLanes _ hin _ hcol, ← hcells _ hin' _ hcol, hlanes _ hin' _ hcol]
  rfl

/-- **The expanded operand of a residue GEMM holds the source that was packed.** -/
theorem makeSparseExpandedRnsMatrix_cell {A : SparseMatrix} {plan : Plan} {dense : ℕ → UInt8}
    {ld : ℕ} (hpacked : packSparseA4To2 A.desc dense ld = .ok (A.packedValues, A.packedIndices))
    (hmatch : sparseRnsMatchesPlan A plan = true)
    {p row col : ℕ} (hp : p < rnsStoragePrefixForPlan plan) (hrow : row < plan.desc.m)
    (hcol : col < plan.desc.k) :
    (makeSparseExpandedRnsMatrix A plan).residues.cell
        (residueIndex (makeSparseExpandedRnsMatrix A plan) p row col) =
      (dense ((p * plan.desc.m + row) * ld + col)).toInt8 := by
  obtain ⟨expanded, hexpand, hcells⟩ :=
    expandSparseA4To2_narrow hpacked hmatch (Nat.zero_lt_of_lt hp)
  have hindex : residueIndex (makeSparseExpandedRnsMatrix A plan) p row col =
      (p * plan.desc.m + row) * plan.desc.k + col := rfl
  rw [hindex]
  unfold makeSparseExpandedRnsMatrix
  simp only [hexpand]
  rw [hcells p hp row hrow col hcol]

/-- The storage of the expanded operand of a residue GEMM. -/
theorem makeSparseExpandedRnsMatrix_size {A : SparseMatrix} {plan : Plan} {dense : ℕ → UInt8}
    {ld : ℕ} (hpacked : packSparseA4To2 A.desc dense ld = .ok (A.packedValues, A.packedIndices))
    (hmatch : sparseRnsMatchesPlan A plan = true) (hpos : 0 < rnsStoragePrefixForPlan plan) :
    (makeSparseExpandedRnsMatrix A plan).residues.size =
      A.desc.maxPrefix * plan.desc.m * plan.desc.k := by
  obtain ⟨expanded, hexpand, -⟩ := expandSparseA4To2_narrow hpacked hmatch hpos
  unfold makeSparseExpandedRnsMatrix
  simp only [hexpand]

/-- A packed finite source expands. -/
theorem expandSparseA4To2_finite {A : SparseMatrix} {plan : Plan} {dense : ℕ → UInt8} {ld modulus : ℕ}
    (hpacked : packSparseA4To2 A.desc dense ld = .ok (A.packedValues, A.packedIndices))
    (hmatch : sparseFiniteMatchesPlan A plan modulus = true) :
    ∃ expanded, expandSparseA4To2 A.desc A.packedValues A.packedIndices = .ok expanded ∧
      ∀ row < plan.desc.m, ∀ col < plan.desc.k,
        expanded (row * plan.desc.k + col) = dense (row * ld + col) := by
  simp only [sparseFiniteMatchesPlan, Bool.and_eq_true, decide_eq_true_eq] at hmatch
  obtain ⟨⟨⟨⟨-, hrows⟩, hk⟩, -⟩, -⟩ := hmatch.1
  obtain ⟨hld, planes, hvalid⟩ := packSparseA4To2_valid hpacked
  obtain ⟨expanded, hexp, hcells⟩ := expandSparse_pack hvalid hld le_rfl hpacked fun _ => 0
  refine ⟨expanded, by rw [expandSparseA4To2_eq]; exact hexp, fun row hrow col hcol => ?_⟩
  rw [← hk] at hcol ⊢
  rw [← hrows] at hrow
  exact hcells row (hrow.trans_le (Nat.le_mul_of_pos_left _ (sparsePlanes_pos hvalid))) col hcol

/-- **The expanded operand of a finite GEMM holds the residues of the source that was packed.** -/
theorem makeSparseExpandedFiniteMatrix_cell {A : SparseMatrix} {plan : Plan} {dense : ℕ → UInt8}
    {ld modulus : ℕ}
    (hpacked : packSparseA4To2 A.desc dense ld = .ok (A.packedValues, A.packedIndices))
    (hmatch : sparseFiniteMatchesPlan A plan modulus = true) {row col : ℕ} (hrow : row < plan.desc.m)
    (hcol : col < plan.desc.k) :
    (makeSparseExpandedFiniteMatrix A plan modulus).residues.cell
        (residueIndex (makeSparseExpandedFiniteMatrix A plan modulus) 0 row col) =
      centeredResidue (dense (row * ld + col)).toNat modulus := by
  obtain ⟨expanded, hexpand, hcells⟩ := expandSparseA4To2_finite hpacked hmatch
  have hread := packPlanes_read (fun _ => modulus) (sourceU8 expanded plan.desc.k) (fun _ => 0)
    Nat.one_pos hrow hcol
  have hindex : residueIndex (makeSparseExpandedFiniteMatrix A plan modulus) 0 row col =
      (0 * plan.desc.m + row) * plan.desc.k + col := rfl
  rw [hindex]
  unfold makeSparseExpandedFiniteMatrix
  simp only [hexpand]
  rw [hread, sourceU8, hcells row hrow col hcol]

/-- The storage of the expanded operand of a finite GEMM. -/
theorem makeSparseExpandedFiniteMatrix_size {A : SparseMatrix} {plan : Plan} {dense : ℕ → UInt8}
    {ld modulus : ℕ}
    (hpacked : packSparseA4To2 A.desc dense ld = .ok (A.packedValues, A.packedIndices))
    (hmatch : sparseFiniteMatchesPlan A plan modulus = true) :
    (makeSparseExpandedFiniteMatrix A plan modulus).residues.size = plan.desc.m * plan.desc.k := by
  obtain ⟨expanded, hexpand, -⟩ := expandSparseA4To2_finite hpacked hmatch
  unfold makeSparseExpandedFiniteMatrix
  simp only [hexpand]

end Rns8
