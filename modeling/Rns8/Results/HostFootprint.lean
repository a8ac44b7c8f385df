import Rns8.Api.HostCalls

/-!
# The host memory footprint of the device paths

The packs of the direct HIP backend and its native one-shot paths copy the whole pitch of a source, so
that they also read the gap after its last row; the size of a residue pack's copy is bounded by no
check of its own. Everything else is exact: a call touches logical cells only, computes no byte count
that wraps and writes only when it succeeds exactly when the copies it reaches have sources without
gaps and a size that fits, and no direct copy to the caller fails half-way
(`HipCall.safe_iff_contained`).
-/

namespace Rns8

open StridedBuffer

/-! ### Uploads -/

/-- The upload of a pack is contained: once its size is computed it fits, and the copy, when it is
reached, has a source without gaps. -/
def UploadContained {α : Type} (env : PackEnv α) (checked : Bool) (source : Strided)
    (capacity : ℕ) : Prop :=
  checked = true → env.setDevice = none →
    source.rows * source.ld * source.elem ≤ sizeMax ∧
      ((stageUpload env checked source.rows source.ld source.elem capacity).1 = .success →
        source.ld = source.cols)

theorem packLayout_proper {matrix : RnsMatrix} {ld elem : ℕ}
    (h : validMatrixAccess matrix.desc.rows matrix.desc.cols ld = true) (helem : 0 < elem) :
    (packLayout matrix ld elem).Proper := by
  simp only [validMatrixAccess, Bool.and_eq_true, decide_eq_true_eq] at h
  exact ⟨h.1.1.1, h.1.1.2, helem, h.1.2⟩

section Uploads

variable {α : Type} {env : PackEnv α} {checked : Bool} {source : Strided} {capacity : ℕ}

theorem uploadAccesses_safe_iff (h : source.Proper) {status : Status} :
    AllSafe status (uploadAccesses env checked source capacity) ↔
      UploadContained env checked source capacity := by
  unfold uploadAccesses UploadContained
  by_cases hskip : checked = false ∨ env.setDevice ≠ none
  · rw [if_pos hskip]
    refine iff_of_true allSafe_nil fun hc hd => ?_
    rcases hskip with h0 | h0
    · rw [h0] at hc
      cases hc
    · exact absurd hd h0
  · rw [if_neg hskip]
    push Not at hskip
    obtain ⟨hc, hd⟩ := hskip
    rw [ne_eq, Bool.not_eq_false] at hc
    have hcount : (HostAccess.count (sizeMul (sizeMul source.rows source.ld) source.elem)
        (source.rows * source.ld * source.elem)).Safe status ↔
          source.rows * source.ld * source.elem ≤ sizeMax := sizeMul_sizeMul_eq_iff
    simp only [allSafe_cons, hcount, hc, hd, true_imp_iff]
    refine and_congr_right fun hle => ?_
    split
    · next hs =>
      simp only [allSafe_cons, allSafe_nil, and_true]
      rw [wholeRead_safe_iff _ h (sizeMul_sizeMul_eq_iff.mpr hle)]
      exact ⟨fun h _ => h, fun h => h hs⟩
    · next hs => exact iff_of_true allSafe_nil fun h => absurd h hs

theorem uploadAccesses_noWrites : NoWrites (uploadAccesses env checked source capacity) := by
  unfold uploadAccesses
  dsimp only
  split_ifs <;> simp [HostAccess.isWrite, wholeRead]

end Uploads

/-- The size of the native storage is exact. -/
theorem nativeMatrixBytes_le {rows cols bytes : ℕ} (h : nativeMatrixBytes rows cols = some bytes) :
    rows * cols * 8 ≤ sizeMax := by
  unfold nativeMatrixBytes at h
  cases hc : matrixCellCount rows cols with
  | none =>
    rw [hc] at h
    cases h
  | some cells =>
    rw [hc] at h
    obtain ⟨-, -, rfl⟩ := matrixCellCount_eq_some hc
    simp only at h
    split at h
    · cases h
    · next hle => exact (Nat.le_div_iff_mul_le (by decide)).mp (not_lt.mp hle)

theorem ensureHipNativeStorage_fits {alloc zero : Option Failure} {ctx : Context} {matrix : RnsMatrix}
    (h : (ensureHipNativeStorage alloc zero ctx matrix).1 = .success) :
    matrix.desc.rows * matrix.desc.cols * 8 ≤ sizeMax := by
  unfold ensureHipNativeStorage at h
  split at h
  · cases h
  · split at h
    · cases h
    · dsimp only at h
      cases hn : nativeMatrixBytes matrix.desc.rows matrix.desc.cols with
      | none =>
        rw [hn] at h
        cases h
      | some bytes => exact nativeMatrixBytes_le hn

theorem nativeUploadAccesses_safe {α : Type} {env : NativeEnv α} {ctx : Context} {matrix : RnsMatrix}
    {ld elem : ℕ} (hp : (packLayout matrix ld elem).Proper) (status : Status) :
    AllSafe status (nativeUploadAccesses env ctx matrix (packLayout matrix ld elem)) := by
  unfold nativeUploadAccesses
  split
  · next hs =>
    rw [allSafe_cons]
    exact ⟨sizeMul_sizeMul_eq_iff.mpr (ensureHipNativeStorage_fits hs), rowReads_safe hp status⟩
  · exact allSafe_nil

theorem nativeUploadAccesses_noWrites {α : Type} {env : NativeEnv α} {ctx : Context}
    {matrix : RnsMatrix} {source : Strided} :
    NoWrites (nativeUploadAccesses env ctx matrix source) := by
  unfold nativeUploadAccesses
  split <;> simp [HostAccess.isWrite]

/-! ### Packs -/

/-- A residue pack that passed its range proof gets to its upload. -/
def packResidueStages (ctx : Context) (matrix : RnsMatrix) (sourceVersion : UInt64) : Bool :=
  !nativeVectorBackend ctx.backend &&
    rnsMatrixStorageMatches matrix ctx.backend matrix.desc.rows matrix.desc.cols matrix.rnsPrefix &&
    hipResidentRnsBackend ctx.backend && decide (matrix.hipDeviceId = ctx.deviceId) &&
    !sameSourceDeviceResiduePackCurrent ctx matrix sourceVersion

/-- `packResidueMatrix` is contained: where it gets to its upload, the upload is. -/
def PackResidueContained {α : Type} (env : PackEnv α) (ctx : Context) (matrix : RnsMatrix)
    (source : PackSource) (ld elem : ℕ) (sourceVersion : UInt64) : Prop :=
  ∀ proof, packExactProof env.ranges ctx matrix source sourceVersion = .ok proof →
    packResidueStages ctx matrix sourceVersion = true →
      UploadContained env (packDeviceChecked matrix.desc.rows matrix.desc.cols ld matrix.rnsPrefix)
        (packLayout matrix ld elem) matrix.hipUploadBytes

section Residue

variable {α : Type} {env : PackEnv α} {ctx : Context} {matrix : RnsMatrix} {ld elem : ℕ}
  {sourceVersion : UInt64}

theorem packResidueCopies_safe_iff {bounded : Semantics} (hp : (packLayout matrix ld elem).Proper)
    {status : Status} :
    AllSafe status (packResidueCopies env ctx matrix bounded ld elem sourceVersion) ↔
      (packResidueStages ctx matrix sourceVersion = true →
        UploadContained env (packDeviceChecked matrix.desc.rows matrix.desc.cols ld matrix.rnsPrefix)
          (packLayout matrix ld elem) matrix.hipUploadBytes) := by
  have hnative : AllSafe status (if matrix.desc.semantics = bounded then
      nativeUploadAccesses env.native ctx matrix (packLayout matrix ld elem) else []) := by
    split
    · exact nativeUploadAccesses_safe hp status
    · exact allSafe_nil
  unfold packResidueCopies packResidueStages
  dsimp only
  cases hv : nativeVectorBackend ctx.backend with
  | true => exact iff_of_true hnative (by simp)
  | false =>
    simp only [Bool.false_eq_true, if_false, Bool.not_false, Bool.true_and, Bool.and_eq_true,
      decide_eq_true_eq, Bool.not_eq_true']
    cases hm : rnsMatrixStorageMatches matrix ctx.backend matrix.desc.rows matrix.desc.cols
        matrix.rnsPrefix with
    | false => simp
    | true =>
      cases hr : hipResidentRnsBackend ctx.backend with
      | false => simpa using rowReads_safe hp status
      | true =>
        simp only [Bool.true_eq_false, if_false, if_true, true_and]
        by_cases hgo : matrix.hipDeviceId ≠ ctx.deviceId ∨
            sameSourceDeviceResiduePackCurrent ctx matrix sourceVersion = true
        · rw [if_pos hgo]
          refine iff_of_true allSafe_nil fun h => ?_
          rcases hgo with h0 | h0
          · exact absurd h.1 h0
          · rw [h.2] at h0
            cases h0
        · rw [if_neg hgo, allSafe_append, uploadAccesses_safe_iff hp]
          push Not at hgo
          have hrest : AllSafe status (if (stageUpload env (packDeviceChecked matrix.desc.rows
              matrix.desc.cols ld matrix.rnsPrefix) (packLayout matrix ld elem).rows
              (packLayout matrix ld elem).ld (packLayout matrix ld elem).elem
              matrix.hipUploadBytes).1 = .success ∧ env.pack.failure = none ∧
              shouldPopulateNativeOnPack ctx matrix = true then
              if matrix.desc.semantics = bounded then
                nativeUploadAccesses env.native ctx matrix (packLayout matrix ld elem) else []
              else []) := by
            split
            · exact hnative
            · exact allSafe_nil
          refine ⟨fun h _ => h.1, fun h => ⟨h ⟨hgo.1, Bool.eq_false_iff.mpr hgo.2⟩, hrest⟩⟩

theorem packResidueAccesses_safe_iff {source : PackSource} (hp : (packLayout matrix ld elem).Proper)
    {status : Status} :
    AllSafe status (packResidueAccesses env ctx matrix source ld elem sourceVersion) ↔
      PackResidueContained env ctx matrix source ld elem sourceVersion := by
  unfold packResidueAccesses PackResidueContained
  have hranges : AllSafe status (exactRangeReads ctx matrix source.exactWide sourceVersion
      (packLayout matrix ld elem)) := by
    unfold exactRangeReads
    split
    · exact allSafe_nil
    · exact rowReads_safe hp status
  rw [allSafe_append]
  cases hx : packExactProof env.ranges ctx matrix source sourceVersion with
  | error s => exact iff_of_true ⟨hranges, allSafe_nil⟩ (by simp)
  | ok proof =>
    dsimp only
    rw [packResidueCopies_safe_iff hp]
    exact ⟨fun h _ _ => h.2, fun h => ⟨hranges, h proof rfl⟩⟩

theorem packResidueAccesses_noWrites {source : PackSource} :
    NoWrites (packResidueAccesses env ctx matrix source ld elem sourceVersion) := by
  have hranges : NoWrites (exactRangeReads ctx matrix source.exactWide sourceVersion
      (packLayout matrix ld elem)) := by
    unfold exactRangeReads
    split <;> simp
  unfold packResidueAccesses packResidueCopies
  refine noWrites_append.mpr ⟨hranges, ?_⟩
  cases packExactProof env.ranges ctx matrix source sourceVersion with
  | error s => exact noWrites_nil
  | ok proof =>
    dsimp only
    split_ifs <;> simp [nativeUploadAccesses_noWrites, uploadAccesses_noWrites]

end Residue

/-- `rns8_pack_i64` is contained. -/
def PackI64Contained (env : PackEnv Int64) (ctx : Context) (matrix : RnsMatrix) (src : ℕ → Int64)
    (ld : ℕ) (sourceVersion : UInt64) : Prop :=
  validMatrixAccess matrix.desc.rows matrix.desc.cols ld = true →
    (matrix.desc.semantics = .boundedI64 ∨ matrix.desc.semantics = .exactWideSigned) →
    ctx.backend = matrix.backend →
      PackResidueContained env ctx matrix (packSourceI64 env ctx src ld) ld 8 sourceVersion

/-- A wrap pack gets to its upload. -/
def packWrapStages (ctx : Context) (matrix : RnsMatrix) (sourceVersion : UInt64) : Bool :=
  wrapMatrixStorageMatches matrix ctx.backend matrix.desc.rows matrix.desc.cols &&
    decide (ctx.backend = .hipDirect) && decide (matrix.hipDeviceId = ctx.deviceId) &&
    !sameSourceDeviceByteLimbPackCurrent ctx matrix sourceVersion

/-- `rns8_pack_u64` is contained. -/
def PackU64Contained (env : PackEnv UInt64) (ctx : Context) (matrix : RnsMatrix) (src : ℕ → UInt64)
    (ld : ℕ) (sourceVersion : UInt64) : Prop :=
  validMatrixAccess matrix.desc.rows matrix.desc.cols ld = true → ctx.backend = matrix.backend →
    (matrix.desc.semantics = .wrapU64Mod2_64 → packWrapStages ctx matrix sourceVersion = true →
      UploadContained env (packWrapDeviceChecked matrix.desc.rows matrix.desc.cols ld)
        (packLayout matrix ld 8) matrix.hipUploadBytes) ∧
    (matrix.desc.semantics = .boundedU64 ∨ matrix.desc.semantics = .exactWideUnsigned →
      PackResidueContained env ctx matrix (packSourceU64 env ctx src ld) ld 8 sourceVersion)

/-- A finite pack gets to its upload. -/
def packFiniteStages (ctx : Context) (matrix : RnsMatrix) (modulus : ℕ) (sourceVersion : UInt64) :
    Bool :=
  validFiniteModulusForSemantics matrix.desc.semantics modulus &&
    decide (ctx.backend = matrix.backend) && usesFiniteStorage matrix.desc.semantics &&
    finiteMatrixStorageMatches matrix ctx.backend matrix.desc.rows matrix.desc.cols &&
    hipResidentRnsBackend ctx.backend && decide (matrix.hipDeviceId = ctx.deviceId) &&
    !sameSourceFiniteDeviceResiduePackCurrent ctx matrix modulus sourceVersion

/-- `rns8_pack_finite_u8` is contained. -/
def PackFiniteU8Contained (env : PackEnv UInt8) (ctx : Context) (matrix : RnsMatrix) (modulus ld : ℕ)
    (sourceVersion : UInt64) : Prop :=
  validMatrixAccess matrix.desc.rows matrix.desc.cols ld = true →
    packFiniteStages ctx matrix modulus sourceVersion = true →
      UploadContained env (packFiniteDeviceChecked matrix.desc.rows matrix.desc.cols ld modulus)
        (packLayout matrix ld 1) matrix.hipUploadBytes

theorem packI64Call_safe_iff {env : PackEnv Int64} {ctx : Context} {matrix : RnsMatrix}
    {src : ℕ → Int64} {ld : ℕ} {sourceVersion : UInt64} :
    (packI64Call env ctx matrix src ld sourceVersion).Safe ↔
      PackI64Contained env ctx matrix src ld sourceVersion := by
  unfold packI64Call PackI64Contained HostCall.Safe
  dsimp only
  split
  · next hrej =>
    refine iff_of_true allSafe_nil fun hv hs hb => ?_
    rcases hrej with h | h | h
    · rw [h] at hv
      cases hv
    · exact absurd hs (by tauto)
    · exact absurd hb h
  · next hgo =>
    push Not at hgo
    have hv := (Bool.not_eq_false _).mp hgo.1
    rw [packResidueAccesses_safe_iff (packLayout_proper hv (by decide))]
    exact ⟨fun h _ _ _ => h, fun h => h hv (by tauto) hgo.2.2⟩

theorem packWrapAccesses_safe_iff {env : PackEnv UInt64} {ctx : Context} {matrix : RnsMatrix}
    {ld : ℕ} {sourceVersion : UInt64} (hp : (packLayout matrix ld 8).Proper) {status : Status} :
    AllSafe status (packWrapAccesses env ctx matrix ld sourceVersion) ↔
      (packWrapStages ctx matrix sourceVersion = true →
        UploadContained env (packWrapDeviceChecked matrix.desc.rows matrix.desc.cols ld)
          (packLayout matrix ld 8) matrix.hipUploadBytes) := by
  unfold packWrapAccesses packWrapStages
  dsimp only
  simp only [Bool.and_eq_true, decide_eq_true_eq, Bool.not_eq_true', and_assoc]
  split
  · next hm => exact iff_of_true allSafe_nil fun h => by rw [hm] at h; cases h.1
  · next hm =>
    have hm := (Bool.not_eq_false _).mp hm
    split
    · next hw => exact iff_of_true (rowReads_safe hp status) fun h => by rw [hw] at h; cases h.2.1
    · split
      · next hrej =>
        refine iff_of_true allSafe_nil fun h => ?_
        rcases hrej with h0 | h0 | h0
        · exact absurd h.2.1 h0
        · exact absurd h.2.2.1 h0
        · rw [h.2.2.2] at h0
          cases h0
      · next hgo =>
        push Not at hgo
        rw [uploadAccesses_safe_iff hp]
        exact ⟨fun h _ => h, fun h => h ⟨hm, hgo.1, hgo.2.1, Bool.eq_false_iff.mpr hgo.2.2⟩⟩

theorem packU64Call_safe_iff {env : PackEnv UInt64} {ctx : Context} {matrix : RnsMatrix}
    {src : ℕ → UInt64} {ld : ℕ} {sourceVersion : UInt64} :
    (packU64Call env ctx matrix src ld sourceVersion).Safe ↔
      PackU64Contained env ctx matrix src ld sourceVersion := by
  unfold packU64Call PackU64Contained HostCall.Safe
  dsimp only
  split
  · next hrej =>
    refine iff_of_true allSafe_nil fun hv hb => ?_
    rcases hrej with h | h | h
    · rw [h] at hv
      cases hv
    · exact ⟨fun hs => absurd hs h.2.2, fun hs => absurd hs (by tauto)⟩
    · exact absurd hb h
  · next hgo =>
    push Not at hgo
    have hv := (Bool.not_eq_false _).mp hgo.1
    have hp := packLayout_proper hv (show 0 < 8 by decide)
    by_cases hw : matrix.desc.semantics = .wrapU64Mod2_64
    · rw [if_pos hw, packWrapAccesses_safe_iff hp]
      refine ⟨fun h _ _ => ⟨fun _ => h, fun hs => ?_⟩, fun h => (h hv hgo.2.2).1 hw⟩
      rw [hw] at hs
      rcases hs with hs | hs <;> cases hs
    · rw [if_neg hw, packResidueAccesses_safe_iff hp]
      exact ⟨fun h _ _ => ⟨fun hs => absurd hs hw, fun _ => h⟩,
        fun h => (h hv hgo.2.2).2 (by tauto)⟩

theorem packFiniteU8Call_safe_iff {env : PackEnv UInt8} {ctx : Context} {matrix : RnsMatrix}
    {modulus : ℕ} {src : ℕ → UInt8} {ld : ℕ} {sourceVersion : UInt64} :
    (packFiniteU8Call env ctx matrix modulus src ld sourceVersion).Safe ↔
      PackFiniteU8Contained env ctx matrix modulus ld sourceVersion := by
  unfold packFiniteU8Call PackFiniteU8Contained packFiniteStages HostCall.Safe
  dsimp only
  simp only [Bool.and_eq_true, decide_eq_true_eq, Bool.not_eq_true', and_assoc]
  split
  · next hrej =>
    refine iff_of_true allSafe_nil fun hv h => ?_
    rcases hrej with h0 | h0 | h0 | h0 | h0
    · rw [h0] at hv
      cases hv
    · rw [h0] at h
      cases h.1
    · exact absurd h.2.1 h0
    · rw [h0] at h
      cases h.2.2.1
    · rw [h0] at h
      cases h.2.2.2.1
  · next hgo =>
    push Not at hgo
    have hv := (Bool.not_eq_false _).mp hgo.1
    have hp := packLayout_proper hv (show 0 < 1 by decide)
    cases hr : hipResidentRnsBackend ctx.backend with
    | true =>
      rw [if_pos rfl]
      split
      · next hrej =>
        refine iff_of_true allSafe_nil fun _ h => ?_
        rcases hrej with h0 | h0
        · exact absurd h.2.2.2.2.2.1 h0
        · rw [h.2.2.2.2.2.2] at h0
          cases h0
      · next hend =>
        push Not at hend
        rw [uploadAccesses_safe_iff hp]
        refine ⟨fun h _ _ => h, fun h => h hv ⟨?_, hgo.2.2.1, ?_, ?_, rfl, hend.1, ?_⟩⟩
        · exact (Bool.not_eq_false _).mp hgo.2.1
        · exact (Bool.not_eq_false _).mp hgo.2.2.2.1
        · exact (Bool.not_eq_false _).mp hgo.2.2.2.2
        · exact Bool.eq_false_iff.mpr hend.2
    | false =>
      rw [if_neg (by simp)]
      refine iff_of_true ?_ fun _ h => by cases h.2.2.2.2.1
      split
      · exact rowReads_safe hp _
      · exact allSafe_nil

theorem packI64Call_noWrites {env : PackEnv Int64} {ctx : Context} {matrix : RnsMatrix}
    {src : ℕ → Int64} {ld : ℕ} {sourceVersion : UInt64} :
    NoWrites (packI64Call env ctx matrix src ld sourceVersion).accesses := by
  unfold packI64Call
  dsimp only
  split
  · exact noWrites_nil
  · exact packResidueAccesses_noWrites

theorem packU64Call_noWrites {env : PackEnv UInt64} {ctx : Context} {matrix : RnsMatrix}
    {src : ℕ → UInt64} {ld : ℕ} {sourceVersion : UInt64} :
    NoWrites (packU64Call env ctx matrix src ld sourceVersion).accesses := by
  unfold packU64Call packWrapAccesses
  dsimp only
  split_ifs <;> simp [packResidueAccesses_noWrites, uploadAccesses_noWrites]

theorem packFiniteU8Call_noWrites {env : PackEnv UInt8} {ctx : Context} {matrix : RnsMatrix}
    {modulus : ℕ} {src : ℕ → UInt8} {ld : ℕ} {sourceVersion : UInt64} :
    NoWrites (packFiniteU8Call env ctx matrix modulus src ld sourceVersion).accesses := by
  unfold packFiniteU8Call
  dsimp only
  split_ifs <;> simp [uploadAccesses_noWrites]

/-! ### Exports -/

/-- A device export is contained: its direct copy, when it is reached, does not fail after it began to
write. -/
def DeviceExportContained (env : HipExportEnv) (needsStatus : Bool) (hostStatus : Status)
    (target : Strided) (outputBytes exportBytes statusBytes : ℕ) : Prop :=
  env.setDevice = none →
    deviceExportStatus env needsStatus hostStatus outputBytes exportBytes statusBytes = .success →
    hostCopyChecked target = true → env.host.tears = false

/-- The bounded exports are contained. -/
def ExportBoundedContained (semantics : Semantics) (env : HipExportEnv) (ctx : Context) (plan : Plan)
    (C : RnsMatrix) (ld : ℕ) (hostStatus : Status) : Prop :=
  validMatrixAccess plan.desc.m plan.desc.n ld = true →
    validateExportMatrix ctx plan C semantics plan.desc.boundKind plan.rnsPrefix = .success →
    (plan.tileSchedule.isEmpty = false → plan.tileBounds.length = plan.tileSchedule.length) →
    (ensureExportPlanResources env plan).status = .success →
    boundedExportChecked plan ld (exportTileMaxElements plan) = true →
      DeviceExportContained env (!planAllZeroOutputTiles plan) hostStatus (exportLayout plan ld 8)
        (sizeMul (sizeMul plan.desc.m plan.desc.n) 8) C.hipExportBytes C.hipStatusBytes

/-- The exact-wide exports are contained. -/
def ExportLimbsContained (semantics : Semantics) (env : HipExportEnv) (ctx : Context) (plan : Plan)
    (C : RnsMatrix) (ld limbCount : ℕ) (hostStatus : Status) : Prop :=
  validLimbExportAccess plan.desc.m plan.desc.n ld limbCount = true →
    validateExportMatrix ctx plan C semantics .none plan.rnsPrefix = .success →
    limbExportChecked plan ld limbCount = true →
      DeviceExportContained env (decide (limbCount < 3)) hostStatus
        (exportLayout plan ld (limbCount * 8))
        (sizeMul (sizeMul (sizeMul plan.desc.m plan.desc.n) limbCount) 8) C.hipExportBytes
        C.hipStatusBytes

/-- The wrap export is contained. -/
def ExportWrapContained (env : HipExportEnv) (ctx : Context) (plan : Plan) (C : RnsMatrix)
    (ld : ℕ) : Prop :=
  validMatrixAccess plan.desc.m plan.desc.n ld = true →
    validateExportMatrix ctx plan C .wrapU64Mod2_64 .none 0 = .success →
    wrapExportChecked plan ld = true →
      DeviceExportContained env false .success (exportLayout plan ld 8)
        (sizeMul (sizeMul plan.desc.m plan.desc.n) 8) C.hipExportBytes C.hipStatusBytes

/-- The finite export is contained. -/
def ExportFiniteContained (env : HipExportEnv) (ctx : Context) (plan : Plan) (modulus : ℕ)
    (C : RnsMatrix) (ld : ℕ) : Prop :=
  validMatrixAccess plan.desc.m plan.desc.n ld = true →
    validateFiniteExportMatrix ctx plan modulus C = .success →
    finiteExportChecked plan modulus ld = true →
      DeviceExportContained env false .success (exportLayout plan ld 1)
        (sizeMul (sizeMul plan.desc.m plan.desc.n) 1) C.hipExportBytes C.hipStatusBytes

/-- The compact buffer of an `int` sized output with cells of up to `256` bytes fits. -/
theorem outputBytes_fits {rows cols elem : ℕ} (h : checkedMatrixElementsI32 rows cols = true)
    (helem : elem ≤ 256) : rows * cols * elem ≤ sizeMax := by
  obtain ⟨-, -, hle⟩ := checkedMatrixElementsI32_le h
  refine (Nat.mul_le_mul hle helem).trans ?_
  decide

theorem outputBytes_eq {rows cols elem : ℕ} (h : checkedMatrixElementsI32 rows cols = true)
    (helem : elem ≤ 256) : sizeMul (sizeMul rows cols) elem = rows * cols * elem :=
  sizeMul_sizeMul_eq_iff.mpr (outputBytes_fits h helem)

/-- A device export of an `int` sized output is safe when it is contained. -/
theorem deviceExport_safe_iff_of_elements {env : HipExportEnv} {needsStatus : Bool}
    {hostStatus : Status} {plan : Plan} {ld elem exportBytes statusBytes : ℕ}
    (h : checkedMatrixElementsI32 plan.desc.m plan.desc.n = true) (helem : elem ≤ 256) :
    (deviceExport env needsStatus hostStatus (exportLayout plan ld elem)
      (sizeMul (sizeMul plan.desc.m plan.desc.n) elem) exportBytes statusBytes).Safe ↔
      DeviceExportContained env needsStatus hostStatus (exportLayout plan ld elem)
        (sizeMul (sizeMul plan.desc.m plan.desc.n) elem) exportBytes statusBytes := by
  have hbytes : sizeMul (sizeMul plan.desc.m plan.desc.n) elem =
      (exportLayout plan ld elem).rows * (exportLayout plan ld elem).cols *
        (exportLayout plan ld elem).elem := outputBytes_eq h helem
  exact deviceExport_safe_iff hbytes

section Exports

variable {env : HipExportEnv} {ctx : Context} {plan : Plan} {C : RnsMatrix} {ld : ℕ}

/-- The tile tables are the plan's own memory, and the length checks keep their sizes exact. -/
theorem ensureExportPlanResources_safe (env : HipExportEnv) (plan : Plan) :
    (ensureExportPlanResources env plan).Safe := by
  unfold ensureExportPlanResources
  split
  · exact allSafe_nil
  · dsimp only [HostCall.Safe]
    split
    · next hchecked =>
      simp only [tileTablesChecked, Bool.and_eq_true, decide_eq_true_eq] at hchecked
      have hschedule := (Nat.le_div_iff_mul_le (by decide)).mp hchecked.1
      have hbounds := (Nat.le_div_iff_mul_le (by decide)).mp hchecked.2
      simp only [tileMetadataCounts, allSafe_cons, allSafe_nil, and_true, HostAccess.Safe]
      exact ⟨sizeMul_eq hschedule, sizeMul_eq hbounds⟩
    · exact allSafe_nil

theorem ensureExportPlanResources_noWrites {env : HipExportEnv} {plan : Plan} :
    NoWrites (ensureExportPlanResources env plan).accesses := by
  unfold ensureExportPlanResources tileMetadataCounts
  split_ifs <;> simp [HostAccess.isWrite]

theorem exportBoundedCall_safe_iff {semantics : Semantics} {hostStatus : Status} :
    (exportBoundedCall semantics env ctx plan C ld hostStatus).Safe ↔
      ExportBoundedContained semantics env ctx plan C ld hostStatus := by
  unfold exportBoundedCall ExportBoundedContained boundedExportDevice
  dsimp only
  split
  · next hv => exact iff_of_true allSafe_nil fun h => by rw [hv] at h; cases h
  · next hv =>
    rw [Bool.not_eq_false] at hv
    split
    · next hs => exact iff_of_true allSafe_nil fun _ h => absurd h hs
    · next hs =>
      rw [ne_eq, not_not] at hs
      split
      · next ht => exact iff_of_true allSafe_nil fun _ _ h => absurd (h ht.1) ht.2
      · next ht =>
        have hlengths : plan.tileSchedule.isEmpty = false →
            plan.tileBounds.length = plan.tileSchedule.length :=
          fun he => by_contra fun hne => ht ⟨he, hne⟩
        rw [HostCall.safe_andThen ensureExportPlanResources_noWrites]
        have hsafe := ensureExportPlanResources_safe env plan
        split
        · next hc =>
          exact iff_of_true ⟨hsafe, fun _ => allSafe_nil⟩ fun _ _ _ _ h => by rw [hc] at h; cases h
        · next hc =>
          rw [Bool.not_eq_false] at hc
          have hi : checkedMatrixElementsI32 plan.desc.m plan.desc.n = true := by
            simp only [boundedExportChecked, Bool.and_eq_true] at hc
            exact hc.1.2
          rw [deviceExport_safe_iff_of_elements hi (by decide)]
          exact ⟨fun h _ _ _ hready _ => h.2 hready, fun h => ⟨hsafe, fun hready =>
            h hv hs hlengths hready hc⟩⟩

theorem exportLimbsCall_safe_iff {semantics : Semantics} {limbCount : ℕ} {hostStatus : Status} :
    (exportLimbsCall semantics env ctx plan C ld limbCount hostStatus).Safe ↔
      ExportLimbsContained semantics env ctx plan C ld limbCount hostStatus := by
  unfold exportLimbsCall ExportLimbsContained
  dsimp only
  split
  · next hv => exact iff_of_true allSafe_nil fun h => by rw [hv] at h; cases h
  · next hv =>
    rw [Bool.not_eq_false] at hv
    split
    · next hs => exact iff_of_true allSafe_nil fun _ h => absurd h hs
    · next hs =>
      rw [ne_eq, not_not] at hs
      split
      · next hc => exact iff_of_true allSafe_nil fun _ _ h => by rw [hc] at h; cases h
      · next hc =>
        rw [Bool.not_eq_false] at hc
        have hparts := hc
        simp only [limbExportChecked, Bool.and_eq_true, decide_eq_true_eq] at hparts
        have hi := hparts.1.1.1.1.1.2
        have hlimbs : limbCount * 8 ≤ 256 := by
          have := hparts.1.2
          omega
        have hfit := outputBytes_fits hi hlimbs
        have hbytes : sizeMul (sizeMul (sizeMul plan.desc.m plan.desc.n) limbCount) 8 =
            plan.desc.m * plan.desc.n * (limbCount * 8) := by
          have h1 : sizeMul (sizeMul plan.desc.m plan.desc.n) limbCount =
              plan.desc.m * plan.desc.n * limbCount :=
            sizeMul_sizeMul_eq_iff.mpr ((Nat.mul_le_mul_left _ (by omega)).trans hfit)
          rw [h1, Nat.mul_assoc _ limbCount 8 |>.symm]
          exact sizeMul_eq (by rwa [Nat.mul_assoc])
        rw [deviceExport_safe_iff hbytes]
        exact ⟨fun h _ _ _ => h, fun h => h hv hs hc⟩

theorem exportWrapCall_safe_iff :
    (exportWrapCall env ctx plan C ld).Safe ↔ ExportWrapContained env ctx plan C ld := by
  unfold exportWrapCall ExportWrapContained
  dsimp only
  split
  · next hv => exact iff_of_true allSafe_nil fun h => by rw [hv] at h; cases h
  · next hv =>
    rw [Bool.not_eq_false] at hv
    split
    · next hs => exact iff_of_true allSafe_nil fun _ h => absurd h hs
    · next hs =>
      rw [ne_eq, not_not] at hs
      split
      · next hc => exact iff_of_true allSafe_nil fun _ _ h => by rw [hc] at h; cases h
      · next hc =>
        rw [Bool.not_eq_false] at hc
        have hi : checkedMatrixElementsI32 plan.desc.m plan.desc.n = true := by
          simp only [wrapExportChecked, Bool.and_eq_true] at hc
          exact hc.1.1.1.2
        rw [deviceExport_safe_iff_of_elements hi (by decide)]
        exact ⟨fun h _ _ _ => h, fun h => h hv hs hc⟩

theorem exportFiniteU8Call_safe_iff {modulus : ℕ} :
    (exportFiniteU8Call env ctx plan modulus C ld).Safe ↔
      ExportFiniteContained env ctx plan modulus C ld := by
  unfold exportFiniteU8Call ExportFiniteContained
  dsimp only
  split
  · next hv => exact iff_of_true allSafe_nil fun h => by rw [hv] at h; cases h
  · next hv =>
    rw [Bool.not_eq_false] at hv
    split
    · next hs => exact iff_of_true allSafe_nil fun _ h => absurd h hs
    · next hs =>
      rw [ne_eq, not_not] at hs
      split
      · next hc => exact iff_of_true allSafe_nil fun _ _ h => by rw [hc] at h; cases h
      · next hc =>
        rw [Bool.not_eq_false] at hc
        have hi : checkedMatrixElementsI32 plan.desc.m plan.desc.n = true := by
          simp only [finiteExportChecked, Bool.and_eq_true] at hc
          exact hc.1.1.2
        rw [deviceExport_safe_iff_of_elements hi (by decide)]
        exact ⟨fun h _ _ _ => h, fun h => h hv hs hc⟩

/-- An export that reports an unsupported backend wrote nothing. -/
theorem exportBoundedCall_noWrites {semantics : Semantics} {hostStatus : Status}
    (h : (exportBoundedCall semantics env ctx plan C ld hostStatus).status = .unsupportedBackend) :
    NoWrites (exportBoundedCall semantics env ctx plan C ld hostStatus).accesses := by
  unfold exportBoundedCall boundedExportDevice at h ⊢
  dsimp only at h ⊢
  split_ifs at h ⊢
  all_goals try exact noWrites_nil
  all_goals
    unfold HostCall.andThen at h ⊢
    split
    · next hready =>
      rw [if_pos hready] at h
      refine noWrites_append.mpr ⟨ensureExportPlanResources_noWrites, ?_⟩
      first
        | exact noWrites_nil
        | exact deviceExport_noWrites h
    · exact ensureExportPlanResources_noWrites

theorem exportFiniteU8Call_noWrites {modulus : ℕ}
    (h : (exportFiniteU8Call env ctx plan modulus C ld).status = .unsupportedBackend) :
    NoWrites (exportFiniteU8Call env ctx plan modulus C ld).accesses := by
  unfold exportFiniteU8Call at h ⊢
  dsimp only at h ⊢
  split_ifs at h ⊢ <;> first | exact noWrites_nil | exact deviceExport_noWrites h

end Exports

/-! ### One-shot calls -/

section Paths

variable {α β : Type}

theorem stepCall_safe_iff {step : Except Status β} {next : β → HostCall} :
    (stepCall step next).Safe ↔ ∀ value, step = .ok value → (next value).Safe := by
  cases step with
  | error status => exact iff_of_true allSafe_nil (by simp)
  | ok value => exact ⟨fun h _ he => by cases he; exact h, fun h => h value rfl⟩

/-- The resident path is contained: its packs are, and its export is, where they are reached. -/
def ResidentContained (calls : OneshotCalls α)
    (packCall : PackEnv α → Context → RnsMatrix → (ℕ → α) → ℕ → UInt64 → HostCall)
    (packContained : PackEnv α → RnsMatrix → (ℕ → α) → ℕ → UInt64 → Prop) (env : OneshotEnv α)
    (ctx : Context) (desc : GemmDesc) (A : ℕ → α) (lda : ℕ) (B : ℕ → α) (ldb : ℕ)
    (exportContained : Plan → RnsMatrix → Prop) : Prop :=
  ∀ state, createResidentOneshotState env ctx desc = .ok state →
    packContained env.packA state.A A lda calls.versionA ∧
      ((packCall env.packA ctx state.A A lda calls.versionA).status = .success →
        packContained env.packB state.B B ldb calls.versionB ∧
          ((packCall env.packB ctx state.B B ldb calls.versionB).status = .success →
            ∀ output, residentOneshot calls env ctx desc A lda B ldb = .ok output →
              exportContained output.1 output.2))

theorem residentOneshotCall_safe_iff {calls : OneshotCalls α}
    {packCall : PackEnv α → Context → RnsMatrix → (ℕ → α) → ℕ → UInt64 → HostCall}
    {packContained : PackEnv α → RnsMatrix → (ℕ → α) → ℕ → UInt64 → Prop} {env : OneshotEnv α}
    {ctx : Context} {desc : GemmDesc} {A B : ℕ → α} {lda ldb : ℕ}
    {exportCall : Plan → RnsMatrix → HostCall} {exportContained : Plan → RnsMatrix → Prop}
    (hreads : ∀ packEnv matrix src ld version,
      NoWrites (packCall packEnv ctx matrix src ld version).accesses)
    (hpack : ∀ packEnv matrix src ld version, (packCall packEnv ctx matrix src ld version).Safe ↔
      packContained packEnv matrix src ld version)
    (hexport : ∀ plan C, (exportCall plan C).Safe ↔ exportContained plan C) :
    (residentOneshotCall calls packCall env ctx desc A lda B ldb exportCall).Safe ↔
      ResidentContained calls packCall packContained env ctx desc A lda B ldb exportContained := by
  unfold residentOneshotCall ResidentContained
  rw [stepCall_safe_iff]
  refine forall_congr' fun state => imp_congr_right fun _ => ?_
  rw [HostCall.safe_andThen (hreads _ _ _ _ _), hpack]
  refine and_congr_right fun _ => imp_congr_right fun _ => ?_
  rw [HostCall.safe_andThen (hreads _ _ _ _ _), hpack, stepCall_safe_iff]
  simp only [hexport]

/-- The native path is contained: the sources of the copies it reaches have no gaps, and its export is
contained. -/
def NativeContained (path : Except Status (Plan × RnsMatrix)) (env : OneshotEnv α) (ctx : Context)
    (desc : GemmDesc) (eligible : Plan → Bool) (boundKind : Plan → BoundKind) (elem lda ldb : ℕ)
    (exportContained : Plan → RnsMatrix → Prop) : Prop :=
  ∀ state, createDirectHipNativeOneshotState env ctx desc eligible boundKind = .ok state →
    checkedNativeInputBytes desc.m lda elem = true → checkedNativeInputBytes desc.k ldb elem = true →
      env.allocA = none → env.allocB = none → env.setDeviceA = none → lda = desc.k ∧
        (env.uploadA = none → env.setDeviceB = none → ldb = desc.n ∧
          (env.uploadB = none → ∀ output, path = .ok output → exportContained output.1 output.2))

theorem outcome_eq_success_iff {op : Option Failure} : outcome op = .success ↔ op = none := by
  cases op with
  | none => simp
  | some failure => simpa using outcome_some_ne failure

theorem nativeUploadsCall_noWrites {env : OneshotEnv α} {desc : GemmDesc} {elem lda ldb : ℕ} :
    NoWrites (nativeUploadsCall env desc elem lda ldb).accesses := by
  unfold nativeUploadsCall
  refine HostCall.noWrites_andThen (by simp [HostAccess.isWrite]) ?_
  refine HostCall.noWrites_andThen noWrites_nil ?_
  refine HostCall.noWrites_andThen (by simp [HostAccess.isWrite, wholeRead]) ?_
  exact HostCall.noWrites_andThen noWrites_nil (by simp [HostAccess.isWrite, wholeRead])

theorem nativeUploadsCall_status {env : OneshotEnv α} {desc : GemmDesc} {elem lda ldb : ℕ} :
    (nativeUploadsCall env desc elem lda ldb).status = .success ↔
      env.allocA = none ∧ env.allocB = none ∧ env.setDeviceA = none ∧ env.uploadA = none ∧
        env.setDeviceB = none ∧ env.uploadB = none := by
  unfold nativeUploadsCall
  dsimp only
  simp only [HostCall.andThen_status, outcome_eq_success_iff]
  cases ha : env.allocA with
  | some failure => simp [outcome_some_ne failure]
  | none => simp [outcome_eq_success_iff]

theorem nativeUploadsCall_safe_iff {env : OneshotEnv α} {desc : GemmDesc} {elem lda ldb : ℕ}
    (helem : 0 < elem) {ldc : ℕ} (haccess : oneshotAccessOk desc lda ldb ldc = true)
    (hA : checkedNativeInputBytes desc.m lda elem = true)
    (hB : checkedNativeInputBytes desc.k ldb elem = true) :
    (nativeUploadsCall env desc elem lda ldb).Safe ↔
      (env.allocA = none → env.allocB = none → env.setDeviceA = none → lda = desc.k ∧
        (env.uploadA = none → env.setDeviceB = none → ldb = desc.n)) := by
  simp only [oneshotAccessOk, validMatrixAccess, Bool.and_eq_true, decide_eq_true_eq] at haccess
  have hpA : (⟨desc.m, desc.k, lda, elem⟩ : Strided).Proper :=
    ⟨haccess.1.1.1.1.1, haccess.1.1.1.1.2, helem, haccess.1.1.1.2⟩
  have hpB : (⟨desc.k, desc.n, ldb, elem⟩ : Strided).Proper :=
    ⟨haccess.1.2.1.1.1, haccess.1.2.1.1.2, helem, haccess.1.2.1.2⟩
  have hbytesA := sizeMul_sizeMul_eq_iff.mpr (checkedNativeInputBytes_le hA)
  have hbytesB := sizeMul_sizeMul_eq_iff.mpr (checkedNativeInputBytes_le hB)
  -- each upload reads its matrix as one span, past the last row where the stride is wider
  have hreadA := fun status => wholeRead_safe_iff status hpA hbytesA
  have hreadB := fun status => wholeRead_safe_iff status hpB hbytesB
  unfold nativeUploadsCall
  dsimp only at hreadA hreadB ⊢
  rw [HostCall.safe_andThen (by simp [HostAccess.isWrite]), HostCall.safe_andThen noWrites_nil,
    HostCall.safe_andThen (by simp [HostAccess.isWrite, wholeRead]),
    HostCall.safe_andThen noWrites_nil]
  simp only [HostCall.Safe, allSafe_cons, allSafe_nil, and_true, hreadA, hreadB,
    outcome_eq_success_iff]
  have hcounts : ∀ status, (HostAccess.count (sizeMul (sizeMul desc.m lda) elem)
      (desc.m * lda * elem)).Safe status ∧ (HostAccess.count (sizeMul (sizeMul desc.k ldb) elem)
      (desc.k * ldb * elem)).Safe status := fun _ => ⟨hbytesA, hbytesB⟩
  simp only [hcounts, true_and]
  -- a failed allocation stops the call before the first read
  cases ha : env.allocA with
  | some failure => simp [outcome_some_ne failure]
  | none => simp [outcome_eq_success_iff]

theorem nativeOneshotCall_safe_iff {path : Except Status (Plan × RnsMatrix)} {env : OneshotEnv α}
    {ctx : Context} {desc : GemmDesc} {eligible : Plan → Bool} {boundKind : Plan → BoundKind}
    {elem lda ldb : ℕ} {exportCall : Plan → RnsMatrix → HostCall}
    {exportContained : Plan → RnsMatrix → Prop} (helem : 0 < elem)
    {ldc : ℕ} (haccess : oneshotAccessOk desc lda ldb ldc = true)
    (hexport : ∀ plan C, (exportCall plan C).Safe ↔ exportContained plan C) :
    (nativeOneshotCall path env ctx desc eligible boundKind elem lda ldb exportCall).Safe ↔
      NativeContained path env ctx desc eligible boundKind elem lda ldb exportContained := by
  unfold nativeOneshotCall NativeContained
  rw [stepCall_safe_iff]
  refine forall_congr' fun state => imp_congr_right fun _ => ?_
  split
  · next hrej =>
    refine iff_of_true allSafe_nil fun h1 h2 => ?_
    rcases hrej with h | h
    · rw [h] at h1
      cases h1
    · rw [h] at h2
      cases h2
  · next hgo =>
    push Not at hgo
    have hA := (Bool.not_eq_false _).mp hgo.1
    have hB := (Bool.not_eq_false _).mp hgo.2
    rw [HostCall.safe_andThen nativeUploadsCall_noWrites,
      nativeUploadsCall_safe_iff helem haccess hA hB, stepCall_safe_iff]
    simp only [nativeUploadsCall_status, hexport]
    tauto

theorem nativeOneshotCall_noWrites {path : Except Status (Plan × RnsMatrix)} {env : OneshotEnv α}
    {ctx : Context} {desc : GemmDesc} {eligible : Plan → Bool} {boundKind : Plan → BoundKind}
    {elem lda ldb : ℕ} {exportCall : Plan → RnsMatrix → HostCall}
    (hexport : ∀ plan C, (exportCall plan C).status = .unsupportedBackend →
      NoWrites (exportCall plan C).accesses)
    (h : (nativeOneshotCall path env ctx desc eligible boundKind elem lda ldb exportCall).status =
      .unsupportedBackend) :
    NoWrites (nativeOneshotCall path env ctx desc eligible boundKind elem lda ldb
      exportCall).accesses := by
  unfold nativeOneshotCall stepCall at h ⊢
  -- the status means that the path was not eligible, which is known before anything is written
  cases hc : createDirectHipNativeOneshotState env ctx desc eligible boundKind with
  | error status => exact noWrites_nil
  | ok state =>
    rw [hc] at h
    dsimp only at h ⊢
    split
    · exact noWrites_nil
    · next hgo =>
      rw [if_neg hgo] at h
      unfold HostCall.andThen at h ⊢
      split
      · next hs =>
        rw [if_pos hs] at h
        refine noWrites_append.mpr ⟨nativeUploadsCall_noWrites, ?_⟩
        cases hp : path with
        | error status => exact noWrites_nil
        | ok output =>
          rw [hp] at h
          exact hexport _ _ h
      · exact nativeUploadsCall_noWrites

theorem orResident_safe_iff {tried : Bool} {native resident : HostCall}
    (hw : native.status = .unsupportedBackend → NoWrites native.accesses) :
    (HostCall.orResident tried native resident).Safe ↔
      (tried = true → native.Safe) ∧
        (tried = false ∨ native.status = .unsupportedBackend → resident.Safe) := by
  unfold HostCall.orResident
  cases tried with
  | false => simp
  | true =>
    simp only [Bool.true_eq_false, if_false, true_imp_iff, false_or]
    split
    · next hs => exact ⟨fun h => ⟨h, fun hu => absurd hu hs⟩, And.left⟩
    · next hs =>
      rw [ne_eq, not_not] at hs
      simp only [HostCall.Safe, allSafe_append, hs, true_imp_iff]
      exact and_congr_left fun _ => ⟨(hw hs).allSafe, (hw hs).allSafe⟩

theorem after_safe_iff {preflight : Status} {call : HostCall} :
    (HostCall.after preflight call).Safe ↔ (preflight = .success → call.Safe) := by
  unfold HostCall.after
  split
  · next hs => exact iff_of_true allSafe_nil fun h => absurd h hs
  · next hs =>
    rw [ne_eq, not_not] at hs
    simp [hs]

end Paths

/-! ### The entry points -/

/-- A call of a pack, export or one-shot entry point. -/
inductive HipCall
  | packI64 (env : PackEnv Int64) (ctx : Context) (matrix : RnsMatrix) (src : ℕ → Int64) (ld : ℕ)
    (sourceVersion : UInt64)
  | packU64 (env : PackEnv UInt64) (ctx : Context) (matrix : RnsMatrix) (src : ℕ → UInt64) (ld : ℕ)
    (sourceVersion : UInt64)
  | packFiniteU8 (env : PackEnv UInt8) (ctx : Context) (matrix : RnsMatrix) (modulus : ℕ)
    (src : ℕ → UInt8) (ld : ℕ) (sourceVersion : UInt64)
  | exportI64 (env : HipExportEnv) (ctx : Context) (plan : Plan) (C : RnsMatrix) (ld : ℕ)
    (hostStatus : Status)
  | exportU64 (env : HipExportEnv) (ctx : Context) (plan : Plan) (C : RnsMatrix) (ld : ℕ)
    (hostStatus : Status)
  | exportSignedLimbs (env : HipExportEnv) (ctx : Context) (plan : Plan) (C : RnsMatrix)
    (ld limbCount : ℕ) (hostStatus : Status)
  | exportUnsignedLimbs (env : HipExportEnv) (ctx : Context) (plan : Plan) (C : RnsMatrix)
    (ld limbCount : ℕ) (hostStatus : Status)
  | exportWrapU64 (env : HipExportEnv) (ctx : Context) (plan : Plan) (C : RnsMatrix) (ld : ℕ)
  | exportFiniteU8 (env : HipExportEnv) (ctx : Context) (plan : Plan) (modulus : ℕ) (C : RnsMatrix)
    (ld : ℕ)
  | gemmI64Oneshot (env : OneshotEnv Int64) (exports : OneshotExports) (ctx : Context)
    (desc : GemmDesc) (A : ℕ → Int64) (lda : ℕ) (B : ℕ → Int64) (ldb ldc : ℕ)
  | gemmU64Oneshot (env : OneshotEnv UInt64) (exports : OneshotExports) (ctx : Context)
    (desc : GemmDesc) (A : ℕ → UInt64) (lda : ℕ) (B : ℕ → UInt64) (ldb ldc : ℕ)
  | gemmWrapU64Oneshot (env : OneshotEnv UInt64) (exports : OneshotExports) (ctx : Context)
    (desc : GemmDesc) (A : ℕ → UInt64) (lda : ℕ) (B : ℕ → UInt64) (ldb ldc : ℕ)
  | gemmFiniteU8Oneshot (semantics : Semantics) (env : OneshotEnv UInt8) (exports : OneshotExports)
    (ctx : Context) (desc : GemmDesc) (modulus : ℕ) (A : ℕ → UInt8) (lda : ℕ) (B : ℕ → UInt8)
    (ldb ldc : ℕ)

namespace HipCall

/-- What the call does to the memory of its caller. -/
def record : HipCall → HostCall
  | packI64 env ctx matrix src ld version => packI64Call env ctx matrix src ld version
  | packU64 env ctx matrix src ld version => packU64Call env ctx matrix src ld version
  | packFiniteU8 env ctx matrix modulus src ld version =>
    packFiniteU8Call env ctx matrix modulus src ld version
  | exportI64 env ctx plan C ld hostStatus =>
    exportBoundedCall .boundedI64 env ctx plan C ld hostStatus
  | exportU64 env ctx plan C ld hostStatus =>
    exportBoundedCall .boundedU64 env ctx plan C ld hostStatus
  | exportSignedLimbs env ctx plan C ld limbCount hostStatus =>
    exportLimbsCall .exactWideSigned env ctx plan C ld limbCount hostStatus
  | exportUnsignedLimbs env ctx plan C ld limbCount hostStatus =>
    exportLimbsCall .exactWideUnsigned env ctx plan C ld limbCount hostStatus
  | exportWrapU64 env ctx plan C ld => exportWrapCall env ctx plan C ld
  | exportFiniteU8 env ctx plan modulus C ld => exportFiniteU8Call env ctx plan modulus C ld
  | gemmI64Oneshot env exports ctx desc A lda B ldb ldc =>
    gemmI64OneshotCall env exports ctx desc A lda B ldb ldc
  | gemmU64Oneshot env exports ctx desc A lda B ldb ldc =>
    gemmU64OneshotCall env exports ctx desc A lda B ldb ldc
  | gemmWrapU64Oneshot env exports ctx desc A lda B ldb ldc =>
    gemmWrapU64OneshotCall env exports ctx desc A lda B ldb ldc
  | gemmFiniteU8Oneshot semantics env exports ctx desc modulus A lda B ldb ldc =>
    gemmFiniteU8OneshotCall semantics env exports ctx desc modulus A lda B ldb ldc

/-- A one-shot call after its preflight: the native path where it is tried, the resident path where
that one is left. -/
def OneshotContained (preflight : Status) (tried : Bool) (native : HostCall)
    (nativeContained residentContained : Prop) : Prop :=
  preflight = .success → (tried = true → nativeContained) ∧
    (tried = false ∨ native.status = .unsupportedBackend → residentContained)

/-- The upload sources of the call have no gaps, its upload sizes fit, and its direct copy does not
fail after it began to write, each where the call reaches it. -/
def Contained : HipCall → Prop
  | packI64 env ctx matrix src ld version => PackI64Contained env ctx matrix src ld version
  | packU64 env ctx matrix src ld version => PackU64Contained env ctx matrix src ld version
  | packFiniteU8 env ctx matrix modulus _ ld version =>
    PackFiniteU8Contained env ctx matrix modulus ld version
  | exportI64 env ctx plan C ld hostStatus =>
    ExportBoundedContained .boundedI64 env ctx plan C ld hostStatus
  | exportU64 env ctx plan C ld hostStatus =>
    ExportBoundedContained .boundedU64 env ctx plan C ld hostStatus
  | exportSignedLimbs env ctx plan C ld limbCount hostStatus =>
    ExportLimbsContained .exactWideSigned env ctx plan C ld limbCount hostStatus
  | exportUnsignedLimbs env ctx plan C ld limbCount hostStatus =>
    ExportLimbsContained .exactWideUnsigned env ctx plan C ld limbCount hostStatus
  | exportWrapU64 env ctx plan C ld => ExportWrapContained env ctx plan C ld
  | exportFiniteU8 env ctx plan modulus C ld => ExportFiniteContained env ctx plan modulus C ld
  | gemmI64Oneshot env exports ctx desc A lda B ldb ldc =>
    let path := directHipI64NativePrefix9Oneshot env ctx desc A lda B ldb
    let eligible := fun plan => directHipNativePrefix9OneshotEligible ctx desc plan .boundedI64
    OneshotContained (validateTypedOneshotContract ctx desc .boundedI64 lda ldb ldc)
      (nativePrefix9Requested ctx desc .globalMaxAbs)
      (nativeOneshotCall path env ctx desc eligible storageBoundKindForPlan 8 lda ldb fun plan C =>
        exportBoundedCall .boundedI64 exports.native ctx plan C ldc exports.nativeStatus)
      (NativeContained path env ctx desc eligible storageBoundKindForPlan 8 lda ldb fun plan C =>
        ExportBoundedContained .boundedI64 exports.native ctx plan C ldc exports.nativeStatus)
      (ResidentContained oneshotCallsI64 packI64Call
        (fun env matrix => PackI64Contained env ctx matrix) env ctx desc A lda B ldb fun plan C =>
          ExportBoundedContained .boundedI64 exports.resident ctx plan C ldc exports.residentStatus)
  | gemmU64Oneshot env exports ctx desc A lda B ldb ldc =>
    let path := directHipU64NativePrefix9Oneshot env ctx desc A lda B ldb
    let eligible := fun plan => directHipNativePrefix9OneshotEligible ctx desc plan .boundedU64
    OneshotContained (validateTypedOneshotContract ctx desc .boundedU64 lda ldb ldc)
      (nativePrefix9Requested ctx desc .globalMaxUnsigned)
      (nativeOneshotCall path env ctx desc eligible storageBoundKindForPlan 8 lda ldb fun plan C =>
        exportBoundedCall .boundedU64 exports.native ctx plan C ldc exports.nativeStatus)
      (NativeContained path env ctx desc eligible storageBoundKindForPlan 8 lda ldb fun plan C =>
        ExportBoundedContained .boundedU64 exports.native ctx plan C ldc exports.nativeStatus)
      (ResidentContained oneshotCallsU64 packU64Call
        (fun env matrix => PackU64Contained env ctx matrix) env ctx desc A lda B ldb fun plan C =>
          ExportBoundedContained .boundedU64 exports.resident ctx plan C ldc exports.residentStatus)
  | gemmWrapU64Oneshot env exports ctx desc A lda B ldb ldc =>
    validateTypedOneshotContract ctx desc .wrapU64Mod2_64 lda ldb ldc = .success →
      ResidentContained oneshotCallsWrapU64 packU64Call
        (fun env matrix => PackU64Contained env ctx matrix) env ctx desc A lda B ldb fun plan C =>
          ExportWrapContained exports.resident ctx plan C ldc
  | gemmFiniteU8Oneshot semantics env exports ctx desc modulus A lda B ldb ldc =>
    let path := directHipFiniteU8NativeOneshot env ctx desc semantics modulus A lda B ldb
    let eligible := fun plan => directHipFiniteNativeOneshotEligible ctx desc plan semantics modulus
    OneshotContained (validateFiniteU8OneshotContract ctx desc semantics modulus lda ldb ldc)
      (decide (ctx.backend = .hipDirect))
      (nativeOneshotCall path env ctx desc eligible (fun _ => desc.boundKind) 1 lda ldb fun plan C =>
        exportFiniteU8Call exports.native ctx plan modulus C ldc)
      (NativeContained path env ctx desc eligible (fun _ => desc.boundKind) 1 lda ldb fun plan C =>
        ExportFiniteContained exports.native ctx plan modulus C ldc)
      (ResidentContained (oneshotCallsFiniteU8 modulus)
        (fun env ctx matrix => packFiniteU8Call env ctx matrix modulus)
        (fun env matrix _ => PackFiniteU8Contained env ctx matrix modulus) env ctx desc A lda B ldb
        fun plan C => ExportFiniteContained exports.resident ctx plan modulus C ldc)

end HipCall

/-- The preflight of a typed one-shot call checks the accesses to its three matrices. -/
theorem validateTypedOneshotContract_access {ctx : Context} {desc : GemmDesc} {expected : Semantics}
    {lda ldb ldc : ℕ}
    (h : validateTypedOneshotContract ctx desc expected lda ldb ldc = .success) :
    oneshotAccessOk desc lda ldb ldc = true := by
  unfold validateTypedOneshotContract at h
  dsimp only at h
  split at h
  · cases h
  · split at h
    · next hne => exact absurd h hne
    · split at h
      · cases h
      · next ha => simpa using ha

theorem validateFiniteU8OneshotContract_access {ctx : Context} {desc : GemmDesc}
    {expected : Semantics} {modulus lda ldb ldc : ℕ}
    (h : validateFiniteU8OneshotContract ctx desc expected modulus lda ldb ldc = .success) :
    oneshotAccessOk desc lda ldb ldc = true := by
  unfold validateFiniteU8OneshotContract at h
  dsimp only at h
  split at h
  · cases h
  · split at h
    · cases h
    · split at h
      · cases h
      · next ha => simpa using ha

/-- **The footprint of a call** is exact exactly when the call is contained. -/
theorem HipCall.safe_iff_contained (call : HipCall) : call.record.Safe ↔ call.Contained := by
  cases call with
  | packI64 => exact packI64Call_safe_iff
  | packU64 => exact packU64Call_safe_iff
  | packFiniteU8 => exact packFiniteU8Call_safe_iff
  | exportI64 => exact exportBoundedCall_safe_iff
  | exportU64 => exact exportBoundedCall_safe_iff
  | exportSignedLimbs => exact exportLimbsCall_safe_iff
  | exportUnsignedLimbs => exact exportLimbsCall_safe_iff
  | exportWrapU64 => exact exportWrapCall_safe_iff
  | exportFiniteU8 => exact exportFiniteU8Call_safe_iff
  -- a one-shot call is its checks, then the native path, then the resident path when that one
  -- declines
  | gemmI64Oneshot env exports ctx desc A lda B ldb ldc =>
    refine after_safe_iff.trans (imp_congr_right fun hpre => ?_)
    have haccess := validateTypedOneshotContract_access hpre
    rw [orResident_safe_iff (nativeOneshotCall_noWrites fun _ _ => exportBoundedCall_noWrites),
      nativeOneshotCall_safe_iff (by decide) haccess fun _ _ => exportBoundedCall_safe_iff,
      residentOneshotCall_safe_iff (fun _ _ _ _ _ => packI64Call_noWrites)
        (fun _ _ _ _ _ => packI64Call_safe_iff) fun _ _ => exportBoundedCall_safe_iff]
  | gemmU64Oneshot env exports ctx desc A lda B ldb ldc =>
    refine after_safe_iff.trans (imp_congr_right fun hpre => ?_)
    have haccess := validateTypedOneshotContract_access hpre
    rw [orResident_safe_iff (nativeOneshotCall_noWrites fun _ _ => exportBoundedCall_noWrites),
      nativeOneshotCall_safe_iff (by decide) haccess fun _ _ => exportBoundedCall_safe_iff,
      residentOneshotCall_safe_iff (fun _ _ _ _ _ => packU64Call_noWrites)
        (fun _ _ _ _ _ => packU64Call_safe_iff) fun _ _ => exportBoundedCall_safe_iff]
  -- there is no native path for wrapping products
  | gemmWrapU64Oneshot env exports ctx desc A lda B ldb ldc =>
    refine after_safe_iff.trans (imp_congr_right fun _ => ?_)
    rw [residentOneshotCall_safe_iff (fun _ _ _ _ _ => packU64Call_noWrites)
      (fun _ _ _ _ _ => packU64Call_safe_iff) fun _ _ => exportWrapCall_safe_iff]
  | gemmFiniteU8Oneshot semantics env exports ctx desc modulus A lda B ldb ldc =>
    refine after_safe_iff.trans (imp_congr_right fun hpre => ?_)
    have haccess := validateFiniteU8OneshotContract_access hpre
    rw [orResident_safe_iff (nativeOneshotCall_noWrites fun _ _ => exportFiniteU8Call_noWrites),
      nativeOneshotCall_safe_iff (by decide) haccess fun _ _ => exportFiniteU8Call_safe_iff,
      residentOneshotCall_safe_iff (fun _ _ _ _ _ => packFiniteU8Call_noWrites)
        (fun _ _ _ _ _ => packFiniteU8Call_safe_iff) fun _ _ => exportFiniteU8Call_safe_iff]

/-! ### A source with a gap -/

/-- A context of the direct HIP backend on its first device. -/
def hipContext : Context := { backend := .hipDirect, deviceId := 0 }

/-- One element, at a pitch of two. -/
def gappedPack (matrix : RnsMatrix) : HipCall :=
  .packI64 (.ok Int64) hipContext matrix (fun _ => 1) 2 1

private theorem gappedPack_reads :
    ∃ matrix ∈ (rns8CreateMatrix (.ok 1) hipContext
        { rows := 1, cols := 1, semantics := .boundedI64, boundKind := .globalMaxAbs }).toOption,
      HostAccess.read ⟨1, 1, 2, 8⟩ ⟨0, 16⟩ ∈ (gappedPack matrix).record.accesses := by
  decide +kernel

/-- A pack of one element with a leading dimension of two reads sixteen bytes of its source, of which
eight are logical. -/
theorem gappedPack_unsafe :
    ∃ matrix ∈ (rns8CreateMatrix (.ok 1) hipContext
        { rows := 1, cols := 1, semantics := .boundedI64, boundKind := .globalMaxAbs }).toOption,
      ¬ (gappedPack matrix).record.Safe := by
  obtain ⟨matrix, hmem, hread⟩ := gappedPack_reads
  refine ⟨matrix, hmem, fun hsafe => ?_⟩
  have hwithin : (⟨0, 16⟩ : Span).Within ⟨1, 1, 2, 8⟩ := hsafe _ hread
  have hlogical := hwithin 8 (Nat.zero_le _) (by decide)
  simp [Strided.Logical] at hlogical

end Rns8
