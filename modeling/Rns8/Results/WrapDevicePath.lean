import Rns8.Api.CpuCalls
import Rns8.Results.GroupedOrder
import Rns8.Results.WrapAgreement

/-!
# The device path of the wrapping GEMM

`rns8_pack_u64`, `rns8_gemm_wrap_u64` and `rns8_export_wrap_u64` on the direct HIP backend. What
the entry points take a completed device operation to have written is what the kernels write,
whatever the order of their threads; packing both operands, multiplying and exporting gives the
product of the caller's matrices modulo `2 ^ 64`.
-/

namespace Rns8

open ByteLimbs

/-! ### Packing -/

theorem cells_withHipByteLimbs {matrix : RnsMatrix} (h : matrix.hipByteLimbs.isSome = true)
    (cell : ℕ → UInt8) : (matrix.withHipByteLimbs cell).hipByteLimbs.cells = cell := by
  obtain ⟨buffer, hbuffer⟩ := Option.isSome_iff_exists.1 h
  simp only [RnsMatrix.withHipByteLimbs, hbuffer, Option.map_some]
  rfl

/-- A wrap matrix of the direct HIP backend has device byte limbs. -/
theorem wrapMatrixStorageMatches_hip {matrix : RnsMatrix} {rows cols : ℕ}
    (h : wrapMatrixStorageMatches matrix .hipDirect rows cols = true) :
    matrix.hipByteLimbs.isSome = true := by
  unfold wrapMatrixStorageMatches at h
  split at h
  · cases h
  · cases hlimbs : matrix.hipByteLimbs with
    | none => simp [hlimbs] at h
    | some buffer => rfl

/-- What the device pack is to write. -/
theorem packWrapDevice_eq (matrix : RnsMatrix) (src : ℕ → UInt64) (ld : ℕ) :
    packWrapDevice matrix src ld =
      wrapPackedLimbs src matrix.hipByteLimbs.cells matrix.desc.rows matrix.desc.cols ld :=
  packWrapU64Matrix_eq _ src ld

/-- **A device pack** that succeeds and is not skipped has written the byte limbs of its source. -/
theorem rns8PackU64_hip {env : PackEnv UInt64} {ctx : Context} {matrix packed : RnsMatrix}
    {src : ℕ → UInt64} {ld : ℕ} {version : UInt64} (hhip : ctx.backend = .hipDirect)
    (hwrap : matrix.desc.semantics = .wrapU64Mod2_64)
    (hfresh : sameSourceDeviceByteLimbPackCurrent ctx matrix version = false)
    (h : rns8PackU64 env ctx matrix src ld version = (.success, packed)) :
    packed.desc = matrix.desc ∧ packed.hipByteLimbs.cells = packWrapDevice matrix src ld := by
  unfold rns8PackU64 at h
  split at h
  · cases h
  split at h
  · cases h
  split at h
  · cases h
  unfold packWrapMatrix at h
  split at h
  · cases h
  split at h
  · cases h
  next hstorage =>
  split at h
  · cases h
  -- a matrix of this backend is packed on the device, unless its limbs are already of this
  -- version
  simp only [hhip, reduceCtorEq, if_false, hfresh, Bool.false_eq_true] at h
  rw [hhip, Bool.not_eq_true', Bool.not_eq_false] at hstorage
  have hlimbs := wrapMatrixStorageMatches_hip hstorage
  split at h
  · next hupload => exact absurd (congrArg Prod.fst h) hupload
  split at h
  · next cell hrun =>
    obtain rfl := (Prod.mk.inj h).2
    have hcell := DeviceOp.run_of_success (congrArg Prod.fst hrun)
    rw [hrun] at hcell
    exact ⟨rfl, (cells_withHipByteLimbs hlimbs cell).trans hcell⟩
  · next hne _ => exact absurd (congrArg Prod.fst h) hne

/-! ### The product -/

/-- Operands that pass the checks have the dimensions of the plan, and the output has its storage. -/
theorem validateWrapGemmOperands_spec {ctx : Context} {plan : Plan} {A B C : RnsMatrix}
    (h : validateWrapGemmOperands ctx plan A B C = .success) :
    (A.desc.rows = plan.desc.m ∧ A.desc.cols = plan.desc.k) ∧
      (B.desc.rows = plan.desc.k ∧ B.desc.cols = plan.desc.n) ∧
      (C.desc.rows = plan.desc.m ∧ C.desc.cols = plan.desc.n) ∧
      wrapMatrixStorageMatches C plan.backend plan.desc.m plan.desc.n = true := by
  unfold validateWrapGemmOperands at h
  split at h
  · cases h
  split at h
  · cases h
  split at h
  · cases h
  next hdescriptors =>
  split at h
  · cases h
  split at h
  · cases h
  next hstorage =>
  simp only [operandDescriptorsMatch, Bool.not_eq_true', Bool.not_eq_false, Bool.and_eq_true]
    at hdescriptors
  simp only [Bool.or_eq_true, Bool.not_eq_true', not_or, Bool.not_eq_false] at hstorage
  obtain ⟨-, hdimsA, -⟩ := matrixDescriptorMatches_spec hdescriptors.1.1
  obtain ⟨-, hdimsB, -⟩ := matrixDescriptorMatches_spec hdescriptors.1.2
  obtain ⟨-, hdimsC, -⟩ := matrixDescriptorMatches_spec hdescriptors.2
  exact ⟨hdimsA, hdimsB, hdimsC, hstorage.2⟩

/-- **A device GEMM** that succeeds on separate handles has written the product of the byte limbs. -/
theorem rns8GemmWrapU64_hip {env : GemmEnv} {ctx : Context} {plan : Plan} {workspace : Workspace}
    {a b c : Handle} {s s' : Store} (hhip : plan.backend = .hipDirect) (hac : a ≠ c) (hbc : b ≠ c)
    (h : rns8GemmWrapU64 env ctx plan workspace a b c s = (.success, s')) :
    (∃ A B C C', (s a = some A ∧ s b = some B ∧ s c = some C ∧ s' c = some C') ∧
      (A.desc.rows = plan.desc.m ∧ A.desc.cols = plan.desc.k) ∧
      (B.desc.rows = plan.desc.k ∧ B.desc.cols = plan.desc.n) ∧
      C'.hipByteLimbs.cells = wrapProductLimbs A.hipByteLimbs.cells B.hipByteLimbs.cells
        C.hipByteLimbs.cells plan.desc.m plan.desc.n plan.desc.k) ∧
      ∀ other ≠ c, s' other = s other := by
  rcases rns8GemmWrapU64_cases env ctx plan workspace a b c s with hrej |
    ⟨A, B, C, ⟨hA, hB, hC, hops⟩, hrun⟩
  · exact absurd (congrArg Prod.fst h) (hrej env.cpu).1
  have heq := h.symm.trans (hrun env.cpu)
  rw [Prod.mk.injEq] at heq
  -- past the checks the call is its dispatch
  obtain ⟨hst, rfl⟩ := heq
  obtain ⟨hdimsA, hdimsB, hdimsC, hstorage⟩ := validateWrapGemmOperands_spec hops
  have hlimbs := wrapMatrixStorageMatches_hip (hhip ▸ hstorage)
  have hdeviceA : s.deviceLimbs a = A.hipByteLimbs.cells := by rw [Store.deviceLimbs, hA]
  have hdeviceB : s.deviceLimbs b = B.hipByteLimbs.cells := by rw [Store.deviceLimbs, hB]
  have hdeviceC : s.deviceLimbs c = C.hipByteLimbs.cells := by rw [Store.deviceLimbs, hC]
  -- the device kernel is meant to leave what the serial loop leaves in an output of its own
  have hmeant := wrapLoop_eq (g := wrapArgs plan a b c A B C) hdimsC.2 hdimsA.2 hdimsB.2 hbc
    (fun hbuf => absurd hbuf hac) serialTeam s.deviceLimbs
  refine ⟨⟨A, B, C, _, ⟨hA, hB, hC, Store.set_self _ _ _⟩, hdimsA, hdimsB, ?_⟩,
    fun other hne => Store.set_of_ne _ _ hne⟩
  unfold dispatchGemmWrapU64 at hst ⊢
  rw [hhip] at hst ⊢
  simp only [hac, hbc, ne_eq, not_false_eq_true, decide_true, Bool.and_self, DeviceOp.runIf,
    if_true] at hst ⊢
  split at hst
  · next cell hrun =>
    have hcell := DeviceOp.run_of_success (congrArg Prod.fst hrun)
    rw [hrun] at hcell
    refine (cells_withHipByteLimbs hlimbs cell).trans (hcell.trans (hmeant.trans ?_))
    change wrapProductLimbs (s.deviceLimbs a) (s.deviceLimbs b) (s.deviceLimbs c) _ _ _ = _
    rw [hdeviceA, hdeviceB, hdeviceC]
    rfl
  · next hne _ => exact absurd hst.symm hne

/-- The sum of a cell of packed operands. -/
theorem wrapCellDot_packed (U V : ℕ → UInt64) (aLimbs bLimbs : ℕ → UInt8)
    {m n k lda ldb row col : ℕ} (hrow : row < m) (hcol : col < n) :
    wrapCellDot (wrapPackedLimbs U aLimbs m k lda) (wrapPackedLimbs V bLimbs k n ldb) n k row col =
      wrapDot k (fun kk => U (row * lda + kk)) fun kk => V (kk * ldb + col) := by
  unfold wrapCellDot wrapDot
  congr 1
  refine Finset.sum_congr rfl fun kk hkk => ?_
  have hkk := Finset.mem_range.1 hkk
  beta_reduce
  obtain ⟨hdiv, hmod⟩ := RowMajor.offset_parts row hkk
  obtain ⟨hdiv', hmod'⟩ := RowMajor.offset_parts kk hcol
  rw [loadWord_packed U aLimbs (RowMajor.offset_lt hkk hrow),
    loadWord_packed V bLimbs (RowMajor.offset_lt hcol hkk), hdiv, hmod, hdiv', hmod']

theorem loadWord_product (aLimbs bLimbs c : ℕ → UInt8) {m n k row col : ℕ} (hrow : row < m)
    (hcol : col < n) : loadWord (wrapProductLimbs aLimbs bLimbs c m n k) (row * n + col) =
      wrapCellDot aLimbs bLimbs n k row col := by
  refine loadWord_limb fun l hl => ?_
  obtain ⟨hdiv, hmod⟩ := RowMajor.offset_parts (row * n + col) hl
  obtain ⟨hdiv', hmod'⟩ := RowMajor.offset_parts row hcol
  rw [wrapProductLimbs, if_pos (RowMajor.offset_lt hl (RowMajor.offset_lt hcol hrow)), hdiv, hmod,
    hdiv', hmod']

theorem wrap64HipExportU64Device_ld {limbs : ℕ → UInt8} {rows cols ld : ℕ}
    {launch : WrapLaunch UInt64} (h : wrap64HipExportU64Device rows cols ld limbs = some launch) :
    cols ≤ ld := by
  unfold wrap64HipExportU64Device at h
  split at h
  · next hchecks =>
    simp only [Bool.and_eq_true, decide_eq_true_eq, and_assoc] at hchecks
    exact hchecks.1
  · cases h

/-! ### The whole path -/

/-- **Pack, multiply, export on the device.** The kernels leave in the matrices what the entry points
say, in any order of their threads, and an export stores the product of the caller's matrices modulo
`2 ^ 64` and nothing else. -/
theorem hipWrapPath_product {packA packB : PackEnv UInt64} {env : GemmEnv} {ctx : Context}
    {plan : Plan} {workspace : Workspace} {a b c : Handle} {s s' : Store} {A₀ A B₀ B : RnsMatrix}
    {U V : ℕ → UInt64} {lda ldb : ℕ} {versionA versionB : UInt64}
    (hctx : ctx.backend = .hipDirect) (hplan : plan.backend = .hipDirect)
    (hwrapA : A₀.desc.semantics = .wrapU64Mod2_64) (hwrapB : B₀.desc.semantics = .wrapU64Mod2_64)
    (hfreshA : sameSourceDeviceByteLimbPackCurrent ctx A₀ versionA = false)
    (hfreshB : sameSourceDeviceByteLimbPackCurrent ctx B₀ versionB = false)
    (hpackA : rns8PackU64 packA ctx A₀ U lda versionA = (.success, A))
    (hpackB : rns8PackU64 packB ctx B₀ V ldb versionB = (.success, B))
    (ha : s a = some A) (hb : s b = some B) (hac : a ≠ c) (hbc : b ≠ c)
    (hgemm : rns8GemmWrapU64 env ctx plan workspace a b c s = (.success, s')) :
    (∀ {launch : WrapLaunch UInt8} {order : List WrapThread},
      wrap64HipPackU64Device A₀.desc.rows A₀.desc.cols lda U = some launch →
        order.Perm launch.threads →
          launch.run order A₀.hipByteLimbs.cells = A.hipByteLimbs.cells) ∧
    ∃ C C', (s c = some C ∧ s' c = some C' ∧ ∀ other ≠ c, s' other = s other) ∧
      (∀ {kernels : WrapGemmEnv} {launch : WrapLaunch UInt8} {order : List WrapThread},
        wrap64HipGemmByteLimbsDeviceResident kernels A.hipByteLimbs.cells B.hipByteLimbs.cells
          plan.desc.m plan.desc.n plan.desc.k = some launch → order.Perm launch.threads →
            launch.run order C.hipByteLimbs.cells = C'.hipByteLimbs.cells) ∧
      ∀ {ld : ℕ} {launch : WrapLaunch UInt64} {order : List WrapThread}
        (compact dst : ℕ → UInt64),
        wrap64HipExportU64Device plan.desc.m plan.desc.n ld C'.hipByteLimbs.cells = some launch →
          order.Perm launch.threads →
          (∀ row < plan.desc.m, ∀ col < plan.desc.n,
            storeCells serialRows plan.desc.m plan.desc.n ld (fun row col =>
              launch.run order compact (row * plan.desc.n + col)) dst (row * ld + col) =
                wrapDot plan.desc.k (fun kk => U (row * lda + kk)) fun kk => V (kk * ldb + col)) ∧
          ∀ o, (∀ row < plan.desc.m, ∀ col < plan.desc.n, o ≠ row * ld + col) →
            storeCells serialRows plan.desc.m plan.desc.n ld (fun row col =>
              launch.run order compact (row * plan.desc.n + col)) dst o = dst o := by
  obtain ⟨hdescA, hcellsA⟩ := rns8PackU64_hip hctx hwrapA hfreshA hpackA
  obtain ⟨hdescB, hcellsB⟩ := rns8PackU64_hip hctx hwrapB hfreshB hpackB
  obtain ⟨⟨A', B', C, C', ⟨hA', hB', hC, hC'⟩, hdimsA, hdimsB, hcells⟩, hframe⟩ :=
    rns8GemmWrapU64_hip hplan hac hbc hgemm
  obtain rfl : A = A' := Option.some.inj (ha.symm.trans hA')
  obtain rfl : B = B' := Option.some.inj (hb.symm.trans hB')
  -- the pack stores the words' limbs, so the product of the limbs is that of the words
  rw [packWrapDevice_eq] at hcellsA hcellsB
  refine ⟨fun h horder => ?_, C, C', ⟨hC, hC', hframe⟩, fun h horder => ?_, ?_⟩
  · rw [hcellsA]
    exact funext (wrap64HipPack_run h horder _)
  · rw [hcells]
    exact funext (wrap64HipGemm_run h horder _)
  · intro ld launch order compact dst h horder
    have hld := wrap64HipExportU64Device_ld h
    constructor
    · intro row hrow col hcol
      rw [storeCells_read serialRows dst hrow hcol hld, wrap64HipExport_run h horder,
        if_pos (RowMajor.offset_lt hcol hrow), hcells, loadWord_product _ _ _ hrow hcol, hcellsA,
        hcellsB, ← hdescA, ← hdescB, hdimsA.1, hdimsA.2, hdimsB.1, hdimsB.2,
        wrapCellDot_packed U V _ _ hrow hcol]
    · intro o ho
      exact (storeCells_stores serialRows hld dst o).2 fun ⟨row, hrow, col, hcol, heq⟩ =>
        ho row hrow col hcol heq

/-! ### A product of order one -/

/-- A wrapping product of order one on the direct HIP backend. -/
def unitWrapDesc : GemmDesc where
  semantics := .wrapU64Mod2_64
  boundKind := .none
  requestedBackend := .hipDirect
  m := 1
  n := 1
  k := 1

/-- A wrap matrix of order one that was created on the direct HIP backend. -/
def unitWrapMatrix (instanceId : UInt64) : Option RnsMatrix :=
  (rns8CreateMatrix (.ok instanceId) .hip (makeMatrixDesc 1 1 .wrapU64Mod2_64 .none 0 0 0)).toOption

/-- A wrap matrix of order one after its pack. -/
def packedUnit (matrix : RnsMatrix) (value : UInt64) : Status × RnsMatrix :=
  rns8PackU64 (.ok _) .hip matrix (fun _ => value) 1 7

/-- The packed operands `2 ^ 64 - 1` and `3`, and an output. -/
def unitWrapStore (A B C : RnsMatrix) : Store :=
  ((Store.set (fun _ => none) 0 (packedUnit A 0xffffffffffffffff).2).set 1 (packedUnit B 3).2).set 2 C

/-- `(2 ^ 64 - 1) * 3` is exported as `2 ^ 64 - 3`. -/
theorem hipWrapPath_product_minus_three :
    ∃ plan ∈ (rns8CreatePlan .hip unitWrapDesc).toOption,
      ∃ workspace ∈ (rns8CreateWorkspace .hip plan).toOption,
      ∃ A ∈ unitWrapMatrix 1, ∃ B ∈ unitWrapMatrix 2, ∃ C ∈ unitWrapMatrix 3,
        let r := rns8GemmWrapU64 .ok .hip plan workspace 0 1 2 (unitWrapStore A B C)
        r.1 = .success ∧ ∃ C' ∈ r.2 2, ∃ launch,
          wrap64HipExportU64Device plan.desc.m plan.desc.n 1 C'.hipByteLimbs.cells = some launch ∧
          storeCells serialRows plan.desc.m plan.desc.n 1 (fun row col =>
            launch.run launch.threads (fun _ => 0) (row * plan.desc.n + col)) (fun _ => 0)
              (0 * 1 + 0) = 0xfffffffffffffffd := by
  have hcalls : ∃ plan ∈ (rns8CreatePlan .hip unitWrapDesc).toOption,
      ∃ workspace ∈ (rns8CreateWorkspace .hip plan).toOption,
      ∃ A ∈ unitWrapMatrix 1, ∃ B ∈ unitWrapMatrix 2, ∃ C ∈ unitWrapMatrix 3,
        (plan.backend = .hipDirect ∧ plan.desc.m = 1 ∧ plan.desc.n = 1 ∧ plan.desc.k = 1) ∧
        (A.desc.semantics = .wrapU64Mod2_64 ∧ B.desc.semantics = .wrapU64Mod2_64) ∧
        (sameSourceDeviceByteLimbPackCurrent .hip A 7 = false ∧
          sameSourceDeviceByteLimbPackCurrent .hip B 7 = false) ∧
        ((packedUnit A 0xffffffffffffffff).1 = .success ∧ (packedUnit B 3).1 = .success) ∧
        (rns8GemmWrapU64 .ok .hip plan workspace 0 1 2 (unitWrapStore A B C)).1 = .success := by
    decide +kernel
  obtain ⟨plan, hplan, workspace, hworkspace, A, hA, B, hB, C, hC, ⟨hback, hm, hn, hk⟩,
    ⟨hwrapA, hwrapB⟩, ⟨hfreshA, hfreshB⟩, ⟨hpackA, hpackB⟩, hst⟩ := hcalls
  obtain ⟨-, C₀, C', ⟨-, hC', -⟩, -, hexport⟩ := hipWrapPath_product (s := unitWrapStore A B C)
    (a := 0) (b := 1) (c := 2) rfl hback hwrapA hwrapB hfreshA hfreshB (Prod.ext hpackA rfl)
    (Prod.ext hpackB rfl) rfl rfl (by decide) (by decide) (Prod.ext hst rfl)
  have hlaunch : wrap64HipExportU64Device plan.desc.m plan.desc.n 1 C'.hipByteLimbs.cells =
      some (rns8Wrap64HipExportU64DeviceOnStream plan.desc.m plan.desc.n C'.hipByteLimbs.cells) := by
    rw [hm, hn]
    exact if_pos (by decide +kernel)
  refine ⟨plan, hplan, workspace, hworkspace, A, hA, B, hB, C, hC, hst, C', hC', _, hlaunch, ?_⟩
  rw [(hexport (fun _ => 0) (fun _ => 0) hlaunch (List.Perm.refl _)).1 0 (by omega) 0 (by omega), hk]
  decide +kernel

end Rns8
