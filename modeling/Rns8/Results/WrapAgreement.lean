import Rns8.Api.CpuMatrices
import Rns8.Hip.WrapWmmaExact
import Rns8.Results.AliasedOutput

/-!
# The wrapping GEMM on every implementation

The CPU GEMM, the tiled and the column-pair kernels and the rocWMMA candidate leave the same bytes in
the output: those of the sums of products modulo `2 ^ 64`, which the byte-plane oracle computes cell by
cell. No accumulator wraps before the diagonals are combined. Packing to byte limbs and exporting
again is the identity, on the CPU and with every variant of the kernels.
-/

namespace Rns8

open ByteLimbs BlockLoop DigitColumns

/-- The byte limbs of a product, over what the buffer held before. -/
def wrapProductLimbs (aLimbs bLimbs c : ℕ → UInt8) (m n k : ℕ) : ℕ → UInt8 := fun i =>
  if i < m * n * 8 then limb (wrapCellDot aLimbs bLimbs n k (i / 8 / n) (i / 8 % n)) (i % 8) else c i

/-- The byte limbs of a matrix, over what the buffer held before. -/
def wrapPackedLimbs (src : ℕ → UInt64) (limbs : ℕ → UInt8) (rows cols ld : ℕ) : ℕ → UInt8 := fun i =>
  if i < rows * cols * 8 then limb (src (i / 8 / cols * ld + i / 8 % cols)) (i % 8) else limbs i

/-- The caller's matrix after an export of byte limbs. -/
def wrapExported (limbs : ℕ → UInt8) (rows cols ld : ℕ) (dst : ℕ → UInt64) : ℕ → UInt64 :=
  storeCells serialRows rows cols ld (fun row col => loadWord limbs (row * cols + col)) dst

/-! ### The CPU -/

section Cpu

variable {ι : Type} [DecidableEq ι] {g : WrapArgs ι}

/-- The whole output of a row loop whose right operand is separate. -/
theorem wrapLoop_eq (hC : g.C.cols = g.n) (hA : g.A.cols = g.k) (hB : g.B.cols = g.n)
    (hbc : g.B.buf ≠ g.C.buf) (hac : g.A.buf = g.C.buf → g.A.cols = g.C.cols)
    (team : RowTeam WrapAction) (mem : Limbs ι) : wrapLoop g team mem g.C.buf =
      wrapProductLimbs (mem g.A.buf) (mem g.B.buf) (mem g.C.buf) g.m g.n g.k := by
  have hshape : g.Shaped := ⟨hC, hA.ge, hac, fun hbuf => absurd hbuf hbc⟩
  funext i
  unfold wrapProductLimbs
  split
  · next hi =>
    have hcell : i / 8 < g.m * g.n := (Nat.div_lt_iff_lt_mul (by decide)).2 hi
    obtain ⟨hrow, hcol⟩ := RowMajor.div_mod_lt hcell
    have hl : i % 8 < 8 := Nat.mod_lt _ (by decide)
    have hoffset : i = g.rowByte (i / 8 / g.n) (i / 8 % g.n * 8 + i % 8) := by
      have hparts := Nat.div_add_mod (i / 8) g.n
      rw [Nat.mul_comm] at hparts
      rw [rowByte_cell hl, PlaneOperand.limbIndex, hC, hparts]
      omega
    have hbyte := wrapLoop_rowBytes mem hshape (fun hbuf => absurd hbuf hbc) team hrow
      (i / 8 % g.n * 8 + i % 8) (by omega)
    have hdiv : (i / 8 % g.n * 8 + i % 8) / 8 = i / 8 % g.n := by omega
    have hmod : (i / 8 % g.n * 8 + i % 8) % 8 = i % 8 := by omega
    rw [← hoffset, if_pos (by omega), hdiv, hmod, wrapRowAcc_eq] at hbyte
    rw [hbyte]
    simp only [wrapCellDot, wrapDot, PlaneOperand.wrapCell, PlaneOperand.limbIndex, hA, hB, loadWord]
  · next hi =>
    refine wrapLoop_frame team fun r hr t ht h => hi ?_
    rw [h.2, WrapArgs.rowByte, PlaneOperand.limbIndex, hC]
    exact RowMajor.offset_lt (Nat.mod_lt _ (by decide)) (RowMajor.offset_lt (by omega) hr)

end Cpu

/-- **The CPU GEMM.** -/
theorem cpuGemmWrapU64_product {env : CpuEnv} {plan : Plan} {a b c : Handle} {A B C : RnsMatrix}
    {mem mem' : Limbs Handle} (hbc : b ≠ c) (hac : a = c → A = C)
    (h : cpuGemmWrapU64 env plan a b c A B C mem = (.success, mem')) :
    mem' c = wrapProductLimbs (mem a) (mem b) (mem c) plan.desc.m plan.desc.n plan.desc.k ∧
      ∀ other ≠ c, mem' other = mem other := by
  rcases cpuGemmWrapU64_cases env plan a b c A B C mem with ⟨hst, -⟩ | ⟨⟨hA, hB, hC⟩, heq⟩
  · exact absurd (by rw [h]) hst
  · obtain rfl : wrapLoop (wrapArgs plan a b c A B C) env.wrapTeam mem = mem' :=
      (Prod.mk.injEq .. ▸ heq.symm.trans h).2
    exact ⟨wrapLoop_eq (g := wrapArgs plan a b c A B C) hC hA hB hbc
      (fun hbuf => congrArg (fun M : RnsMatrix => M.desc.cols) (hac hbuf)) env.wrapTeam mem,
      fun other hne => wrapLoop_of_ne (g := wrapArgs plan a b c A B C) env.wrapTeam mem hne⟩

/-- The CPU pack. -/
theorem packWrapU64Matrix_eq (matrix : RnsMatrix) (src : ℕ → UInt64) (ld : ℕ) :
    packWrapU64Matrix matrix src ld =
      wrapPackedLimbs src matrix.byteLimbs.cell matrix.desc.rows matrix.desc.cols ld := by
  funext i
  unfold wrapPackedLimbs
  split
  · next hi =>
    have hcell : i / 8 < matrix.desc.rows * matrix.desc.cols :=
      (Nat.div_lt_iff_lt_mul (by decide)).2 hi
    obtain ⟨hrow, hcol⟩ := RowMajor.div_mod_lt hcell
    have hparts := Nat.div_add_mod (i / 8) matrix.desc.cols
    rw [Nat.mul_comm] at hparts
    have hread := packWrapU64Matrix_read matrix src ld hrow hcol (Nat.mod_lt i (show 0 < 8 by decide))
    rw [hparts] at hread
    have hi8 : i / 8 * 8 + i % 8 = i := by omega
    rwa [hi8] at hread
  · next hi =>
    refine LoopFold.foldl_read_of_frame (fun cell : ℕ → UInt8 => cell i) (fun cell row hrow => ?_) _
    have hrow := List.mem_range.1 hrow
    refine if_neg fun h => hi ?_
    calc i < row * matrix.desc.cols * 8 + matrix.desc.cols * 8 := h.2
      _ = (row + 1) * matrix.desc.cols * 8 := by ring
      _ ≤ matrix.desc.rows * matrix.desc.cols * 8 :=
        Nat.mul_le_mul_right _ (Nat.mul_le_mul_right _ hrow)

/-- The CPU export, with its rows in any order. -/
theorem rns8ExportWrapU64_cpu {env : ExportEnv UInt64} {ctx : Context} {plan : Plan} {C : RnsMatrix}
    {dst : ℕ → UInt64} {ld : ℕ} (hbackend : plan.backend = .wrap64ByteLimb)
    (h : (rns8ExportWrapU64 env ctx plan C dst ld).1 = .success) :
    (rns8ExportWrapU64 env ctx plan C dst ld).2 =
      wrapExported C.byteLimbs.cell plan.desc.m plan.desc.n ld dst := by
  unfold rns8ExportWrapU64 at h ⊢
  by_cases haccess : validMatrixAccess plan.desc.m plan.desc.n ld = true
  swap
  · simp [haccess] at h
  by_cases hvalid : validateExportMatrix ctx plan C .wrapU64Mod2_64 .none 0 = .success
  swap
  · simp [haccess, hvalid] at h
  by_cases hcurrent : C.hostByteLimbsCurrent = true
  swap
  · simp [haccess, hvalid, hbackend, hcurrent] at h
  obtain ⟨-, hcols⟩ := validateExportMatrix_dims hvalid
  simp only [validMatrixAccess, Bool.and_eq_true, decide_eq_true_eq] at haccess
  have hcell : (PlaneOperand.mk () C.desc.rows C.desc.cols).wrapCell (fun _ => C.byteLimbs.cell) =
      fun row col => loadWord C.byteLimbs.cell (row * plan.desc.n + col) := by
    funext row col
    simp only [PlaneOperand.wrapCell, PlaneOperand.limbIndex, hcols, loadWord]
  simp only [validMatrixAccess, haccess, decide_true, Bool.and_self, Bool.not_true,
    Bool.false_eq_true, if_false, hvalid, ne_eq, not_true_eq_false, hbackend, if_true, hcurrent,
    hcell, wrapExported]
  exact congrFun (storeCells_serial env.rows haccess.1.2) dst

/-! ### Round trips -/

/-- An export stores the values of its cells. -/
theorem storeCells_congr {β : Type} (rows : RowSchedule) {m n ld : ℕ} {value value' : ℕ → ℕ → β}
    (h : ∀ row < m, ∀ col < n, value row col = value' row col) (dst : ℕ → β) :
    storeCells rows m n ld value dst = storeCells rows m n ld value' dst := by
  refine List.foldl_ext _ _ _ fun dst row hrow => List.foldl_ext _ _ _ fun dst col hcol => ?_
  rw [h row (List.mem_range.1 ((rows.perm m).mem_iff.1 hrow)) col (List.mem_range.1 hcol)]

/-- A packed word is loaded again. -/
theorem loadWord_packed (src : ℕ → UInt64) (limbs : ℕ → UInt8) {rows cols ld cell : ℕ}
    (hcell : cell < rows * cols) : loadWord (wrapPackedLimbs src limbs rows cols ld) cell =
      src (cell / cols * ld + cell % cols) := by
  refine loadWord_limb fun l hl => ?_
  obtain ⟨hdiv, hmod⟩ := RowMajor.offset_parts cell hl
  rw [wrapPackedLimbs, if_pos (RowMajor.offset_lt hl hcell), hdiv, hmod]

/-- **Packing and exporting is the identity**, and touches no other place of the destination. -/
theorem wrapExported_packed (src : ℕ → UInt64) (limbs : ℕ → UInt8) {rows cols ld ld' : ℕ}
    (hld : cols ≤ ld') (dst : ℕ → UInt64) :
    (∀ row < rows, ∀ col < cols,
      wrapExported (wrapPackedLimbs src limbs rows cols ld) rows cols ld' dst (row * ld' + col) =
        src (row * ld + col)) ∧
      ∀ o, (∀ row < rows, ∀ col < cols, o ≠ row * ld' + col) →
        wrapExported (wrapPackedLimbs src limbs rows cols ld) rows cols ld' dst o = dst o := by
  constructor
  · intro row hrow col hcol
    obtain ⟨hdiv, hmod⟩ := RowMajor.offset_parts row hcol
    rw [wrapExported, storeCells_read serialRows dst hrow hcol hld,
      loadWord_packed src limbs (RowMajor.offset_lt hcol hrow), hdiv, hmod]
  · intro o ho
    exact (storeCells_stores serialRows hld dst o).2 fun ⟨row, hrow, col, hcol, heq⟩ =>
      ho row hrow col hcol heq

/-! ### The accumulators of the kernels -/

/-- The diagonals of a stored cell after any number of passes, for an accumulator that holds the
dispatched K range. -/
theorem wrapDiagonals_take {α : Type} [Add α] [OfNat α 0] {accumulator : WrapAccumulator α}
    {toNat : α → ℕ} {limit : ℕ} (h : accumulator.Exact toNat limit) {aLimbs bLimbs : ℕ → UInt8}
    {m n k threads : ℕ} {schedule : BlockSchedule threads UInt64}
    {tileCol tileRow localRow localCol : ℕ} (hlimit : k * (8 * (255 * 255)) < limit)
    (hthreads : 0 < threads) (hrow : localRow < 16) (hcol : localCol < 16)
    (hm : tileRow * 16 + localRow < m) (hn : tileCol * 16 + localCol < n) (p : ℕ) {d : ℕ}
    (hd : d < 8) :
    toNat (wrapDiagonals accumulator ((wrapPasses aLimbs bLimbs m n k schedule tileCol tileRow
      localRow localCol).take p) d) =
      (((wrapPasses aLimbs bLimbs m n k schedule tileCol tileRow localRow localCol).take p).map
        (passColumn d)).sum := by
  refine wrapDiagonals_toNat h hd _ (lt_of_le_of_lt (sum_passColumn_le hd _) ?_)
  have hlength : (wrapPasses aLimbs bLimbs m n k schedule tileCol tileRow localRow localCol).length =
      k := by rw [wrapPasses_eq hthreads hrow hcol hm hn, List.length_map, List.length_range]
  refine lt_of_le_of_lt (Nat.mul_le_mul_right _ ?_) hlimit
  rw [List.length_take, hlength]
  exact Nat.min_le_right p k

/-- The diagonals of a stored cell of the candidate after any number of calls. -/
theorem wmmaSharedAfter_take {env : WmmaEnv} (hmma : MmaSyncExact env.mma)
    {aLimbs bLimbs : ℕ → UInt8} {m n k blockX blockY localRow localCol : ℕ} (hk : k ≤ 32768)
    (hrow : localRow < 16) (hcol : localCol < 16) (hm : blockY * 16 + localRow < m)
    (hn : blockX * 16 + localCol < n) (p : ℕ) {d : ℕ} (hd : d < 8) :
    ((wmmaSharedAfter env aLimbs bLimbs m n k blockX blockY ((wmmaPasses k).take p)).diagonalAcc
      (d * 16 * 16 + (localRow * 16 + localCol))).toInt =
        (((wmmaPasses k).take p).map (wmmaTerm aLimbs bLimbs n k (blockY * 16 + localRow)
          (blockX * 16 + localCol) d)).sum := by
  refine wmmaSharedAfter_diagonal hmma hrow hcol hm hn hd _
    (fun pass hpass => wmmaPasses_coefficient (List.mem_of_mem_take hpass)) ?_
  have hlength := List.length_take_le' p (wmmaPasses k)
  rw [wmmaPasses_length] at hlength
  omega

/-! ### All implementations -/

/-- What all implementations of the wrapping GEMM have in common. -/
structure WrapImplementations : Prop where
  /-- The CPU GEMM, with an output that is not the right operand. -/
  cpu : ∀ {env : CpuEnv} {plan : Plan} {a b c : Handle} {A B C : RnsMatrix} {mem mem' : Limbs Handle},
    b ≠ c → (a = c → A = C) → cpuGemmWrapU64 env plan a b c A B C mem = (.success, mem') →
      mem' c = wrapProductLimbs (mem a) (mem b) (mem c) plan.desc.m plan.desc.n plan.desc.k ∧
        ∀ other ≠ c, mem' other = mem other
  /-- The byte-plane oracle and the word oracle. -/
  oracle : ∀ (U V : ℕ → UInt64) (lda ldb row col k : ℕ),
    wrap64LowDiagonalBytePairGemmCell U lda V ldb row col k =
        wrapDot k (fun kk => U (row * lda + kk)) (fun kk => V (kk * ldb + col)) ∧
      wrap64ByteLimbGemmCell U lda V ldb row col k =
        wrapDot k (fun kk => U (row * lda + kk)) fun kk => V (kk * ldb + col)
  /-- The dispatched device kernels, in any order of their threads. -/
  device : ∀ {env : WrapGemmEnv} {aLimbs bLimbs : ℕ → UInt8} {m n k : ℕ}
    {launch : WrapLaunch UInt8} {order : List WrapThread},
    wrap64HipGemmByteLimbsDeviceResident env aLimbs bLimbs m n k = some launch →
      order.Perm launch.threads → ∀ c : ℕ → UInt8,
        launch.run order c = wrapProductLimbs aLimbs bLimbs c m n k
  /-- Their diagonals after any number of passes: 32 bits for the K range that is dispatched to them,
  64 bits for every other. -/
  deviceDiagonals : ∀ {threads : ℕ} (schedule : BlockSchedule threads UInt64)
    (aLimbs bLimbs : ℕ → UInt8) {m n k tileCol tileRow localRow localCol d : ℕ} (p : ℕ),
    checkedWrap64GemmCompactLayouts m n k = true → 0 < threads → localRow < 16 → localCol < 16 →
      tileRow * 16 + localRow < m → tileCol * 16 + localCol < n → d < 8 →
        (wrap64HipUsesU32Accumulator k = true →
          (wrapDiagonals u32Accumulator ((wrapPasses aLimbs bLimbs m n k schedule tileCol tileRow
            localRow localCol).take p) d).toNat = (((wrapPasses aLimbs bLimbs m n k schedule tileCol
              tileRow localRow localCol).take p).map (passColumn d)).sum) ∧
        (wrapDiagonals u64Accumulator ((wrapPasses aLimbs bLimbs m n k schedule tileCol tileRow
          localRow localCol).take p) d).toNat = (((wrapPasses aLimbs bLimbs m n k schedule tileCol
            tileRow localRow localCol).take p).map (passColumn d)).sum
  /-- The rocWMMA candidate, in any order of its threads. -/
  candidate : ∀ {env : WmmaEnv} {aLimbs bLimbs : ℕ → UInt8} {m n k : ℕ} {launch : WrapLaunch UInt8}
    {order : List WrapThread}, MmaSyncExact env.mma →
      rns8RocwmmaWrap64GemmByteLimbsCandidateDevice env aLimbs bLimbs m n k = some launch →
        order.Perm launch.threads → ∀ c : ℕ → UInt8,
          launch.run order c = wrapProductLimbs aLimbs bLimbs c m n k
  /-- Its diagonals after any number of component products, as integers. -/
  candidateDiagonals : ∀ {env : WmmaEnv} {aLimbs bLimbs : ℕ → UInt8} {m n k : ℕ}
    {launch : WrapLaunch UInt8} {blockX blockY localRow localCol d : ℕ} (p : ℕ),
    MmaSyncExact env.mma →
      rns8RocwmmaWrap64GemmByteLimbsCandidateDevice env aLimbs bLimbs m n k = some launch →
        localRow < 16 → localCol < 16 → blockY * 16 + localRow < m → blockX * 16 + localCol < n →
          d < 8 →
            ((wmmaSharedAfter env aLimbs bLimbs m n k blockX blockY
              ((wmmaPasses k).take p)).diagonalAcc
                (d * 16 * 16 + (localRow * 16 + localCol))).toInt =
              (((wmmaPasses k).take p).map (wmmaTerm aLimbs bLimbs n k (blockY * 16 + localRow)
                (blockX * 16 + localCol) d)).sum
  /-- The pack of the CPU. -/
  packCpu : ∀ (matrix : RnsMatrix) (src : ℕ → UInt64) (ld : ℕ), packWrapU64Matrix matrix src ld =
    wrapPackedLimbs src matrix.byteLimbs.cell matrix.desc.rows matrix.desc.cols ld
  /-- The pack kernels: scalar, vectorized and four cells for each thread. -/
  packDevice : ∀ {src : ℕ → UInt64} {rows cols ld : ℕ} {launch : WrapLaunch UInt8}
    {order : List WrapThread}, wrap64HipPackU64Device rows cols ld src = some launch →
      order.Perm launch.threads → ∀ limbs : ℕ → UInt8,
        launch.run order limbs = wrapPackedLimbs src limbs rows cols ld
  /-- The export of the CPU, with its rows in any order. -/
  exportCpu : ∀ {env : ExportEnv UInt64} {ctx : Context} {plan : Plan} {C : RnsMatrix}
    {dst : ℕ → UInt64} {ld : ℕ}, plan.backend = .wrap64ByteLimb →
      (rns8ExportWrapU64 env ctx plan C dst ld).1 = .success →
        (rns8ExportWrapU64 env ctx plan C dst ld).2 =
          wrapExported C.byteLimbs.cell plan.desc.m plan.desc.n ld dst
  /-- The export kernels, with the copy of the compact words to the caller's rows. -/
  exportDevice : ∀ {limbs : ℕ → UInt8} {rows cols ld : ℕ} {launch : WrapLaunch UInt64}
    {order : List WrapThread}, wrap64HipExportU64Device rows cols ld limbs = some launch →
      order.Perm launch.threads → ∀ compact dst : ℕ → UInt64,
        storeCells serialRows rows cols ld
          (fun row col => launch.run order compact (row * cols + col)) dst =
            wrapExported limbs rows cols ld dst
  /-- Packing and exporting is the identity on the cells and touches nothing else. -/
  roundTrip : ∀ (src dst : ℕ → UInt64) (limbs : ℕ → UInt8) {rows cols ld ld' : ℕ}, cols ≤ ld' →
    (∀ row < rows, ∀ col < cols,
      wrapExported (wrapPackedLimbs src limbs rows cols ld) rows cols ld' dst (row * ld' + col) =
        src (row * ld + col)) ∧
      ∀ o, (∀ row < rows, ∀ col < cols, o ≠ row * ld' + col) →
        wrapExported (wrapPackedLimbs src limbs rows cols ld) rows cols ld' dst o = dst o

/-- **All implementations of the wrapping GEMM agree**: each leaves the byte limbs of the sums of
products modulo `2 ^ 64`, no accumulator of a dispatched kernel wraps, and packing followed by exporting
is the identity. -/
theorem wrapGemm_implementations : WrapImplementations where
  cpu := cpuGemmWrapU64_product
  oracle := fun U V lda ldb row col k => ⟨wrap64LowDiagonalBytePairGemmCell_eq U lda V ldb row col k,
    wrap64ByteLimbGemmCell_eq U lda V ldb row col k⟩
  device := fun h horder c => funext (wrap64HipGemm_run h horder c)
  deviceDiagonals := by
    intro threads schedule aLimbs bLimbs m n k tileCol tileRow localRow localCol d p hchecks hthreads
      hrow hcol hm hn hd
    obtain ⟨-, -, -, hk⟩ := checkedWrap64GemmCompactLayouts_bounds hchecks
    exact ⟨fun huse => wrapDiagonals_take u32Accumulator_exact
        (wrap64HipUsesU32Accumulator_bound huse) hthreads hrow hcol hm hn p hd,
      wrapDiagonals_take u64Accumulator_exact (by omega) hthreads hrow hcol hm hn p hd⟩
  candidate := fun hmma h horder c => funext (rocwmmaWrap64_run hmma h horder c)
  candidateDiagonals := fun p hmma h hrow hcol hm hn hd =>
    wmmaSharedAfter_take hmma (rocwmmaWrap64_bound h) hrow hcol hm hn p hd
  packCpu := packWrapU64Matrix_eq
  packDevice := fun h horder limbs => funext (wrap64HipPack_run h horder limbs)
  exportCpu := rns8ExportWrapU64_cpu
  exportDevice := by
    intro limbs rows cols ld launch order h horder compact dst
    refine storeCells_congr serialRows (fun row hrow col hcol => ?_) dst
    rw [wrap64HipExport_run h horder, if_pos (RowMajor.offset_lt hcol hrow)]
  roundTrip := fun src dst limbs _ _ _ _ hld => wrapExported_packed src limbs hld dst

/-! ### A product of one cell -/

/-- A matrix unit that computes what is documented. -/
def referenceMma (a b : ℕ → Int8) (index : ℕ) : Int32 :=
  Int32.ofInt (∑ kk ∈ Finset.range 16, (a (index / 16 * 16 + kk)).toInt *
    (b (index % 16 * 16 + kk)).toInt)

theorem referenceMma_exact : MmaSyncExact referenceMma := by
  intro a b row _ col hcol hsum
  obtain ⟨hdiv, hmod⟩ := RowMajor.offset_parts row hcol
  have hlt := abs_lt.1 hsum
  rw [referenceMma, hdiv, hmod, Int32.toInt_ofInt_of_le hlt.1.le hlt.2]

/-- Blocks whose threads run in ascending order. -/
def serialBlocks (threads : ℕ) : BlockSchedule threads UInt64 :=
  ⟨fun _ _ _ => List.range threads, fun _ _ _ => List.Perm.refl _, fun _ => 0⟩

theorem serialWave_pos : 0 < 32 := by decide

/-- A wave of 32 threads that run in ascending order, on the reference unit. -/
def serialWave : WmmaEnv :=
  ⟨32, serialWave_pos, fun _ _ _ => List.range 32, fun _ _ _ => List.Perm.refl _,
    ⟨fun _ => 0, fun _ => 0, fun _ => 0, fun _ => 0, 0⟩, referenceMma⟩

/-- The word `2 ^ 64 - 1` in byte limbs. -/
def minusOneLimbs (_ : ℕ) : UInt8 := 255

/-- The word `3` in byte limbs. -/
def threeLimbs (i : ℕ) : UInt8 := if i = 0 then 3 else 0

theorem wrapProductLimbs_minus_three : ∀ i < 8,
    wrapProductLimbs minusOneLimbs threeLimbs (fun _ => 0) 1 1 1 i = limb 0xfffffffffffffffd i := by
  decide +kernel

/-- A product of a row of two words and a matrix of four. -/
def wrapRowDesc : GemmDesc where
  semantics := .wrapU64Mod2_64
  boundKind := .none
  requestedBackend := .wrap64ByteLimb
  m := 1
  n := 2
  k := 2

/-- Words in byte limbs. -/
def wordLimbs (words : List UInt64) (i : ℕ) : UInt8 := limb (words.getD (i / 8) 0) (i % 8)

/-- A current matrix of the CPU backend. -/
def wrapWordMatrix (rows cols : ℕ) (words : List UInt64) : RnsMatrix where
  desc := makeMatrixDesc rows cols .wrapU64Mod2_64 .none 0 0 0
  backend := .wrap64ByteLimb
  rnsPrefix := 0
  byteLimbs := ⟨rows * cols * 8, wordLimbs words⟩
  hostResiduesCurrent := false
  hostByteLimbsCurrent := true

/-- The row `(2 ^ 64 - 1, 3)`, the matrix that it is multiplied with, and an output of zeros. -/
def wrapRowStore : Store
  | 0 => some (wrapWordMatrix 1 2 [0xffffffffffffffff, 3])
  | 1 => some (wrapWordMatrix 2 2 [1, 2, 0xffffffffffffffff, 1])
  | 2 => some (wrapWordMatrix 1 2 [])
  | _ => none

theorem wrapGemm_implementations_minus_three :
    (∃ plan ∈ (rns8CreatePlan { backend := .wrap64ByteLimb } wrapRowDesc).toOption,
      ∃ A ∈ wrapRowStore 0, ∃ B ∈ wrapRowStore 1, ∃ C ∈ wrapRowStore 2, ∃ mem',
        cpuGemmWrapU64 .serial plan 0 1 2 A B C wrapRowStore.limbs = (.success, mem') ∧
          ∀ i < 16, mem' 2 i = wordLimbs [0xfffffffffffffffc, 1] i) ∧
    (∃ launch, wrap64HipGemmByteLimbsDeviceResident ⟨false, serialBlocks _, serialBlocks _⟩
        minusOneLimbs threeLimbs 1 1 1 = some launch ∧
      ∀ i < 8, launch.run launch.threads (fun _ => 0) i = limb 0xfffffffffffffffd i) ∧
    ∃ launch, rns8RocwmmaWrap64GemmByteLimbsCandidateDevice serialWave minusOneLimbs threeLimbs 1 1 1 =
        some launch ∧
      ∀ i < 8, launch.run launch.threads (fun _ => 0) i = limb 0xfffffffffffffffd i := by
  have hdevice : checkedWrap64GemmCompactLayouts 1 1 1 = true := by decide +kernel
  have hcandidate : 0 < 1 ∧ 0 < 1 ∧ 0 < 1 ∧ 1 ≤ intMax ∧ 1 ≤ intMax ∧ 1 ≤ intMax ∧ 1 ≤ 32768 := by
    decide +kernel
  have hcpu : ∃ plan ∈ (rns8CreatePlan { backend := .wrap64ByteLimb } wrapRowDesc).toOption,
      (plan.desc.m = 1 ∧ plan.desc.n = 2 ∧ plan.desc.k = 2) ∧
        ∃ A ∈ wrapRowStore 0, ∃ B ∈ wrapRowStore 1, ∃ C ∈ wrapRowStore 2,
          (cpuGemmWrapU64 .serial plan 0 1 2 A B C wrapRowStore.limbs).1 = .success := by
    decide +kernel
  obtain ⟨plan, hplan, ⟨hm, hn, hk⟩, A, hA, B, hB, C, hC, hsuccess⟩ := hcpu
  obtain ⟨mem', hrun⟩ : ∃ mem', cpuGemmWrapU64 .serial plan 0 1 2 A B C wrapRowStore.limbs =
      (.success, mem') := ⟨_, Prod.ext hsuccess rfl⟩
  refine ⟨⟨plan, hplan, A, hA, B, hB, C, hC, mem', hrun, fun i hi => ?_⟩,
    ⟨_, if_pos hdevice, fun i hi => ?_⟩, ⟨_, if_pos hcandidate, fun i hi => ?_⟩⟩
  · have hproduct : ∀ i < 16, wrapProductLimbs (wrapRowStore.limbs 0) (wrapRowStore.limbs 1)
        (wrapRowStore.limbs 2) 1 2 2 i = wordLimbs [0xfffffffffffffffc, 1] i := by
      decide +kernel
    have hdistinct : (0 : Handle) = 2 → A = C := fun h => absurd h (by decide)
    rw [(wrapGemm_implementations.cpu (by decide) hdistinct hrun).1, hm, hn, hk]
    exact hproduct i hi
  · rw [wrapGemm_implementations.device (if_pos hdevice) (List.Perm.refl _)]
    exact wrapProductLimbs_minus_three i hi
  · rw [wrapGemm_implementations.candidate referenceMma_exact (if_pos hcandidate) (List.Perm.refl _)]
    exact wrapProductLimbs_minus_three i hi

end Rns8
