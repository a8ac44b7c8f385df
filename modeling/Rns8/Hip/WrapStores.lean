import Rns8.Hip.WrapExact

/-!
# The stores of the byte-limb launches

The threads of an accepted launch share out the bytes or the words of the matrix. In any order they
leave the words of `wrapCellDot`, of the packed source or of the byte limbs, and nothing else.
-/

namespace Rns8

open ByteLimbs BlockLoop DigitColumns IndexedStores

/-! ### Launches -/

section Launches

variable {ν : Type} {launch : WrapLaunch ν} {total : ℕ}

theorem WrapLaunch.mem_threads {t : WrapThread} :
    t ∈ launch.threads ↔ t.blockX < launch.blocksX ∧ t.blockY < launch.blocksY ∧
      t.threadX < launch.threadsX ∧ t.threadY < launch.threadsY := by
  rw [WrapLaunch.threads, List.mem_map]
  constructor
  · rintro ⟨⟨⟨y, x⟩, ⟨v, u⟩⟩, h, rfl⟩
    obtain ⟨hblock, hthread⟩ := List.mem_product.1 h
    obtain ⟨hy, hx⟩ := List.mem_product.1 hblock
    obtain ⟨hv, hu⟩ := List.mem_product.1 hthread
    exact ⟨List.mem_range.1 hx, List.mem_range.1 hy, List.mem_range.1 hu, List.mem_range.1 hv⟩
  · rintro ⟨hx, hy, hu, hv⟩
    exact ⟨((t.blockY, t.blockX), (t.threadY, t.threadX)),
      List.mem_product.2 ⟨List.mem_product.2 ⟨List.mem_range.2 hy, List.mem_range.2 hx⟩,
        List.mem_product.2 ⟨List.mem_range.2 hv, List.mem_range.2 hu⟩⟩, rfl⟩

theorem WrapLaunch.threads_nodup : launch.threads.Nodup := by
  refine List.Nodup.map ?_ ((List.nodup_range.product List.nodup_range).product
    (List.nodup_range.product List.nodup_range))
  rintro ⟨⟨y, x⟩, ⟨v, u⟩⟩ ⟨⟨y', x'⟩, ⟨v', u'⟩⟩ h
  simp only [WrapThread.mk.injEq] at h
  obtain ⟨rfl, rfl, rfl, rfl⟩ := h
  rfl

/-- The memory after a launch whose threads share out the indices of its stores. -/
theorem WrapLaunch.run_eq {indices : WrapThread → List ℕ} {value : ℕ → ν}
    (h : Partitions launch.threads indices total)
    (hkernel : ∀ t ∈ launch.threads, launch.kernel t = (indices t).map fun i => (i, value i))
    {order : List WrapThread} (horder : order.Perm launch.threads) (memory : ℕ → ν) (i : ℕ) :
    launch.run order memory i = if i < total then value i else memory i := by
  have hstores : order.flatMap launch.kernel = IndexedStores.run indices value order :=
    List.flatMap_congr fun t ht => hkernel t (horder.mem_iff.1 ht)
  rw [WrapLaunch.run, hstores]
  exact h.foldl_run horder value memory i

/-- The cells of a thread that has `width` of the 16 columns of a tile. -/
def tileCells (m n width threadsX : ℕ) (t : WrapThread) : List ℕ :=
  if t.blockY * 16 + t.threadY < m then
    (chunk width n (t.blockX * threadsX + t.threadX)).map fun c => (t.blockY * 16 + t.threadY) * n + c
  else []

theorem tileCells_partitions {m n width : ℕ} (hx : launch.blocksX = (n + 16 - 1) / 16)
    (hy : launch.blocksY = (m + 16 - 1) / 16) (htx : launch.threadsX * width = 16)
    (hty : launch.threadsY = 16) :
    Partitions launch.threads (tileCells m n width launch.threadsX) (m * n) := by
  have hw : 0 < width := Nat.pos_of_ne_zero fun h0 => by simp [h0] at htx
  have hpos : 0 < launch.threadsX := Nat.pos_of_ne_zero fun h0 => by simp [h0] at htx
  refine partitions_rows WrapLaunch.threads_nodup ?_ ?_ hw
  -- row and column group determine block and thread
  · intro t ht u hu hrow hgroup
    obtain ⟨-, -, htx, hty'⟩ := WrapLaunch.mem_threads.1 ht
    obtain ⟨-, -, hux, huy⟩ := WrapLaunch.mem_threads.1 hu
    rw [hty] at hty' huy
    obtain ⟨hblockY, hthreadY⟩ := RowMajor.eq_of_offset_eq hty' huy hrow
    obtain ⟨hblockX, hthreadX⟩ := RowMajor.eq_of_offset_eq htx hux hgroup
    cases t
    cases u
    simp_all
  -- and every row and group has its thread
  · intro r hr g hg
    have hblock : g / launch.threadsX < (n + 16 - 1) / 16 := by
      have hdiv := Nat.div_mul_le_self g launch.threadsX
      have hle : g / launch.threadsX * 16 ≤ g * width := by
        rw [← htx, ← Nat.mul_assoc]
        exact Nat.mul_le_mul_right _ hdiv
      omega
    refine ⟨⟨g / launch.threadsX, r / 16, g % launch.threadsX, r % 16⟩,
      WrapLaunch.mem_threads.2 ⟨?_, ?_, Nat.mod_lt _ hpos, ?_⟩, ?_, ?_⟩
    · rw [hx]
      exact hblock
    · rw [hy]
      change r / 16 < _
      omega
    · rw [hty]
      exact Nat.mod_lt _ (by decide)
    · change r / 16 * 16 + r % 16 = r
      omega
    · rw [Nat.mul_comm]
      exact Nat.div_add_mod g launch.threadsX

/-- The cells of a thread that has four cells in a row. -/
def fourCells (total : ℕ) (t : WrapThread) : List ℕ := chunk 4 total (t.blockX * 256 + t.threadX)

theorem fourCells_partitions (hx : launch.blocksX = ((total + 3) / 4 + 256 - 1) / 256)
    (hy : launch.blocksY = 1) (htx : launch.threadsX = 256) (hty : launch.threadsY = 1) :
    Partitions launch.threads (fourCells total) total := by
  refine partitions_chunk WrapLaunch.threads_nodup ?_ ?_ (by decide)
  · intro t ht u hu hnumber
    obtain ⟨-, hty, htx', hty'⟩ := WrapLaunch.mem_threads.1 ht
    obtain ⟨-, huy, hux', huy'⟩ := WrapLaunch.mem_threads.1 hu
    rw [htx] at htx' hux'
    obtain ⟨hblockX, hthreadX⟩ := RowMajor.eq_of_offset_eq htx' hux' hnumber
    cases t
    cases u
    simp_all
  · intro g hg
    refine ⟨⟨g / 256, 0, g % 256, 0⟩, WrapLaunch.mem_threads.2 ⟨?_, ?_, ?_, ?_⟩, ?_⟩
    · rw [hx]
      change g / 256 < _
      omega
    · rw [hy]
      exact Nat.one_pos
    · rw [htx]
      exact Nat.mod_lt _ (by decide)
    · rw [hty]
      exact Nat.one_pos
    · change g / 256 * 256 + g % 256 = g
      omega

end Launches

/-! ### Stores of words -/

/-- The bytes of words at cells. -/
theorem flatMap_storeU64Limbs (word : ℕ → UInt64) (cells : WrapThread → List ℕ) (t : WrapThread) :
    (cells t).flatMap (fun cell => storeU64LimbsVectorized (cell * 8) (word cell)) =
      (expand 8 cells t).map fun i => (i, limb (word (i / 8)) (i % 8)) := by
  rw [expand, List.map_flatMap]
  refine List.flatMap_congr fun cell _ => ?_
  rw [storeU64LimbsVectorized_eq, List.map_map]
  refine List.map_congr_left fun l hl => ?_
  obtain ⟨hdiv, hmod⟩ := RowMajor.offset_parts cell (List.mem_range.1 hl)
  dsimp only [Function.comp_apply]
  rw [hdiv, hmod]

/-- Guarded passes are the passes over the guarded cells. -/
theorem flatMap_guard {β : Type*} (width total base : ℕ) (f : ℕ → List β) :
    ((List.range width).flatMap fun j => if base + j < total then f j else []) =
      (List.range (min width (total - base))).flatMap f := by
  rw [← filter_range_add, List.flatMap_def, List.flatMap_def]
  induction List.range width with
  | nil => rfl
  | cons j l ih =>
    by_cases h : base + j < total
    · simp [h, ih]
    · simp [h, ih]

/-- The stores of a thread that has `width` of the columns of a tile. -/
theorem tileCells_stores {β : Type*} (m n width threadsX : ℕ) (t : WrapThread) (f : ℕ → List β)
    (hwidth : threadsX * width = 16) :
    ((List.range width).flatMap fun j =>
      if t.blockY * 16 + t.threadY < m ∧ t.blockX * 16 + (t.threadX * width + j) < n then
        f ((t.blockY * 16 + t.threadY) * n + (t.blockX * 16 + (t.threadX * width + j)))
      else []) = (tileCells m n width threadsX t).flatMap f := by
  have hbase : ∀ j, t.blockX * 16 + (t.threadX * width + j) =
      (t.blockX * threadsX + t.threadX) * width + j := fun j => by
    rw [← hwidth]
    ring
  unfold tileCells
  split
  · next hrow =>
    simp only [hrow, true_and, hbase]
    rw [flatMap_guard, chunk, List.map_map, List.flatMap_map]
    rfl
  · next hrow => simp [hrow]

theorem wrapGridDim_eq {count : ℕ} (h : count < 2 ^ 32) : wrapGridDim count = count :=
  Nat.mod_eq_of_lt h

/-- Dimensions whose cells fit `int` have few blocks. -/
theorem dims_of_cells {rows cols : ℕ} (h : checkedMatrixElementsI32 rows cols = true) :
    rows ≤ 2147483647 ∧ cols ≤ 2147483647 ∧ rows * cols ≤ 2147483647 := by
  obtain ⟨hr, hc, hcells⟩ := checkedMatrixElementsI32_le h
  exact ⟨(Nat.le_mul_of_pos_right rows hc).trans hcells,
    (Nat.le_mul_of_pos_left cols hr).trans hcells, hcells⟩

/-! ### The GEMM launch -/

section Gemm

variable {α : Type} [Add α] [OfNat α 0] {accumulator : WrapAccumulator α} {toNat : α → ℕ}
  {limit : ℕ} {aLimbs bLimbs : ℕ → UInt8} {m n k threads : ℕ}
  {schedule : BlockSchedule threads UInt64}

/-- A thread stores the words of its cells. -/
theorem wrap64ByteGemm36_eq (h : accumulator.Exact toNat limit)
    (hlimit : k * (8 * (255 * 255)) < limit) (hword : k * (8 * (255 * 255)) < 2 ^ 63)
    (hthreads : 0 < threads) {width threadsX : ℕ} (hwidth : threadsX * width = 16) {t : WrapThread}
    (htx : t.threadX < threadsX) (hty : t.threadY < 16) :
    wrap64ByteGemm36 aLimbs bLimbs m n k schedule accumulator width t =
      (expand 8 (tileCells m n width threadsX) t).map fun i =>
        (i, limb (wrapCellDot aLimbs bLimbs n k (i / 8 / n) (i / 8 % n)) (i % 8)) := by
  rw [← flatMap_storeU64Limbs (fun cell => wrapCellDot aLimbs bLimbs n k (cell / n) (cell % n)),
    ← tileCells_stores m n width threadsX t _ hwidth]
  refine List.flatMap_congr fun j hj => ?_
  have hj := List.mem_range.1 hj
  have hcol : t.threadX * width + j < 16 := hwidth ▸ RowMajor.offset_lt hj htx
  split
  · next hinside =>
    obtain ⟨hrow, hcolumn⟩ := hinside
    rw [if_pos ⟨hrow, hcolumn⟩, low64FromDiagonals_passes h hlimit hword hthreads hty hcol hrow hcolumn]
    obtain ⟨hdiv, hmod⟩ := RowMajor.offset_parts (t.blockY * 16 + t.threadY) hcolumn
    rw [hdiv, hmod]
    rfl
  · next hinside => rw [if_neg hinside]

/-- What the checks before a launch bound. -/
theorem checkedWrap64GemmCompactLayouts_bounds
    (h : checkedWrap64GemmCompactLayouts m n k = true) :
    m ≤ 2147483647 ∧ n ≤ 2147483647 ∧ 0 < k ∧ k ≤ 2147483647 := by
  simp only [checkedWrap64GemmCompactLayouts, checkedDiagonalAccumulatorCapacity, Bool.and_eq_true,
    decide_eq_true_eq, and_assoc] at h
  obtain ⟨hmn, hmk, hk, -, -⟩ := h
  exact ⟨(dims_of_cells hmn).1, (dims_of_cells hmn).2.1, hk, (dims_of_cells hmk).2.1⟩

/-- A launch of tiles whose accumulators compute exactly. -/
theorem wrap64ByteGemm36_run (h : accumulator.Exact toNat limit)
    (hlimit : k * (8 * (255 * 255)) < limit) (hword : k * (8 * (255 * 255)) < 2 ^ 63)
    (hthreads : 0 < threads) {width threadsX : ℕ} (hwidth : threadsX * width = 16)
    (hm : m ≤ 2147483647) (hn : n ≤ 2147483647) {launch : WrapLaunch UInt8}
    (hlaunch : launch = ⟨wrapGridDim ((n + 16 - 1) / 16), wrapGridDim ((m + 16 - 1) / 16), threadsX,
      16, wrap64ByteGemm36 aLimbs bLimbs m n k schedule accumulator width⟩)
    {order : List WrapThread} (horder : order.Perm launch.threads) (c : ℕ → UInt8) (i : ℕ) :
    launch.run order c i =
      if i < m * n * 8 then limb (wrapCellDot aLimbs bLimbs n k (i / 8 / n) (i / 8 % n)) (i % 8)
      else c i := by
  have hpartitions : Partitions launch.threads (tileCells m n width threadsX) (m * n) := by
    subst hlaunch
    exact tileCells_partitions (wrapGridDim_eq (by omega)) (wrapGridDim_eq (by omega)) hwidth rfl
  have hkernel : ∀ t ∈ launch.threads, launch.kernel t =
      (expand 8 (tileCells m n width threadsX) t).map fun i =>
        (i, limb (wrapCellDot aLimbs bLimbs n k (i / 8 / n) (i / 8 % n)) (i % 8)) := by
    intro t ht
    subst hlaunch
    obtain ⟨-, -, htx, hty⟩ := WrapLaunch.mem_threads.1 ht
    exact wrap64ByteGemm36_eq h hlimit hword hthreads hwidth htx hty
  exact WrapLaunch.run_eq (hpartitions.expand (show 0 < 8 by decide)) hkernel horder c i

/-- The K range of the 32-bit diagonals. -/
theorem wrap64HipUsesU32Accumulator_bound (h : wrap64HipUsesU32Accumulator k = true) :
    k * (8 * (255 * 255)) < 2 ^ 32 := by
  simp only [wrap64HipUsesU32Accumulator, Bool.and_eq_true, decide_eq_true_eq] at h
  have hk : k ≤ 4096 := h.2
  omega

/-- **The memory after a GEMM launch**: the words of the sums of products, and nothing else. -/
theorem wrap64HipGemm_run {env : WrapGemmEnv} {launch : WrapLaunch UInt8}
    (h : wrap64HipGemmByteLimbsDeviceResident env aLimbs bLimbs m n k = some launch)
    {order : List WrapThread} (horder : order.Perm launch.threads) (c : ℕ → UInt8) (i : ℕ) :
    launch.run order c i =
      if i < m * n * 8 then limb (wrapCellDot aLimbs bLimbs n k (i / 8 / n) (i / 8 % n)) (i % 8)
      else c i := by
  unfold wrap64HipGemmByteLimbsDeviceResident at h
  split at h
  swap
  · cases h
  next hchecks =>
  obtain ⟨hm, hn, hkpos, hk⟩ := checkedWrap64GemmCompactLayouts_bounds hchecks
  have hword : k * (8 * (255 * 255)) < 2 ^ 63 := by omega
  have hlaunch := (Option.some.inj h).symm
  unfold rns8Wrap64HipGemmByteLimbsDeviceOnStream at hlaunch
  dsimp only at hlaunch
  split at hlaunch
  · next hpair =>
    have huse : wrap64HipUsesU32Accumulator k = true := by
      simp only [wrap64HipUsesColpairKernel, Bool.and_eq_true] at hpair
      exact hpair.1.1.2
    exact wrap64ByteGemm36_run u32Accumulator_exact (wrap64HipUsesU32Accumulator_bound huse) hword
      (by decide) (by rfl) hm hn hlaunch horder c i
  · split at hlaunch
    · next huse =>
      exact wrap64ByteGemm36_run u32Accumulator_exact (wrap64HipUsesU32Accumulator_bound huse) hword
        (by decide) (by rfl) hm hn hlaunch horder c i
    · exact wrap64ByteGemm36_run u64Accumulator_exact (hword.trans (by decide)) hword (by decide)
        (by rfl) hm hn hlaunch horder c i

end Gemm

/-! ### Packing and exporting -/

section PackExport

variable {rows cols ld : ℕ}

/-- A kernel of one cell for each thread. -/
theorem cellKernel_eq {β : Type*} (t : WrapThread) (f : ℕ → ℕ → List β) :
    (if rows ≤ t.blockY * 16 + t.threadY ∨ cols ≤ t.blockX * 16 + t.threadX then []
      else f (t.blockY * 16 + t.threadY) (t.blockX * 16 + t.threadX)) =
      (tileCells rows cols 1 16 t).flatMap fun cell => f (cell / cols) (cell % cols) := by
  rw [← tileCells_stores rows cols 1 16 t _ (by rfl), List.range_one, List.flatMap_singleton,
    Nat.mul_one, Nat.add_zero]
  by_cases h : t.blockY * 16 + t.threadY < rows ∧ t.blockX * 16 + t.threadX < cols
  · obtain ⟨hdiv, hmod⟩ := RowMajor.offset_parts (t.blockY * 16 + t.threadY) h.2
    rw [if_pos h, if_neg (by omega), hdiv, hmod]
  · rw [if_neg h, if_pos (by omega)]

theorem storeU64LimbsScalar_eq_vectorized : storeU64LimbsScalar = storeU64LimbsVectorized := by
  funext dst value
  rw [storeU64LimbsScalar_eq, storeU64LimbsVectorized_eq]

theorem loadU64LimbsVectorized_eq_scalar : loadU64LimbsVectorized = loadU64LimbsScalar := by
  funext limbs src
  rw [loadU64LimbsVectorized_eq, loadU64LimbsScalar_eq]

theorem fourCells_eq (total : ℕ) (t : WrapThread) :
    ((List.range 4).filter fun lane =>
      decide ((t.blockX * 256 + t.threadX) * 4 + lane < total)).map
        (fun lane => (t.blockX * 256 + t.threadX) * 4 + lane) = fourCells total t := by
  rw [filter_range_add]
  rfl

theorem cellLaunch_partitions {ν : Type} (kernel : WrapThread → List (ℕ × ν))
    (hrows : rows ≤ 2147483647) (hcols : cols ≤ 2147483647) :
    Partitions (cellLaunch rows cols kernel).threads (tileCells rows cols 1 16) (rows * cols) :=
  tileCells_partitions (wrapGridDim_eq (by omega)) (wrapGridDim_eq (by omega)) rfl rfl

theorem contiguous4Launch_partitions {ν : Type} (kernel : WrapThread → List (ℕ × ν))
    (hcells : rows * cols ≤ 2147483647) :
    Partitions (contiguous4Launch rows cols kernel).threads (fourCells (rows * cols))
      (rows * cols) :=
  fourCells_partitions (wrapGridDim_eq (by omega)) rfl rfl rfl

/-- The cell of an offset has its limbs where the offset says. -/
theorem wrap64CompactLimbIndex_cell (cell : ℕ) :
    wrap64CompactLimbIndex (cell / cols) (cell % cols) cols 0 = cell * 8 := by
  have hoffset : cell / cols * cols + cell % cols = cell := by
    rw [Nat.mul_comm]
    exact Nat.div_add_mod cell cols
  rw [wrap64CompactLimbIndex, hoffset, Nat.add_zero]

theorem wrap64PackU64Kernel_eq (src : ℕ → UInt64) (t : WrapThread) :
    wrap64PackU64Kernel rows cols ld storeU64LimbsVectorized src t =
      (expand 8 (tileCells rows cols 1 16) t).map fun i =>
        (i, limb (src (i / 8 / cols * ld + i / 8 % cols)) (i % 8)) := by
  rw [← flatMap_storeU64Limbs fun cell => src (cell / cols * ld + cell % cols)]
  refine (cellKernel_eq t fun row col => storeU64LimbsVectorized
    (wrap64CompactLimbIndex row col cols 0) (src (row * ld + col))).trans ?_
  refine List.flatMap_congr fun cell _ => ?_
  rw [wrap64CompactLimbIndex_cell]

theorem wrap64PackU64Contiguous4Kernel_eq (src : ℕ → UInt64) (t : WrapThread) :
    wrap64PackU64Contiguous4Kernel rows cols src t =
      (expand 8 (fourCells (rows * cols)) t).map fun i => (i, limb (src (i / 8)) (i % 8)) := by
  rw [← flatMap_storeU64Limbs src, ← fourCells_eq, List.flatMap_map]
  rfl

theorem wrap64ExportU64Kernel_eq (limbs : ℕ → UInt8) (t : WrapThread) :
    wrap64ExportU64Kernel rows cols loadU64LimbsScalar limbs t =
      (tileCells rows cols 1 16 t).map fun i => (i, loadWord limbs i) := by
  refine (cellKernel_eq t fun row col => [(row * cols + col,
    loadU64LimbsScalar limbs (wrap64CompactLimbIndex row col cols 0))]).trans ?_
  rw [List.map_eq_flatMap]
  refine List.flatMap_congr fun cell _ => ?_
  have hoffset : cell / cols * cols + cell % cols = cell := by
    rw [Nat.mul_comm]
    exact Nat.div_add_mod cell cols
  rw [wrap64CompactLimbIndex_cell, hoffset]
  rfl

theorem wrap64ExportU64Contiguous4Kernel_eq (limbs : ℕ → UInt8) (t : WrapThread) :
    wrap64ExportU64Contiguous4Kernel rows cols limbs t =
      (fourCells (rows * cols) t).map fun i => (i, loadWord limbs i) := by
  rw [← fourCells_eq, List.map_map, wrap64ExportU64Contiguous4Kernel,
    loadU64LimbsVectorized_eq_scalar]
  rfl

/-- **The memory after a pack launch**: the byte limbs of the source, and nothing else. -/
theorem wrap64HipPack_run {src : ℕ → UInt64} {launch : WrapLaunch UInt8}
    (h : wrap64HipPackU64Device rows cols ld src = some launch)
    {order : List WrapThread} (horder : order.Perm launch.threads) (limbs : ℕ → UInt8) (i : ℕ) :
    launch.run order limbs i =
      if i < rows * cols * 8 then limb (src (i / 8 / cols * ld + i / 8 % cols)) (i % 8)
      else limbs i := by
  unfold wrap64HipPackU64Device at h
  split at h
  swap
  · cases h
  next hchecks =>
  simp only [Bool.and_eq_true, and_assoc] at hchecks
  obtain ⟨hrows, hcols, hcells⟩ := dims_of_cells hchecks.2.1
  rw [← Option.some.inj h] at horder ⊢
  unfold rns8Wrap64HipPackU64DeviceOnStream at horder ⊢
  rw [storeU64LimbsScalar_eq_vectorized, ite_self] at horder ⊢
  split at horder
  · next hfour =>
    have hword : ∀ cell, src (cell / cols * ld + cell % cols) = src cell := fun cell => by
      rw [hfour.1, Nat.mul_comm, Nat.div_add_mod]
    rw [if_pos hfour, hword]
    exact WrapLaunch.run_eq ((contiguous4Launch_partitions _ hcells).expand (show 0 < 8 by decide))
      (fun t _ => wrap64PackU64Contiguous4Kernel_eq src t) horder limbs i
  · next hfour =>
    rw [if_neg hfour]
    exact WrapLaunch.run_eq ((cellLaunch_partitions _ hrows hcols).expand (show 0 < 8 by decide))
      (fun t _ => wrap64PackU64Kernel_eq src t) horder limbs i

/-- **The memory after an export launch**: the words of the byte limbs, and nothing else. -/
theorem wrap64HipExport_run {limbs : ℕ → UInt8} {launch : WrapLaunch UInt64}
    (h : wrap64HipExportU64Device rows cols ld limbs = some launch)
    {order : List WrapThread} (horder : order.Perm launch.threads) (dst : ℕ → UInt64) (i : ℕ) :
    launch.run order dst i = if i < rows * cols then loadWord limbs i else dst i := by
  unfold wrap64HipExportU64Device at h
  split at h
  swap
  · cases h
  next hchecks =>
  simp only [Bool.and_eq_true, and_assoc] at hchecks
  obtain ⟨hrows, hcols, hcells⟩ := dims_of_cells hchecks.2.1
  rw [← Option.some.inj h] at horder ⊢
  unfold rns8Wrap64HipExportU64DeviceOnStream at horder ⊢
  rw [loadU64LimbsVectorized_eq_scalar, ite_self] at horder ⊢
  split at horder
  · next hfour =>
    rw [if_pos hfour]
    exact WrapLaunch.run_eq (contiguous4Launch_partitions _ hcells)
      (fun t _ => wrap64ExportU64Contiguous4Kernel_eq limbs t) horder dst i
  · next hfour =>
    rw [if_neg hfour]
    exact WrapLaunch.run_eq (cellLaunch_partitions _ hrows hcols)
      (fun t _ => wrap64ExportU64Kernel_eq limbs t) horder dst i

end PackExport

end Rns8
