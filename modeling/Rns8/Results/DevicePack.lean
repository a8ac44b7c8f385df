import Rns8.Hip.PackStores

/-!
# Packing on the device

Whatever kernel the pack entry points choose for a shape, each cell of each plane of the matrix gets
one store, of the residue that the CPU pack leaves there, and nothing else is stored.
-/

namespace Rns8

open CenteredResidue IndexedStores

section SharedPlanes

variable {τ α : Type} {threads : List τ} {kernel : τ → List (ℕ × Int8)} {toInt : α → ℤ} {src : ℕ → α}
  {rows cols ld rnsPrefix : ℕ}

/-- The threads share out the indices of the planes, and each stores the residues of its share. -/
def SharesPlanes (threads : List τ) (kernel : τ → List (ℕ × Int8)) (toInt : α → ℤ) (src : ℕ → α)
    (rows cols ld rnsPrefix : ℕ) : Prop :=
  ∃ indices : τ → List ℕ, Partitions threads indices (rnsPrefix * (rows * cols)) ∧
    ∀ t ∈ threads, kernel t = (indices t).map fun i => (i, packedAt src rows cols ld toInt i)

/-- **Shared planes are stored once**, in any order of the threads. -/
theorem SharesPlanes.storedOnce (h : SharesPlanes threads kernel toInt src rows cols ld rnsPrefix)
    {order : List τ} (horder : order.Perm threads) :
    CellsStoredOnce (order.flatMap kernel) rnsPrefix rows cols cols fun plane row col =>
      centeredResidue (toInt (src (row * ld + col))) (modulusAt plane) := by
  obtain ⟨indices, hparts, hkernel⟩ := h
  have hrun : order.flatMap kernel = run indices (packedAt src rows cols ld toInt) order :=
    List.flatMap_congr fun t ht => hkernel t (horder.mem_iff.1 ht)
  rw [hrun]
  constructor
  · intro plane hplane row hrow col hcol
    have hcell : row * cols + col < rows * cols := RowMajor.offset_lt hcol hrow
    have hindex : cellOffset rows cols plane row col = plane * (rows * cols) + (row * cols + col) := by
      rw [cellOffset, RowMajor.plane_offset_eq, Nat.add_assoc]
    have hlt : cellOffset rows cols plane row col < rnsPrefix * (rows * cols) :=
      hindex ▸ RowMajor.offset_lt hcell hplane
    obtain ⟨hdiv, hmod⟩ := RowMajor.offset_parts row hcol
    rw [hparts.filter_run horder _ hlt, hindex, packedAt_plane src ld hcell, hdiv, hmod]
  · intro s hs
    have hlt := hparts.lt_of_mem_run horder _ hs
    have hcells : 0 < rows * cols := Nat.pos_of_mul_pos_left (lt_of_le_of_lt (Nat.zero_le _) hlt)
    have hcols : 0 < cols := Nat.pos_of_mul_pos_left hcells
    refine ⟨s.1 / (rows * cols), (Nat.div_lt_iff_lt_mul hcells).2 hlt,
      s.1 % (rows * cols) / cols, ?_, s.1 % (rows * cols) % cols, Nat.mod_lt _ hcols, ?_⟩
    · exact (Nat.div_lt_iff_lt_mul hcols).2 (Nat.mod_lt _ hcells)
    · have hcell := Nat.div_add_mod (s.1 % (rows * cols)) cols
      have hplane := Nat.div_add_mod s.1 (rows * cols)
      rw [Nat.mul_comm] at hcell hplane
      rw [cellOffset, RowMajor.plane_offset_eq, Nat.add_assoc, hcell, hplane]

end SharedPlanes

/-! ### Grids -/

theorem gridDim_eq {count : ℕ} (h : count ≤ intMax) : gridDim count = count :=
  Nat.mod_eq_of_lt (lt_of_le_of_lt h (by decide))

private theorem packThread_index_injective {t u : PackThread} (ht : t.2 < 256) (hu : u.2 < 256)
    (h : t.index = u.index) : t = u := by
  obtain ⟨h1, h2⟩ := RowMajor.eq_of_offset_eq ht hu h
  exact Prod.ext h1 h2

/-- A grid that covers the indices shares them out in chunks. -/
theorem packThreads_chunk {blocks width total : ℕ} (hw : 0 < width)
    (h : total ≤ blocks * 256 * width) :
    Partitions (packThreads blocks) (fun t => chunk width total t.index) total := by
  refine partitions_chunk (List.nodup_range.product List.nodup_range) ?_ ?_ hw
  · intro t ht u hu heq
    exact packThread_index_injective (List.mem_range.1 (List.mem_product.1 ht).2)
      (List.mem_range.1 (List.mem_product.1 hu).2) heq
  · intro g hg
    have hlt : g < blocks * 256 := by
      by_contra hge
      exact absurd hg (not_lt.2 (h.trans (Nat.mul_le_mul_right width (not_lt.1 hge))))
    refine ⟨(g / 256, g % 256), List.mem_product.2 ⟨?_, ?_⟩, ?_⟩
    · exact List.mem_range.2 ((Nat.div_lt_iff_lt_mul (by decide)).2 hlt)
    · exact List.mem_range.2 (Nat.mod_lt g (by decide))
    · change g / 256 * 256 + g % 256 = g
      omega

/-- The blocks of a ceiling division cover their indices. -/
theorem le_blocks (total : ℕ) : total ≤ (total + 256 - 1) / 256 * 256 * 1 := by
  omega

theorem le_quadBlocks (elements : ℕ) : elements ≤ ((elements + 3) / 4 + 256 - 1) / 256 * 256 * 4 := by
  omega

/-- What the shape checks bound. -/
structure PackShape (rows cols ld rnsPrefix : ℕ) : Prop where
  rows_pos : 0 < rows
  cols_pos : 0 < cols
  cols_le : cols ≤ ld
  prefix_pos : 0 < rnsPrefix
  prefix_le : rnsPrefix ≤ 28
  total_le : rnsPrefix * (rows * cols) ≤ intMax * 256

theorem packShape_of_accepted {rows cols ld rnsPrefix : ℕ}
    (h : packShapeAccepted rows cols ld rnsPrefix = true) : PackShape rows cols ld rnsPrefix := by
  simp only [packShapeAccepted, checkedI32Shape, checkedPackElements, defaultModulusCount,
    Bool.and_eq_true, decide_eq_true_eq, and_assoc] at h
  obtain ⟨hr, hc, hld, hp, hp28, -, -, -, -, htotal⟩ := h
  have h1 := (Nat.le_div_iff_mul_le (Nat.pos_of_ne_zero hp)).mp htotal
  have h2 := (Nat.le_div_iff_mul_le hc).mp h1
  refine ⟨hr, hc, hld, Nat.pos_of_ne_zero hp, of_decide_eq_true hp28, le_of_eq_of_le ?_ h2⟩
  ring

/-- The numbers of blocks are in the range of `int`. -/
theorem PackShape.blocks_le {rows cols ld rnsPrefix : ℕ} (h : PackShape rows cols ld rnsPrefix) :
    (rnsPrefix * (rows * cols) + 256 - 1) / 256 ≤ intMax ∧
      (rows * cols + 256 - 1) / 256 ≤ intMax ∧
      ((rows * cols + 3) / 4 + 256 - 1) / 256 ≤ intMax ∧
      (rows * cols + 256 * 8 - 1) / (256 * 8) ≤ intMax ∧
      (rnsPrefix * (rows * cols) + 256 * 4 - 1) / (256 * 4) ≤ intMax := by
  have hcells : rows * cols ≤ rnsPrefix * (rows * cols) := Nat.le_mul_of_pos_left _ h.prefix_pos
  have htotal := h.total_le
  generalize rnsPrefix * (rows * cols) = total at hcells htotal ⊢
  generalize rows * cols = cells at hcells ⊢
  unfold intMax at htotal ⊢
  omega

/-! ### The kernels on a grid -/

section Kernels

variable {α : Type} {toInt : α → ℤ} {center : α → ℕ → Int8} {centerFixed : α → ℕ → ℕ → Int8}
  (src : ℕ → α) {rows cols : ℕ} (ld : ℕ) {rnsPrefix blocks : ℕ}

theorem packKernel_shares (hc : Centers toInt center centerFixed) (hp : rnsPrefix ≤ 28)
    (hblocks : rnsPrefix * (rows * cols) ≤ blocks * 256 * 1) :
    SharesPlanes (packThreads blocks) (packKernel center src rows cols ld rnsPrefix) toInt src rows
      cols ld rnsPrefix := by
  refine ⟨_, packThreads_chunk Nat.one_pos hblocks, fun t _ => ?_⟩
  rw [packKernel_eq src ld rnsPrefix hc hp, Nat.mul_comm rnsPrefix]

theorem packContiguousKernel_shares (hc : Centers toInt center centerFixed) (hp : rnsPrefix ≤ 28)
    (hblocks : rnsPrefix * (rows * cols) ≤ blocks * 256 * 1) :
    SharesPlanes (packThreads blocks) (packContiguousKernel center src rows cols rnsPrefix) toInt src
      rows cols cols rnsPrefix := by
  refine ⟨_, packThreads_chunk Nat.one_pos hblocks, fun t _ => ?_⟩
  rw [packContiguousKernel_eq src rnsPrefix hc hp, Nat.mul_comm rnsPrefix]

theorem packFixedPrefixKernel_shares (hc : Centers toInt center centerFixed) (hp : rnsPrefix ≤ 28)
    (hblocks : rows * cols ≤ blocks * 256 * 1) :
    SharesPlanes (packThreads blocks) (packFixedPrefixKernel centerFixed src rows cols ld rnsPrefix)
      toInt src rows cols ld rnsPrefix :=
  ⟨_, (packThreads_chunk Nat.one_pos hblocks).inPlanes rnsPrefix,
    fun t _ => packFixedPrefixKernel_eq src ld rnsPrefix hc hp t⟩

theorem packFixedPrefixContiguousKernel_shares (hc : Centers toInt center centerFixed)
    (hp : rnsPrefix ≤ 28) {width : ℕ} (hw : 0 < width) (hblocks : rows * cols ≤ blocks * 256 * width) :
    SharesPlanes (packThreads blocks)
      (packFixedPrefixContiguousKernel centerFixed src rows cols rnsPrefix width) toInt src rows cols
      cols rnsPrefix :=
  ⟨_, (packThreads_chunk hw hblocks).inPlanes rnsPrefix,
    fun t _ => packFixedPrefixContiguousKernel_eq src rnsPrefix hc hp width t⟩

end Kernels

/-- One launch of a kernel. -/
theorem SharesPlanes.once {α : Type} {toInt : α → ℤ} {src : ℕ → α} {rows cols ld rnsPrefix blocks : ℕ}
    {kernel : PackThread → List (ℕ × Int8)}
    (h : SharesPlanes (packThreads blocks) kernel toInt src rows cols ld rnsPrefix) :
    SharesPlanes ((List.range 1).product (packThreads blocks)) (fun t => kernel t.2) toInt src rows
      cols ld rnsPrefix := by
  obtain ⟨indices, hparts, hkernel⟩ := h
  exact ⟨_, hparts.once, fun t ht => hkernel t.2 (List.mem_product.1 ht).2⟩

/-! ### Launchers -/

/-- All stores of a launch. -/
def PackLaunch.Packs {α : Type} (launch : PackLaunch) (toInt : α → ℤ) (src : ℕ → α)
    (rows cols ld rnsPrefix : ℕ) : Prop :=
  SharesPlanes launch.threads (fun t => launch.kernel t.1 t.2) toInt src rows cols ld rnsPrefix

theorem PackLaunch.Packs.storedOnce {α : Type} {launch : PackLaunch} {toInt : α → ℤ} {src : ℕ → α}
    {rows cols ld rnsPrefix : ℕ} (h : launch.Packs toInt src rows cols ld rnsPrefix)
    {order : List PackLaunch.Thread} (horder : order.Perm launch.threads) :
    CellsStoredOnce (launch.stores order) rnsPrefix rows cols cols fun plane row col =>
      centeredResidue (toInt (src (row * ld + col))) (modulusAt plane) :=
  SharesPlanes.storedOnce h horder

section Launchers

variable {rows cols ld rnsPrefix : ℕ}

theorem hipDirectPackOnStream_packs {α : Type} {toInt : α → ℤ} {center : α → ℕ → Int8}
    {centerFixed : α → ℕ → ℕ → Int8} (hc : Centers toInt center centerFixed) (src : ℕ → α)
    (h : PackShape rows cols ld rnsPrefix) :
    (hipDirectPackOnStream center centerFixed src rows cols ld rnsPrefix).Packs toInt src rows cols ld
      rnsPrefix := by
  obtain ⟨hb, hfb, hqb, -, -⟩ := h.blocks_le
  unfold hipDirectPackOnStream
  simp only
  rw [gridDim_eq hb, gridDim_eq hfb, gridDim_eq hqb]
  split
  · split
    · next hld =>
      obtain rfl : ld = cols := of_decide_eq_true hld
      exact (packFixedPrefixContiguousKernel_shares src hc h.prefix_le (by decide)
        (le_quadBlocks _)).once
    · exact (packFixedPrefixKernel_shares src ld hc h.prefix_le (le_blocks _)).once
  · split
    · next hld =>
      obtain rfl : ld = cols := of_decide_eq_true hld
      exact (packContiguousKernel_shares src hc h.prefix_le (le_blocks _)).once
    · exact (packKernel_shares src ld hc h.prefix_le (le_blocks _)).once

variable (src : ℕ → Int64)

theorem packVopd_packs (h : PackShape rows cols ld rnsPrefix) :
    (rns8HipDirectPackNativeI64ToRnsVopdDevice rows cols ld rnsPrefix src).Packs Int64.toInt src rows
      cols ld rnsPrefix := by
  obtain ⟨-, -, -, hb, -⟩ := h.blocks_le
  have hcover : rows * cols ≤ gridDim ((rows * cols + 256 * 8 - 1) / (256 * 8)) * 256 * 8 := by
    rw [gridDim_eq hb]
    omega
  refine ⟨_, (packThreads_chunk (by decide) hcover).perPlane rnsPrefix, fun t ht => ?_⟩
  have hplane := List.mem_range.1 (List.mem_product.1 ht).1
  exact packNativeI64ToRns8wideVopdKernel_eq src rows cols ld (hplane.trans_le h.prefix_le) t.2

theorem packFourWide_packs (h : PackShape rows cols cols rnsPrefix) :
    (rns8HipDirectPackI64FourWideCoalescedDevice rows cols rnsPrefix src).Packs Int64.toInt src rows
      cols cols rnsPrefix := by
  obtain ⟨-, -, -, -, hb⟩ := h.blocks_le
  have hcover : rnsPrefix * (rows * cols) ≤
      gridDim ((rows * cols * rnsPrefix + 256 * 4 - 1) / (256 * 4)) * 256 * 4 := by
    rw [Nat.mul_comm (rows * cols), gridDim_eq hb]
    omega
  refine SharesPlanes.once ⟨_, packThreads_chunk (by decide) hcover, fun t _ => ?_⟩
  have hkernel := packI64FourWideCoalescedKernel_eq src rows cols rnsPrefix h.prefix_le t
  rw [Nat.mul_comm (rows * cols)] at hkernel
  exact hkernel

theorem packSmall_packs (h : PackShape rows cols ld rnsPrefix) :
    (rns8HipDirectPackI64PersistentSmallDevice rows cols ld rnsPrefix src).Packs Int64.toInt src rows
      cols ld rnsPrefix := by
  obtain ⟨hb, -⟩ := h.blocks_le
  have hcover : rnsPrefix * (rows * cols) ≤
      gridDim ((rows * cols * rnsPrefix + 256 - 1) / 256) * 256 * 1 := by
    rw [Nat.mul_comm (rows * cols), gridDim_eq hb]
    exact le_blocks _
  refine SharesPlanes.once ⟨_, packThreads_chunk Nat.one_pos hcover, fun t _ => ?_⟩
  have hkernel := persistentSmallPackI64Kernel_eq src rows cols ld rnsPrefix
    h.prefix_le t
  rw [Nat.mul_comm (rows * cols)] at hkernel
  exact hkernel

/-- **Every choice of the dispatch packs the matrix.** -/
theorem hipDirectPackI64Device_packs (h : packShapeAccepted rows cols ld rnsPrefix = true) :
    ∃ launch, hipDirectPackI64Device rows cols ld rnsPrefix src = some launch ∧
      launch.Packs Int64.toInt src rows cols ld rnsPrefix := by
  have hshape := packShape_of_accepted h
  unfold hipDirectPackI64Device
  rw [if_pos h]
  simp only
  split
  · next hfour =>
    have hld : ld = cols := by
      simp only [Bool.and_eq_true, decide_eq_true_eq] at hfour
      exact hfour.1.1
    subst hld
    exact ⟨_, rfl, packFourWide_packs src hshape⟩
  · split
    · exact ⟨_, rfl, packVopd_packs src hshape⟩
    · split
      · exact ⟨_, rfl, packSmall_packs src hshape⟩
      · exact ⟨_, rfl, hipDirectPackOnStream_packs centersI64 src hshape⟩

end Launchers

/-! ### Groups -/

section Groups

variable {α : Type} {toInt : α → ℤ} {center : α → ℕ → Int8} {centerFixed : α → ℕ → ℕ → Int8}
  {taskCount rows cols ld rnsPrefix : ℕ}

/-- The threads of one task of a grouped launch. -/
private theorem filter_task_perm {launch : GroupedPackLaunch} {order : List GroupedPackThread}
    (horder : order.Perm launch.threads) {task : ℕ} (htask : task < launch.taskCount) :
    ((order.filter fun t => decide (t.1 = task)).map Prod.snd).Perm (packThreads launch.blocks) := by
  refine ((horder.filter _).map _).trans (List.Perm.of_eq ?_)
  -- the threads of one task are its row of the product of tasks and threads
  have hrow : ∀ tasks : List ℕ, (((tasks.product (packThreads launch.blocks)).filter fun t =>
      decide (t.1 = task)).map Prod.snd) =
        (tasks.filter fun k => decide (k = task)).flatMap fun _ => packThreads launch.blocks := by
    intro tasks
    induction tasks with
    | nil => rfl
    | cons k tasks ih =>
      rw [List.product, List.flatMap_cons, List.filter_append, List.map_append]
      change _ ++ (((tasks.product _).filter _).map _) = _
      rw [ih, List.filter_cons]
      by_cases hk : k = task
      · have hall : (((packThreads launch.blocks).map fun u => (k, u)).filter fun t =>
            decide (t.1 = task)) = (packThreads launch.blocks).map fun u => (k, u) :=
          List.filter_eq_self.2 fun t ht => by
            obtain ⟨u, -, rfl⟩ := List.mem_map.1 ht
            exact decide_eq_true hk
        rw [hall, List.map_map, if_pos (decide_eq_true hk), List.flatMap_cons]
        exact congrArg (· ++ _) (List.map_id' _)
      · have hnone : (((packThreads launch.blocks).map fun u => (k, u)).filter fun t =>
            decide (t.1 = task)) = [] :=
          List.filter_eq_nil_iff.2 fun t ht => by
            obtain ⟨u, -, rfl⟩ := List.mem_map.1 ht
            simpa using hk
        rw [hnone, if_neg (by simpa using hk)]
        rfl
  -- a task index occurs once
  have hone : ((List.range launch.taskCount).filter fun k => decide (k = task)) = [task] := by
    have hrep := List.filter_eq (l := List.range launch.taskCount) task
    rw [List.count_eq_one_of_mem List.nodup_range (List.mem_range.2 htask)] at hrep
    exact (List.filter_congr fun j _ => by simp [eq_comm]).trans hrep
  rw [GroupedPackLaunch.threads, hrow, hone, List.flatMap_singleton]

/-- The stores through a pointer are those of the task's threads. -/
private theorem taskStores_eq (launch : GroupedPackLaunch) (order : List GroupedPackThread)
    (task : ℕ) :
    taskStores (launch.stores order) task =
      ((order.filter fun t => decide (t.1 = task)).map Prod.snd).flatMap (launch.kernel task) := by
  induction order with
  | nil => rfl
  | cons t order ih =>
    have hcons : taskStores (launch.stores (t :: order)) task =
        taskStores ((launch.kernel t.1 t.2).map fun s => (t.1, s)) task ++
          taskStores (launch.stores order) task := by
      simp only [taskStores, GroupedPackLaunch.stores, List.flatMap_cons, List.filter_append,
        List.map_append]
    rw [hcons, ih, List.filter_cons]
    by_cases ht : t.1 = task
    · have hall : taskStores ((launch.kernel t.1 t.2).map fun s => (t.1, s)) task =
          launch.kernel task t.2 := by
        subst ht
        simp [taskStores, List.filter_map, Function.comp_def]
      rw [hall, if_pos (decide_eq_true ht)]
      rfl
    · have hnone : taskStores ((launch.kernel t.1 t.2).map fun s => (t.1, s)) task = [] := by
        simp [taskStores, List.filter_map, Function.comp_def, ht]
      rw [hnone, if_neg (by simpa using ht)]
      rfl

/-- **A grouped launch packs every task.** -/
theorem hipDirectPackGrouped_storedOnce (hc : Centers toInt center centerFixed) (src : ℕ → α)
    (h : packShapeAccepted rows cols ld rnsPrefix = true) (hp : rnsPrefix ≤ 20) (ht : 0 < taskCount)
    (htm : taskCount ≤ intMax) :
    ∃ launch, hipDirectPackGrouped center centerFixed taskCount rows cols ld rnsPrefix src =
        some launch ∧ launch.taskCount = taskCount ∧
      ∀ order : List GroupedPackThread, order.Perm launch.threads → ∀ task < taskCount,
        CellsStoredOnce (taskStores (launch.stores order) task) rnsPrefix rows cols cols
          fun plane row col => centeredResidue
            (toInt (src (task * (rows * ld) + (row * ld + col)))) (modulusAt plane) := by
  have hshape := packShape_of_accepted h
  have hstride : rows * ld ≠ 0 :=
    (Nat.mul_pos hshape.rows_pos (hshape.cols_pos.trans_le hshape.cols_le)).ne'
  -- the accepted shape and the task count pass the second check too
  have hguard : ¬(taskCount = 0 ∨ intMax < taskCount ∨ rows * ld = 0 ∨ rows = 0 ∨ cols = 0 ∨ ld < cols ∨
      rnsPrefix = 0 ∨ 20 < rnsPrefix) := by
    have hr := hshape.rows_pos
    have hcp := hshape.cols_pos
    have hld := hshape.cols_le
    have hpp := hshape.prefix_pos
    omega
  obtain ⟨hb, hfb, hqb, -, -⟩ := hshape.blocks_le
  let taskSrc := fun task i => src (task * (rows * ld) + i)
  -- on every branch of the dispatch the threads of a task share its planes out among them
  have key : ∃ launch, hipDirectPackGrouped center centerFixed taskCount rows cols ld rnsPrefix src =
      some launch ∧ launch.taskCount = taskCount ∧ ∀ task, SharesPlanes (packThreads launch.blocks)
        (launch.kernel task) toInt (fun i => src (task * (rows * ld) + i)) rows cols ld rnsPrefix := by
    unfold hipDirectPackGrouped hipDirectPackGroupedDevice
    rw [if_pos h, if_neg hguard]
    simp only
    rw [gridDim_eq hb, gridDim_eq hfb, gridDim_eq hqb]
    -- fixed prefix or any prefix, contiguous or strided
    split
    · split
      · next hld =>
        obtain rfl : ld = cols := of_decide_eq_true hld
        exact ⟨_, rfl, rfl, fun task => packFixedPrefixContiguousKernel_shares (taskSrc task) hc hshape.prefix_le
          (by decide) (le_quadBlocks _)⟩
      · exact ⟨_, rfl, rfl, fun task => packFixedPrefixKernel_shares (taskSrc task) ld hc hshape.prefix_le
          (le_blocks _)⟩
    · split
      · next hld =>
        obtain rfl : ld = cols := of_decide_eq_true hld
        exact ⟨_, rfl, rfl, fun task => packContiguousKernel_shares (taskSrc task) hc hshape.prefix_le
          (le_blocks _)⟩
      · exact ⟨_, rfl, rfl, fun task => packKernel_shares (taskSrc task) ld hc hshape.prefix_le (le_blocks _)⟩
  obtain ⟨launch, hlaunch, hcount, hshares⟩ := key
  refine ⟨launch, hlaunch, hcount, fun order horder task htask => ?_⟩
  rw [taskStores_eq]
  exact (hshares task).storedOnce (filter_task_perm horder (hcount.symm ▸ htask))

end Groups

/-! ### Device and CPU -/

/-- The cells that `packI64Matrix` leaves. -/
private theorem packI64Matrix_read (matrix : RnsMatrix) (src : ℕ → Int64) (ld : ℕ)
    {plane row col : ℕ} (hp : plane < matrix.rnsPrefix) (hr : row < matrix.desc.rows)
    (hc : col < matrix.desc.cols) :
    packI64Matrix matrix src ld (cellOffset matrix.desc.rows matrix.desc.cols plane row col) =
      centeredResidue (src (row * ld + col)).toInt (modulusAt plane) :=
  packPlanes_read modulusAt (sourceI64 src ld) _ hp hr hc

/-- The cells that `packU64Matrix` leaves. -/
private theorem packU64Matrix_read (matrix : RnsMatrix) (src : ℕ → UInt64) (ld : ℕ)
    {plane row col : ℕ} (hp : plane < matrix.rnsPrefix) (hr : row < matrix.desc.rows)
    (hc : col < matrix.desc.cols) :
    packU64Matrix matrix src ld (cellOffset matrix.desc.rows matrix.desc.cols plane row col) =
      centeredResidue ((src (row * ld + col)).toNat : ℤ) (modulusAt plane) :=
  packPlanes_read modulusAt (sourceU64 src ld) _ hp hr hc

/-- The target of a store may be replaced by an equal one. -/
theorem CellsStoredOnce.congr {stores : List (ℕ × Int8)} {planes m n ldc : ℕ}
    {target target' : ℕ → ℕ → ℕ → Int8} (h : CellsStoredOnce stores planes m n ldc target)
    (heq : ∀ plane < planes, ∀ row < m, ∀ col < n, target plane row col = target' plane row col) :
    CellsStoredOnce stores planes m n ldc target' where
  once := fun plane hp row hr col hc => heq plane hp row hr col hc ▸ h.once plane hp row hr col hc
  inside := h.inside

/-- The stores are those of the CPU pack: every cell of every plane once, with the byte that the CPU
pack leaves in it. -/
def StoresAsCpu (stores : List (ℕ × Int8)) (matrix : RnsMatrix) (packed : ℕ → Int8) : Prop :=
  CellsStoredOnce stores matrix.rnsPrefix matrix.desc.rows matrix.desc.cols matrix.desc.cols
    fun plane row col => packed (cellOffset matrix.desc.rows matrix.desc.cols plane row col)

private theorem storesAsCpu_i64 {stores : List (ℕ × Int8)} {matrix : RnsMatrix} {src : ℕ → Int64}
    {ld : ℕ} (h : CellsStoredOnce stores matrix.rnsPrefix matrix.desc.rows matrix.desc.cols
      matrix.desc.cols fun plane row col =>
        centeredResidue (src (row * ld + col)).toInt (modulusAt plane)) :
    StoresAsCpu stores matrix (packI64Matrix matrix src ld) :=
  h.congr fun _ hp _ hr _ hc => (packI64Matrix_read matrix src ld hp hr hc).symm

private theorem storesAsCpu_u64 {stores : List (ℕ × Int8)} {matrix : RnsMatrix} {src : ℕ → UInt64}
    {ld : ℕ} (h : CellsStoredOnce stores matrix.rnsPrefix matrix.desc.rows matrix.desc.cols
      matrix.desc.cols fun plane row col =>
        centeredResidue ((src (row * ld + col)).toNat : ℤ) (modulusAt plane)) :
    StoresAsCpu stores matrix (packU64Matrix matrix src ld) :=
  h.congr fun _ hp _ hr _ hc => (packU64Matrix_read matrix src ld hp hr hc).symm

/-- **Every device pack path stores what the CPU pack stores.** For every matrix, source and leading
dimension that the entry points accept, whatever order the threads run in: the kernel that the signed
dispatch chooses, the standard launcher of either element type, the contiguous fixed-prefix kernels of
one, two and four cells on any grid that covers the matrix, and every task of a grouped launch. -/
theorem devicePack_eq_cpu :
    (∀ (matrix : RnsMatrix) (ld : ℕ),
      packShapeAccepted matrix.desc.rows matrix.desc.cols ld matrix.rnsPrefix = true →
      (∀ src : ℕ → Int64,
        (∃ launch, hipDirectPackI64Device matrix.desc.rows matrix.desc.cols ld matrix.rnsPrefix src =
            some launch ∧
          ∀ order : List PackLaunch.Thread, order.Perm launch.threads →
            StoresAsCpu (launch.stores order) matrix (packI64Matrix matrix src ld)) ∧
        (∀ order : List PackLaunch.Thread,
          order.Perm (rns8HipDirectPackI64DeviceOnStream matrix.desc.rows matrix.desc.cols ld
            matrix.rnsPrefix src).threads →
          StoresAsCpu ((rns8HipDirectPackI64DeviceOnStream matrix.desc.rows matrix.desc.cols ld
            matrix.rnsPrefix src).stores order) matrix (packI64Matrix matrix src ld)) ∧
        ∀ width blocks : ℕ, 0 < width → ld = matrix.desc.cols →
          matrix.desc.rows * matrix.desc.cols ≤ blocks * 256 * width →
          ∀ order : List PackThread, order.Perm (packThreads blocks) →
            StoresAsCpu (order.flatMap (packFixedPrefixContiguousKernel
              centerI64DefaultModulusFixedDevice src matrix.desc.rows matrix.desc.cols matrix.rnsPrefix
              width)) matrix (packI64Matrix matrix src ld)) ∧
      (∀ src : ℕ → UInt64,
        (∃ launch, hipDirectPackU64Device matrix.desc.rows matrix.desc.cols ld matrix.rnsPrefix src =
            some launch ∧
          ∀ order : List PackLaunch.Thread, order.Perm launch.threads →
            StoresAsCpu (launch.stores order) matrix (packU64Matrix matrix src ld)) ∧
        ∀ width blocks : ℕ, 0 < width → ld = matrix.desc.cols →
          matrix.desc.rows * matrix.desc.cols ≤ blocks * 256 * width →
          ∀ order : List PackThread, order.Perm (packThreads blocks) →
            StoresAsCpu (order.flatMap (packFixedPrefixContiguousKernel
              centerU64DefaultModulusFixedDevice src matrix.desc.rows matrix.desc.cols matrix.rnsPrefix
              width)) matrix (packU64Matrix matrix src ld)) ∧
      (matrix.rnsPrefix ≤ 20 → ∀ taskCount, 0 < taskCount → taskCount ≤ intMax →
        (∀ src : ℕ → Int64, ∃ launch,
          hipDirectPackI64GroupedDevice taskCount matrix.desc.rows matrix.desc.cols ld
            matrix.rnsPrefix src = some launch ∧
          ∀ order : List GroupedPackThread, order.Perm launch.threads → ∀ task < taskCount,
            StoresAsCpu (taskStores (launch.stores order) task) matrix
              (packI64Matrix matrix (fun i => src (task * (matrix.desc.rows * ld) + i)) ld)) ∧
        (∀ src : ℕ → UInt64, ∃ launch,
          hipDirectPackU64GroupedDevice taskCount matrix.desc.rows matrix.desc.cols ld
            matrix.rnsPrefix src = some launch ∧
          ∀ order : List GroupedPackThread, order.Perm launch.threads → ∀ task < taskCount,
            StoresAsCpu (taskStores (launch.stores order) task) matrix
              (packU64Matrix matrix (fun i => src (task * (matrix.desc.rows * ld) + i)) ld)))) := by
  intro matrix ld h
  have hshape := packShape_of_accepted h
  refine ⟨fun src => ⟨?_, ?_, ?_⟩, fun src => ⟨?_, ?_⟩, fun hp20 taskCount ht htm => ⟨?_, ?_⟩⟩
  -- signed sources: the dispatch, the standard launcher, the contiguous kernels
  · obtain ⟨launch, hlaunch, hpacks⟩ := hipDirectPackI64Device_packs src h
    exact ⟨launch, hlaunch, fun order horder => storesAsCpu_i64 (hpacks.storedOnce horder)⟩
  · have hpacks := hipDirectPackOnStream_packs centersI64 src hshape
    exact fun order horder => storesAsCpu_i64 (hpacks.storedOnce horder)
  · rintro width blocks hw rfl hblocks order horder
    have hshares := packFixedPrefixContiguousKernel_shares src centersI64 hshape.prefix_le hw hblocks
    exact storesAsCpu_i64 (hshares.storedOnce horder)
  -- unsigned sources
  · have hpacks := hipDirectPackOnStream_packs centersU64 src hshape
    exact ⟨_, if_pos h, fun order horder => storesAsCpu_u64 (hpacks.storedOnce horder)⟩
  · rintro width blocks hw rfl hblocks order horder
    have hshares := packFixedPrefixContiguousKernel_shares src centersU64 hshape.prefix_le hw hblocks
    exact storesAsCpu_u64 (hshares.storedOnce horder)
  -- the tasks of a group
  · intro src
    obtain ⟨launch, hlaunch, -, hstored⟩ :=
      hipDirectPackGrouped_storedOnce centersI64 src h hp20 ht htm
    exact ⟨launch, hlaunch, fun order horder task htask =>
      storesAsCpu_i64 (hstored order horder task htask)⟩
  · intro src
    obtain ⟨launch, hlaunch, -, hstored⟩ :=
      hipDirectPackGrouped_storedOnce centersU64 src h hp20 ht htm
    exact ⟨launch, hlaunch, fun order horder task htask =>
      storesAsCpu_u64 (hstored order horder task htask)⟩

/-- A matrix of 17 rows and 31 columns in nine planes. -/
def stripMatrix : RnsMatrix where
  desc := { rows := 17, cols := 31, semantics := .boundedI64, boundKind := .none }
  backend := .hipDirect
  rnsPrefix := 9

theorem devicePack_eq_cpu_strip : ∃ launch,
    hipDirectPackI64Device 17 31 31 9 (fun _ => Int64.minValue) = some launch ∧
      ∀ order : List PackLaunch.Thread, order.Perm launch.threads →
        StoresAsCpu (launch.stores order) stripMatrix
          (packI64Matrix stripMatrix (fun _ => Int64.minValue) 31) :=
  ((devicePack_eq_cpu stripMatrix 31 (by decide)).1 fun _ => Int64.minValue).1

end Rns8
