import Rns8.Lib.IndexArith
import Rns8.Plan.Schedule

/-!
# Index arithmetic of the direct HIP GEMM kernels

The kernels compute rows, columns, K positions and offsets in `int`. Each definition below lists the
values that one thread computes, in the order of the source and under the guards of the source, over
any type of integers. Thread and block coordinates and the positions of the cooperative loads, which
are small, are given as a `TileSite`; the loops over the tiles of a K block and over the K blocks keep
their counters.

The plane offsets (`modulus_index * m * lda` and the like) are computed in `int64_t` and are not
listed.
-/

namespace Rns8

open IndexArith

/-! ### Host guards -/

/-- The dimensions and leading dimensions of one device GEMM. -/
structure GemmShape where
  m : ℕ
  n : ℕ
  k : ℕ
  lda : ℕ
  ldb : ℕ
  ldc : ℕ
  deriving DecidableEq, Repr

/-- The guards that every entry point of the direct HIP, CK and rocWMMA backends makes on its shape:
positive dimensions, leading dimensions of at least a row, and each of the six at most `INT_MAX`. -/
def GemmShape.accepted (s : GemmShape) : Bool :=
  decide (0 < s.m) && decide (0 < s.n) && decide (0 < s.k) && decide (s.k ≤ s.lda) &&
    decide (s.n ≤ s.ldb) && decide (s.n ≤ s.ldc) && decide (s.m ≤ intMax) && decide (s.n ≤ intMax) &&
    decide (s.k ≤ intMax) && decide (s.lda ≤ intMax) && decide (s.ldb ≤ intMax) &&
    decide (s.ldc ≤ intMax)

/-- The guard of `rns8_hip_direct_ring_gemm_i8_grouped_prefix_on_stream` on the stacked planes. -/
def GemmShape.planesInInt64 (s : GemmShape) (rnsPrefix : ℕ) : Bool :=
  decide (s.m ≤ int64Max / rnsPrefix / s.lda) && decide (s.k ≤ int64Max / rnsPrefix / s.ldb) &&
    decide (s.m ≤ int64Max / rnsPrefix / s.ldc)

/-- The facts behind the guards. -/
structure GemmShape.Valid (s : GemmShape) : Prop where
  m_pos : 0 < s.m
  n_pos : 0 < s.n
  k_pos : 0 < s.k
  k_le_lda : s.k ≤ s.lda
  n_le_ldb : s.n ≤ s.ldb
  n_le_ldc : s.n ≤ s.ldc
  m_le : s.m ≤ 2147483647
  n_le : s.n ≤ 2147483647
  k_le : s.k ≤ 2147483647
  lda_le : s.lda ≤ 2147483647
  ldb_le : s.ldb ≤ 2147483647
  ldc_le : s.ldc ≤ 2147483647

theorem GemmShape.valid_of_accepted {s : GemmShape} (h : s.accepted = true) : s.Valid := by
  simp only [GemmShape.accepted, Bool.and_eq_true, decide_eq_true_eq, and_assoc] at h
  obtain ⟨h1, h2, h3, h4, h5, h6, h7, h8, h9, h10, h11, h12⟩ := h
  exact ⟨h1, h2, h3, h4, h5, h6, h7, h8, h9, h10, h11, h12⟩

/-! ### The loop over K -/

/-- The number of launches over `k` positions. -/
def kLaunches (k : ℕ) : ℕ := (k + 65535) / 65536

section Values

variable {α : Type} [Add α] [Sub α] [Mul α] [Ops α]

/-- `while (k_offset < k)` of the launchers, at the launch `i`: `k_offset`, `k_block` and the offset
after it. -/
def kLoopIndices (k i : ℕ) : List α :=
  let kOffset := blockOffset (lit k) (lit safeInt32KBlock) i
  [kOffset, blockAt (lit k) (lit safeInt32KBlock) kOffset,
    blockOffset (lit k) (lit safeInt32KBlock) (i + 1)]

/-! ### The tile kernels -/

/-- `kRns8HipTileM` and `kRns8HipTileN`. -/
def hipTile : ℕ := 16

/-- `kRns8HipTileK`. -/
def hipTileK : ℕ := 64

/-- A block, a position in its tiles and a step of its loop over the K block. -/
structure TileSite where
  blockX : ℕ
  blockY : ℕ
  tileStep : ℕ
  localRow : ℕ
  localCol : ℕ
  localK : ℕ

/-- A position inside the tiles of a block, at a step of the loop over the K block. -/
structure TileSite.Inside (kBlock : ℤ) (s : TileSite) : Prop where
  localRow : s.localRow < 16
  localCol : s.localCol < 16
  localK : s.localK < 64
  step : (s.tileStep : ℤ) * 64 < kBlock

/-- A block of the grid over `rows × cols` cells. The launchers compute the two grid sizes
`(rows + 15) / 16` in unsigned arithmetic, where they cannot overflow. -/
structure TileSite.InGrid (rows cols : ℕ) (s : TileSite) : Prop where
  blockY : s.blockY < (rows + 15) / 16
  blockX : s.blockX < (cols + 15) / 16

/-- The `int` arguments that the tile kernels share. -/
structure TileArgs (α : Type) where
  m : α
  n : α
  kOffset : α
  kBlock : α
  lda : α
  ldb : α
  ldc : α

/-- The arguments of the launch `i`. -/
def GemmShape.tileArgs (s : GemmShape) (i : ℕ) : TileArgs α :=
  let kOffset := blockOffset (lit s.k) (lit safeInt32KBlock) i
  { m := lit s.m, n := lit s.n, kOffset, kBlock := blockAt (lit s.k) (lit safeInt32KBlock) kOffset,
    lda := lit s.lda, ldb := lit s.ldb, ldc := lit s.ldc }

/-- `tile_extent`. -/
def tileExtent (kBlock tileK : α) : α :=
  bif less (kBlock - tileK) (lit hipTileK) then kBlock - tileK else lit hipTileK

/-- The cooperative loads of the tile kernels: `global_row`, `global_col`, `source_k` and the offsets
read in `A` and `B`. -/
def tileLoadIndices (a : TileArgs α) (rowOffset colOffset : α) (s : TileSite) : List α :=
  let tileRow := lit s.blockY * lit hipTile
  let tileCol := lit s.blockX * lit hipTile
  let globalRow := rowOffset + tileRow + lit s.localRow
  let globalCol := colOffset + tileCol + lit s.localCol
  let tileK := counter (lit hipTileK) s.tileStep
  let extent := tileExtent a.kBlock tileK
  let sourceK := a.kOffset + tileK + lit s.localK
  [tileRow, tileCol, globalRow, globalCol, tileK, extent, sourceK] ++
    guarded (less globalRow a.m && less (lit s.localK) extent) [globalRow * a.lda + sourceK] ++
    guarded (less (lit s.localK) extent && less globalCol a.n) [sourceK * a.ldb + globalCol]

/-- The output of a thread of the region kernels: `row`, `col` and the offset written in `C`. -/
def regionOutputIndices (a : TileArgs α) (rowOffset colOffset rows cols : α) (s : TileSite) :
    List α :=
  let tileRow := lit s.blockY * lit hipTile
  let tileCol := lit s.blockX * lit hipTile
  let row := rowOffset + tileRow + lit s.localRow
  let col := colOffset + tileCol + lit s.localCol
  [row, col] ++
    guarded (less row a.m && less col a.n && less (tileRow + lit s.localRow) rows &&
      less (tileCol + lit s.localCol) cols) [row * a.ldc + col]

/-- `rns8_ring_gemm_i8_i32_region_kernel` and `rns8_ring_gemm_i8_i32_grouped_prefix_region_kernel`. -/
def regionKernelIndices (a : TileArgs α) (rowOffset colOffset rows cols : α) (s : TileSite) :
    List α :=
  tileLoadIndices a rowOffset colOffset s ++ regionOutputIndices a rowOffset colOffset rows cols s

/-- The output of a thread of the column-pair kernels, which owns `col0` and `col1`. -/
def colPairOutputIndices (a : TileArgs α) (s : TileSite) : List α :=
  let row := lit s.blockY * lit hipTile + lit s.localRow
  let col0 := lit s.blockX * lit hipTile + lit s.localCol * lit 2
  let col1 := col0 + lit 1
  [row, col0, col1] ++
    guarded (less row a.m && less col0 a.n) [row * a.ldc + col0] ++
    guarded (less row a.m && less col1 a.n) [row * a.ldc + col1]

/-- The grid of the column-pair launchers, computed in `int`. -/
def colPairGridIndices (m n : ℕ) : List α :=
  [lit n + lit hipTile - lit 1, quot (lit n + lit hipTile - lit 1) (lit hipTile),
    lit m + lit hipTile - lit 1, quot (lit m + lit hipTile - lit 1) (lit hipTile)]

end Values

/-- The tile kernels with one output a thread. Their bodies differ in how an element is centered and
in which plane or task they read, not in their index arithmetic: each is the region kernel over the
whole output. -/
inductive TileKernel where
  | tiled | fixedModulus | dp4aFixedModulus | groupedModulus | groupedFixedModulus
  | u8Native | u8NativeFixedModulus | u8NativeA | u8NativeAFixedModulus
  | groupedPrefix | groupedTaskPrefix | nativePrefix9 | nativeAPrefix9 | uniformSmallPrefix9
  deriving DecidableEq, Repr

/-- The tile kernels with two output columns a thread. -/
inductive ColPairKernel where
  | nativePrefix9 | nativeAPrefix9 | nativeBPrefix9 | uniformSmallPrefix9
  deriving DecidableEq, Repr

section Values

variable {α : Type} [Add α] [Sub α] [Mul α] [Ops α]

/-- The indices of a tile kernel. -/
def TileKernel.indices (kernel : TileKernel) (a : TileArgs α) (s : TileSite) : List α :=
  match kernel with
  | .tiled | .fixedModulus | .dp4aFixedModulus | .groupedModulus | .groupedFixedModulus
  | .u8Native | .u8NativeFixedModulus | .u8NativeA | .u8NativeAFixedModulus
  | .groupedPrefix | .groupedTaskPrefix | .nativePrefix9 | .nativeAPrefix9 | .uniformSmallPrefix9 =>
    regionKernelIndices a (lit 0) (lit 0) a.m a.n s

/-- The indices of a column-pair kernel: the loads of its tiles, and the outputs of the thread pair
`localCol`. -/
def ColPairKernel.indices (kernel : ColPairKernel) (a : TileArgs α) (s : TileSite) : List α :=
  match kernel with
  | .nativePrefix9 | .nativeAPrefix9 | .nativeBPrefix9 | .uniformSmallPrefix9 =>
    tileLoadIndices a (lit 0) (lit 0) s ++
      guarded (decide (s.localCol < 8)) (colPairOutputIndices a s)

/-! ### The kernels for narrow outputs -/

/-- `rns8_ring_gemv_small_n_i8_i32_grouped_prefix_kernel` at the position `kk` of the K block and the
column `col`; `rns8_ring_gemv_n1_i8_i32_grouped_prefix_kernel` is its case `n = 1`, whose column is
always `0`. -/
def gemvKernelIndices (a : TileArgs α) (row kk col : ℕ) : List α :=
  let sourceK := a.kOffset + lit kk
  [lit row] ++
    guarded (less (lit kk) a.kBlock)
      ([sourceK, lit row * a.lda + sourceK] ++
        guarded (less (lit col) a.n) [sourceK * a.ldb + lit col]) ++
    guarded (less (lit col) a.n) [lit row * a.ldc + lit col]

/-- `rns8_persistent_small_gemm_rns_kernel`, which continues in `int64_t` from `row` and `col`, and
the grid of its launcher. -/
def persistentKernelIndices (m n blockX threadX : ℕ) : List α :=
  let total := lit m * lit n
  let grid := quot (total + lit 256 - lit 1) (lit 256)
  let cell := lit blockX * lit 256 + lit threadX
  [total, grid, cell] ++
    guarded (less cell total) [quot cell (lit n), cell - quot cell (lit n) * lit n]

/-- `task_count * grouped_prefix`, the third size of the grid of
`rns8_hip_direct_ring_gemm_i8_grouped_task_prefix_on_stream`, and what a block of its kernel makes of
its position there: `combined_index`, `task_index` and `modulus_index`. -/
def groupedTaskIndices (taskCount rnsPrefix blockZ : ℕ) : List α :=
  let combined := lit blockZ
  let taskIndex := quot combined (lit rnsPrefix)
  [lit taskCount * lit rnsPrefix, combined, taskIndex, taskIndex * lit rnsPrefix,
    combined - taskIndex * lit rnsPrefix]

/-! ### The scheduled kernels -/

/-- `rns8_ring_gemm_i8_i32_grouped_active_schedule_kernel` on one tile of the schedule. `skips` says
that the declared zero rows or columns cover the whole block, which then writes zeros and returns. -/
def scheduleKernelIndices (a : TileArgs α) (entry : TileScheduleEntry) (skips : Bool)
    (s : TileSite) : List α :=
  let tileLocalRow := lit s.blockY * lit hipTile
  let tileLocalCol := lit s.blockX * lit hipTile
  let row := lit entry.rowOffset + tileLocalRow + lit s.localRow
  let col := lit entry.colOffset + tileLocalCol + lit s.localCol
  let outputRow := tileLocalRow + lit s.localRow
  let outputCol := tileLocalCol + lit s.localCol
  let outputActive := less outputRow (lit entry.rowExtent) && less outputCol (lit entry.colExtent)
  [tileLocalRow, tileLocalCol, row, col, outputRow, outputCol] ++
    guarded (!skips)
      (let tileK := counter (lit hipTileK) s.tileStep
      let extent := tileExtent a.kBlock tileK
      let sourceK := a.kOffset + tileK + lit s.localK
      [tileK, extent, sourceK] ++
        guarded (less outputRow (lit entry.rowExtent) && less (lit s.localK) extent)
          [row * a.lda + sourceK] ++
        guarded (less (lit s.localK) extent && less outputCol (lit entry.colExtent))
          [sourceK * a.ldb + col]) ++
    guarded outputActive [row * a.ldc + col]

/-- `rns8_zero_scheduled_residue_tiles_kernel`, which continues in `int64_t` from the cell of the tile,
on the tile of each block. -/
def zeroKernelIndices (entries : List TileScheduleEntry) (maxTileElements blockX threadX : ℕ) :
    List α :=
  let blocksPerTile := quot (lit maxTileElements + lit 256 - lit 1) (lit 256)
  let block := lit blockX
  let entryIndex := quot block blocksPerTile
  let tileBlock := block - entryIndex * blocksPerTile
  let tileCell := tileBlock * lit 256 + lit threadX
  [lit maxTileElements + lit 256 - lit 1, blocksPerTile, block, entryIndex, tileBlock, tileCell] ++
    match entries[blockX / ((maxTileElements + 255) / 256)]? with
    | none => []
    | some entry =>
      let tileElements := lit entry.rowExtent * lit entry.colExtent
      let localRow := quot tileCell (lit entry.colExtent)
      let localCol := tileCell - localRow * lit entry.colExtent
      guarded (less tileCell (lit maxTileElements) && entry.flags.zeroOutput)
        (tileElements :: guarded (less tileCell tileElements)
          [localRow, localCol, lit entry.rowOffset + localRow, lit entry.colOffset + localCol])

end Values

/-! ### Exact launches -/

/-- Every value of every thread of a region launch is exact, in every launch over K. -/
def regionExact (s : GemmShape) (rowOffset colOffset rows cols : ℕ) : Prop :=
  ∀ i < kLaunches s.k, Exact (fun _ => kLoopIndices s.k i) ∧
    ∀ t : TileSite, t.InGrid rows cols → t.Inside (s.tileArgs i : TileArgs ℤ).kBlock →
      Exact fun _ => regionKernelIndices (s.tileArgs i) (lit rowOffset) (lit colOffset) (lit rows)
        (lit cols) t

/-- Every value of a tile kernel over the whole output is exact. -/
def TileKernel.exact (kernel : TileKernel) (s : GemmShape) : Prop :=
  ∀ i < kLaunches s.k, Exact (fun _ => kLoopIndices s.k i) ∧
    ∀ t : TileSite, t.InGrid s.m s.n → t.Inside (s.tileArgs i : TileArgs ℤ).kBlock →
      Exact fun _ => kernel.indices (s.tileArgs i) t

/-- Every value of the grouped task kernel and of its launcher is exact. -/
def groupedTasksExact (s : GemmShape) (taskCount rnsPrefix : ℕ) : Prop :=
  (∀ blockZ < taskCount * rnsPrefix, Exact fun _ => groupedTaskIndices taskCount rnsPrefix blockZ) ∧
    TileKernel.groupedTaskPrefix.exact s

/-- Every value of a column-pair kernel and of its launcher is exact. -/
def ColPairKernel.exact (kernel : ColPairKernel) (s : GemmShape) : Prop :=
  Exact (fun _ => colPairGridIndices s.m s.n) ∧
  ∀ i < kLaunches s.k, Exact (fun _ => kLoopIndices s.k i) ∧
    ∀ t : TileSite, t.InGrid s.m s.n → t.Inside (s.tileArgs i : TileArgs ℤ).kBlock →
      Exact fun _ => kernel.indices (s.tileArgs i) t

/-- Every value of the kernels for narrow outputs is exact; they run over `kRns8HipGemvSmallNMaxN`
columns. -/
def gemvExact (s : GemmShape) : Prop :=
  ∀ i < kLaunches s.k, Exact (fun _ => kLoopIndices s.k i) ∧
    ∀ row < s.m, ∀ kk < safeInt32KBlock, ∀ col < 8,
      Exact fun _ => gemvKernelIndices (s.tileArgs i) row kk col

/-- Every value of the persistent kernel is exact. -/
def persistentExact (m n : ℕ) : Prop :=
  ∀ blockX < (m * n + 255) / 256, ∀ threadX < 256,
    Exact fun _ => persistentKernelIndices m n blockX threadX

/-! ### Exact schedules -/

/-- `block_zero_rows` and `block_zero_cols`: a block whose rows in the tile, or whose columns in it,
are all declared zero. -/
def blockSkips (zeroARows zeroBCols : List ℕ) (entry : TileScheduleEntry) (blockY blockX : ℕ) :
    Bool :=
  entry.flags.zeroRowColProduct &&
    ((List.range 16).all (fun localRow => decide (entry.rowExtent ≤ blockY * 16 + localRow) ||
        decide (zeroARows.getD (entry.rowOffset + blockY * 16 + localRow) 0 ≠ 0)) ||
      (List.range 16).all (fun localCol => decide (entry.colExtent ≤ blockX * 16 + localCol) ||
        decide (zeroBCols.getD (entry.colOffset + blockX * 16 + localCol) 0 ≠ 0)))

/-- `scheduled_tile_block_shape`: the grid that covers every tile. -/
def maxTileBlocks (extents : List ℕ) : ℕ := (extents.map fun extent => (extent + 15) / 16).foldr max 0

/-- A schedule launch: the schedule and the masks. -/
structure ScheduleLaunch where
  entries : List TileScheduleEntry
  zeroARows : List ℕ
  zeroBCols : List ℕ

/-- `max_tile_row_blocks`. -/
def ScheduleLaunch.rowBlocks (l : ScheduleLaunch) : ℕ := maxTileBlocks (l.entries.map (·.rowExtent))

/-- `max_tile_col_blocks`. -/
def ScheduleLaunch.colBlocks (l : ScheduleLaunch) : ℕ := maxTileBlocks (l.entries.map (·.colExtent))

/-- `scheduled_tile_max_elements`. -/
def ScheduleLaunch.maxTileElements (l : ScheduleLaunch) : ℕ :=
  (l.entries.map fun entry => entry.rowExtent * entry.colExtent).foldr max 0

/-- Every value of the kernel over the active tiles is exact. -/
def ScheduleLaunch.activeExact (l : ScheduleLaunch) (s : GemmShape) : Prop :=
  ∀ i < kLaunches s.k, Exact (fun _ => kLoopIndices s.k i) ∧
    ∀ entry ∈ l.entries, entry.flags.zeroOutput = false → ∀ t : TileSite,
      t.blockY < l.rowBlocks → t.blockX < l.colBlocks →
      t.Inside (s.tileArgs i : TileArgs ℤ).kBlock →
      Exact fun _ => scheduleKernelIndices (s.tileArgs i) entry
        (blockSkips l.zeroARows l.zeroBCols entry t.blockY t.blockX) t

/-- Every value of the kernel that zeroes tiles is exact. -/
def ScheduleLaunch.zeroExact (l : ScheduleLaunch) : Prop :=
  ∀ blockX < l.entries.length * ((l.maxTileElements + 255) / 256), ∀ threadX < 256,
    Exact fun _ => zeroKernelIndices l.entries l.maxTileElements blockX threadX

end Rns8
