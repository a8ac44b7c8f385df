import Rns8.Hip.LaunchIndices

/-!
# Exactness of the direct HIP index arithmetic

The reading of each kernel in `int` is the reduction of its mathematical reading, because the values
that its guards compare are in range. Exactness is then a bound on the largest offset that the kernel
reaches (`exact_iff_fits`).
-/

namespace Rns8

open IndexArith

/-! ### The arguments of a launch -/

/-- The arguments converted to `int`. -/
def TileArgs.toInt32 (a : TileArgs ℤ) : TileArgs Int32 where
  m := Int32.ofInt a.m
  n := Int32.ofInt a.n
  kOffset := Int32.ofInt a.kOffset
  kBlock := Int32.ofInt a.kBlock
  lda := Int32.ofInt a.lda
  ldb := Int32.ofInt a.ldb
  ldc := Int32.ofInt a.ldc

/-- What the loop over `k` passes to the launch `i`. -/
structure TileArgs.Launched (s : GemmShape) (i : ℕ) (a : TileArgs ℤ) : Prop where
  m : a.m = s.m
  n : a.n = s.n
  kOffset : a.kOffset = 65536 * i
  kBlock : a.kBlock = min 65536 ((s.k : ℤ) - 65536 * i)
  lda : a.lda = s.lda
  ldb : a.ldb = s.ldb
  ldc : a.ldc = s.ldc
  below : 65536 * (i : ℤ) < s.k

theorem GemmShape.Valid.launched {s : GemmShape} {i : ℕ} (hi : i < kLaunches s.k) :
    TileArgs.Launched s i (s.tileArgs i) := by
  have hbelow : 65536 * (i : ℤ) < s.k := by
    unfold kLaunches at hi
    omega
  have hoff : blockOffset ((s.k : ℕ) : ℤ) ((safeInt32KBlock : ℕ) : ℤ) i = 65536 * i := by
    rw [blockOffset_int (by omega) (by omega)]
    simp only [safeInt32KBlock, Nat.cast_ofNat]
    omega
  refine ⟨rfl, rfl, hoff, ?_, rfl, rfl, rfl, hbelow⟩
  change blockAt (s.k : ℤ) (safeInt32KBlock : ℤ)
    (blockOffset (s.k : ℤ) (safeInt32KBlock : ℤ) i) = _
  rw [hoff, blockAt_int]
  rfl

theorem GemmShape.Valid.tileArgs_int32 {s : GemmShape} (h : s.Valid) (i : ℕ) :
    (s.tileArgs i : TileArgs Int32) = (s.tileArgs i : TileArgs ℤ).toInt32 := by
  have hsafe : (0 : ℤ) ≤ (safeInt32KBlock : ℕ) := by decide
  have hk := blockOffset_ofInt (Int.natCast_nonneg s.k) (fits_natCast.mpr h.k_le) hsafe
    (fits_natCast.mpr (by decide)) i
  simp only [GemmShape.tileArgs, TileArgs.toInt32, lit_int32, lit_int, hk.1, hk.2]

/-- **The loop over `k` is exact** for every accepted shape. -/
theorem kLoop_exact {s : GemmShape} (h : s.Valid) (i : ℕ) :
    Exact fun _ => kLoopIndices s.k i := by
  have hfit : Fits s.k := fits_natCast.mpr h.k_le
  have hsafe : Fits (safeInt32KBlock : ℕ) := fits_natCast.mpr (by decide)
  have hk := fun i => blockOffset_ofInt (Int.natCast_nonneg s.k) hfit
    (show (0 : ℤ) ≤ (safeInt32KBlock : ℕ) by decide) hsafe i
  have hoff : ∀ i, 0 ≤ blockOffset (s.k : ℤ) (safeInt32KBlock : ℤ) i ∧
      blockOffset (s.k : ℤ) (safeInt32KBlock : ℤ) i ≤ s.k := by
    intro i
    rw [blockOffset_int (by omega) (by omega)]
    have : 0 ≤ (i : ℤ) * (safeInt32KBlock : ℤ) := by positivity
    omega
  refine (exact_iff_fits ?_).mpr ?_
  · simp only [kLoopIndices, lit_int32, lit_int, (hk i).1, (hk i).2, (hk (i + 1)).1,
      List.map_cons, List.map_nil]
  · intro z hz
    have h0 := hoff i
    have h1 := hoff (i + 1)
    have hle := h.k_le
    simp only [kLoopIndices, lit_int, List.mem_cons, List.not_mem_nil, or_false] at hz
    rcases hz with rfl | rfl | rfl
    · exact fits_of_nonneg h0.1 (by omega)
    · rw [blockAt_int]
      exact fits_of_nonneg (by omega) (by omega)
    · exact fits_of_nonneg h1.1 (by omega)

/-! ### The loads -/

variable {s : GemmShape} {i : ℕ} {a : TileArgs ℤ} {ro co : ℤ} {t : TileSite}

/-- Row of the output and of `A` that a site belongs to. -/
def TileSite.row (t : TileSite) (rowOffset : ℤ) : ℤ := rowOffset + t.blockY * 16 + t.localRow

/-- Column of the output and of `B` that a site belongs to. -/
def TileSite.col (t : TileSite) (colOffset : ℤ) : ℤ := colOffset + t.blockX * 16 + t.localCol

/-- The position `source_k`. -/
def TileSite.sourceK (t : TileSite) (a : TileArgs ℤ) : ℤ :=
  a.kOffset + t.tileStep * 64 + t.localK

theorem tileExtent_int (kBlock tileK : ℤ) : tileExtent kBlock tileK = min 64 (kBlock - tileK) := by
  simp only [tileExtent, less_int, lit_int, hipTileK, Nat.cast_ofNat, Bool.cond_decide]
  split <;> omega

/-- The mathematical reading of the loads. -/
theorem tileLoadIndices_int (a : TileArgs ℤ) (ro co : ℤ) (t : TileSite) :
    tileLoadIndices a ro co t =
      [(t.blockY : ℤ) * 16, (t.blockX : ℤ) * 16, t.row ro, t.col co, (t.tileStep : ℤ) * 64,
        min 64 (a.kBlock - t.tileStep * 64), t.sourceK a] ++
      guarded (decide (t.row ro < a.m) && decide ((t.localK : ℤ) < min 64 (a.kBlock - t.tileStep * 64)))
        [t.row ro * a.lda + t.sourceK a] ++
      guarded (decide ((t.localK : ℤ) < min 64 (a.kBlock - t.tileStep * 64)) && decide (t.col co < a.n))
        [t.sourceK a * a.ldb + t.col co] := by
  simp only [tileLoadIndices, tileExtent_int, counter_int, lit_int, less_int, hipTile, hipTileK,
    Nat.cast_ofNat]
  rfl

/-- The extent of a step of the loop over the K block is exact. -/
theorem tileExtent_int32 (ha : a.Launched s i) (ht : t.Inside a.kBlock) :
    tileExtent (Int32.ofInt a.kBlock) (Int32.ofInt (counter 64 t.tileStep)) =
        Int32.ofInt (tileExtent a.kBlock (counter 64 t.tileStep)) ∧
      Fits (tileExtent a.kBlock (counter 64 t.tileStep)) := by
  have hkb := ha.kBlock
  have hstep := ht.step
  have h64 : Fits 64 := by decide
  have hsub : Fits (a.kBlock - counter 64 t.tileStep) := by
    rw [counter_int]
    exact fits_of_nonneg (by omega) (by omega)
  constructor
  · simp only [tileExtent, lit_int32, lit_int, hipTileK, Nat.cast_ofNat, ← Int32.ofInt_sub,
      less_ofInt hsub h64, less_int, cond_ofInt]
  · rw [tileExtent_int, counter_int]
    exact fits_of_nonneg (by omega) (by omega)

/-- The loads in `int` are the reduction of the mathematical ones. -/
theorem tileLoadIndices_int32 (ha : a.Launched s i) (h : s.Valid) (ht : t.Inside a.kBlock)
    (hrow : Fits (t.row ro)) (hcol : Fits (t.col co)) :
    tileLoadIndices a.toInt32 (Int32.ofInt ro) (Int32.ofInt co) t =
      (tileLoadIndices a ro co t).map Int32.ofInt := by
  have hlk := ht.localK
  obtain ⟨hext, hextFits⟩ := tileExtent_int32 ha ht
  have hlkFits : Fits (t.localK : ℤ) := fits_natCast.mpr (by omega)
  have hm : Fits a.m := by rw [ha.m]; exact fits_natCast.mpr h.m_le
  have hn : Fits a.n := by rw [ha.n]; exact fits_natCast.mpr h.n_le
  have hrow' : Fits (ro + (t.blockY : ℤ) * 16 + t.localRow) := hrow
  have hcol' : Fits (co + (t.blockX : ℤ) * 16 + t.localCol) := hcol
  simp only [tileLoadIndices, TileArgs.toInt32, lit_int32, lit_int, hipTile, hipTileK,
    Nat.cast_ofNat, counter_ofInt, ← Int32.ofInt_add, ← Int32.ofInt_mul, hext,
    less_ofInt hrow' hm, less_ofInt hcol' hn, less_ofInt hlkFits hextFits, less_int,
    List.map_append, List.map_cons, List.map_nil, map_guarded]

/-- The mathematical values of the loads that have no guard. -/
structure TileSite.Reach (s : GemmShape) (i : ℕ) (a : TileArgs ℤ) (t : TileSite) : Prop where
  sourceK_nonneg : 0 ≤ t.sourceK a
  sourceK_le : t.sourceK a ≤ 2147483647
  sourceK_lt : (t.localK : ℤ) < min 64 (a.kBlock - t.tileStep * 64) → t.sourceK a ≤ (s.k : ℤ) - 1
  tileK : (t.tileStep : ℤ) * 64 ≤ 65536
  extent : 0 ≤ min 64 (a.kBlock - (t.tileStep : ℤ) * 64)

theorem TileSite.Inside.reach (ha : a.Launched s i) (h : s.Valid) (ht : t.Inside a.kBlock) :
    t.Reach s i a := by
  have hstep := ht.step
  have hlk := ht.localK
  have hk := h.k_le
  have hkb := ha.kBlock
  have hsk : t.sourceK a = 65536 * i + t.tileStep * 64 + t.localK := by
    rw [TileSite.sourceK, ha.kOffset]
  constructor <;> omega

/-- The loads are exact when the rows and columns of the block fit and the largest offsets read do. -/
theorem tileLoadIndices_fits (ha : a.Launched s i) (h : s.Valid) (ht : t.Inside a.kBlock)
    {R C : ℕ} (hro : 0 ≤ ro) (hco : 0 ≤ co) (hrow : Fits (t.row ro)) (hcol : Fits (t.col co))
    (hR : t.row ro < s.m → t.row ro ≤ R) (hC : t.col co < s.n → t.col co ≤ C)
    (hA : R * s.lda + (s.k - 1) ≤ 2147483647) (hB : (s.k - 1) * s.ldb + C ≤ 2147483647) :
    ∀ z ∈ tileLoadIndices a ro co t, Fits z := by
  obtain ⟨hk0, hk1, hklt, hts, hext⟩ := ht.reach ha h
  have hk := h.k_pos
  have hr1 := hrow.2
  have hc1 := hcol.2
  have hrow0 : 0 ≤ t.row ro := by unfold TileSite.row; omega
  have hcol0 : 0 ≤ t.col co := by unfold TileSite.col; omega
  have hty : (t.blockY : ℤ) * 16 ≤ t.row ro := by unfold TileSite.row; omega
  have htx : (t.blockX : ℤ) * 16 ≤ t.col co := by unfold TileSite.col; omega
  intro z hz
  rw [tileLoadIndices_int] at hz
  simp only [List.mem_append, List.mem_cons, List.not_mem_nil, or_false, mem_guarded,
    Bool.and_eq_true, decide_eq_true_eq] at hz
  -- the scalars are bounded by the row, the column or the end of the block
  rcases hz with ((rfl | rfl | rfl | rfl | rfl | rfl | rfl) | ⟨⟨hlt, hkk⟩, rfl⟩) | ⟨⟨hkk, hlt⟩, rfl⟩
  · exact fits_of_nonneg (by omega) (by omega)
  · exact fits_of_nonneg (by omega) (by omega)
  · exact hrow
  · exact hcol
  · exact fits_of_nonneg (by omega) (by omega)
  · exact fits_of_nonneg hext (by omega)
  · exact fits_of_nonneg hk0 hk1
  · -- the offset read in `A`
    rw [ha.m] at hlt
    rw [ha.lda]
    have hle := offset_le (hR hlt) (hklt hkk) (Int.natCast_nonneg s.lda)
    have hA' : (R : ℤ) * s.lda + ((s.k - 1 : ℕ) : ℤ) ≤ 2147483647 := by exact_mod_cast hA
    exact fits_of_nonneg (by positivity) (by omega)
  · -- the offset read in `B`
    rw [ha.n] at hlt
    rw [ha.ldb]
    have hle := offset_le (hklt hkk) (hC hlt) (Int.natCast_nonneg s.ldb)
    have hB' : ((s.k - 1 : ℕ) : ℤ) * s.ldb + (C : ℤ) ≤ 2147483647 := by exact_mod_cast hB
    have hcast : ((s.k - 1 : ℕ) : ℤ) = (s.k : ℤ) - 1 := by omega
    rw [hcast] at hB'
    exact fits_of_nonneg (by positivity) (by omega)

/-! ### The outputs -/

theorem regionOutputIndices_int (a : TileArgs ℤ) (ro co rows cols : ℤ) (t : TileSite) :
    regionOutputIndices a ro co rows cols t =
      [t.row ro, t.col co] ++
      guarded (decide (t.row ro < a.m) && decide (t.col co < a.n) &&
        decide ((t.blockY : ℤ) * 16 + t.localRow < rows) &&
        decide ((t.blockX : ℤ) * 16 + t.localCol < cols)) [t.row ro * a.ldc + t.col co] := by
  simp only [regionOutputIndices, lit_int, less_int, hipTile, Nat.cast_ofNat]
  rfl

/-- The outputs in `int` are the reduction of the mathematical ones. -/
theorem regionOutputIndices_int32 (ha : a.Launched s i) (h : s.Valid) {rows cols : ℤ} (hro : 0 ≤ ro)
    (hco : 0 ≤ co) (hrow : Fits (t.row ro)) (hcol : Fits (t.col co)) (hrows : Fits rows)
    (hcols : Fits cols) :
    regionOutputIndices a.toInt32 (Int32.ofInt ro) (Int32.ofInt co) (Int32.ofInt rows)
        (Int32.ofInt cols) t = (regionOutputIndices a ro co rows cols t).map Int32.ofInt := by
  have hm : Fits a.m := by rw [ha.m]; exact fits_natCast.mpr h.m_le
  have hn : Fits a.n := by rw [ha.n]; exact fits_natCast.mpr h.n_le
  have hrow' : Fits (ro + (t.blockY : ℤ) * 16 + t.localRow) := hrow
  have hcol' : Fits (co + (t.blockX : ℤ) * 16 + t.localCol) := hcol
  have hrow0 : Fits ((t.blockY : ℤ) * 16 + t.localRow) :=
    fits_of_nonneg (by positivity) (by have := hrow'.2; omega)
  have hcol0 : Fits ((t.blockX : ℤ) * 16 + t.localCol) :=
    fits_of_nonneg (by positivity) (by have := hcol'.2; omega)
  simp only [regionOutputIndices, TileArgs.toInt32, lit_int32, lit_int, hipTile, Nat.cast_ofNat,
    ← Int32.ofInt_add, ← Int32.ofInt_mul, less_ofInt hrow' hm, less_ofInt hcol' hn,
    less_ofInt hrow0 hrows, less_ofInt hcol0 hcols, less_int, List.map_append, List.map_cons,
    List.map_nil, map_guarded]

/-- The outputs are exact when the rows and columns of the block fit and the last output does. -/
theorem regionOutputIndices_fits (ha : a.Launched s i) {rowOffset colOffset rows cols : ℕ}
    (hrows : 0 < rows) (hcols : 0 < cols) (hrow : Fits (t.row rowOffset))
    (hcol : Fits (t.col colOffset))
    (hC : (rowOffset + rows - 1) * s.ldc + (colOffset + cols - 1) ≤ 2147483647) :
    ∀ z ∈ regionOutputIndices a rowOffset colOffset rows cols t, Fits z := by
  intro z hz
  rw [regionOutputIndices_int] at hz
  simp only [List.mem_append, List.mem_cons, List.not_mem_nil, or_false, mem_guarded,
    Bool.and_eq_true, decide_eq_true_eq] at hz
  rcases hz with (rfl | rfl) | ⟨⟨⟨⟨-, -⟩, hr⟩, hc⟩, rfl⟩
  · exact hrow
  · exact hcol
  · rw [ha.ldc]
    have hr' : t.row rowOffset ≤ ((rowOffset + rows - 1 : ℕ) : ℤ) := by
      unfold TileSite.row
      omega
    have hc' : t.col colOffset ≤ ((colOffset + cols - 1 : ℕ) : ℤ) := by
      unfold TileSite.col
      omega
    have hle := offset_le hr' hc' (Int.natCast_nonneg s.ldc)
    have hr0 : 0 ≤ t.row rowOffset := by unfold TileSite.row; omega
    have hc0 : 0 ≤ t.col colOffset := by unfold TileSite.col; omega
    have hC' : ((rowOffset + rows - 1 : ℕ) : ℤ) * s.ldc + ((colOffset + cols - 1 : ℕ) : ℤ) ≤
        2147483647 := by exact_mod_cast hC
    exact fits_of_nonneg (by positivity) (by omega)

/-! ### Region launches -/

/-- The rows and columns that the loads of a region launch reach: the blocks of the grid, cut at the
matrix. -/
def regionReach (dim offset extent : ℕ) : ℕ := min dim (offset + (extent + 15) / 16 * 16)

/-- When the indices of a region launch fit: the rows and columns of its blocks, the last elements it
reads in `A` and `B`, and the last one it writes in `C`. -/
def regionFits (s : GemmShape) (rowOffset colOffset rows cols : ℕ) : Prop :=
  rowOffset + (rows + 15) / 16 * 16 ≤ 2147483648 ∧ colOffset + (cols + 15) / 16 * 16 ≤ 2147483648 ∧
    (regionReach s.m rowOffset rows - 1) * s.lda + (s.k - 1) ≤ 2147483647 ∧
    (s.k - 1) * s.ldb + (regionReach s.n colOffset cols - 1) ≤ 2147483647 ∧
    (rowOffset + rows - 1) * s.ldc + (colOffset + cols - 1) ≤ 2147483647

/-- The site of a row, a column and a position of the K block. -/
def siteAt (row col kk : ℕ) : TileSite where
  blockY := row / 16
  localRow := row % 16
  blockX := col / 16
  localCol := col % 16
  tileStep := kk / 64
  localK := kk % 64

theorem siteAt_row (row col kk : ℕ) (ro : ℤ) : (siteAt row col kk).row ro = ro + row := by
  simp only [siteAt, TileSite.row]
  omega

theorem siteAt_col (row col kk : ℕ) (co : ℤ) : (siteAt row col kk).col co = co + col := by
  simp only [siteAt, TileSite.col]
  omega

theorem siteAt_sourceK (row col kk : ℕ) (a : TileArgs ℤ) :
    (siteAt row col kk).sourceK a = a.kOffset + kk := by
  simp only [siteAt, TileSite.sourceK]
  omega

theorem siteAt_inside {kBlock : ℤ} (row col : ℕ) {kk : ℕ} (hkk : (kk : ℤ) < kBlock) :
    (siteAt row col kk).Inside kBlock := by
  constructor <;> simp only [siteAt] <;> omega

theorem siteAt_inGrid {rows cols : ℕ} (row col kk : ℕ) (hrow : row < (rows + 15) / 16 * 16)
    (hcol : col < (cols + 15) / 16 * 16) : (siteAt row col kk).InGrid rows cols := by
  constructor <;> simp only [siteAt] <;> omega

/-- The launch over the last K block, and the last position in it. -/
theorem lastLaunch {s : GemmShape} (h : s.Valid) : ∃ i kk : ℕ, i < kLaunches s.k ∧
    (kk : ℤ) < (s.tileArgs i : TileArgs ℤ).kBlock ∧
    (s.tileArgs i : TileArgs ℤ).kOffset + kk = (s.k - 1 : ℕ) := by
  have hk := h.k_pos
  have hi : (s.k - 1) / 65536 < kLaunches s.k := by
    unfold kLaunches
    omega
  have ha := GemmShape.Valid.launched (s := s) hi
  have hkb := ha.kBlock
  have hko := ha.kOffset
  refine ⟨(s.k - 1) / 65536, (s.k - 1) % 65536, hi, ?_, ?_⟩ <;> omega

/-- The reading of a region kernel in `int` is the reduction of the mathematical one. -/
theorem regionKernelIndices_int32 {s : GemmShape} (h : s.Valid) {i : ℕ} (hi : i < kLaunches s.k)
    {ro co rows cols : ℕ} {t : TileSite} (ht : t.Inside (s.tileArgs i : TileArgs ℤ).kBlock)
    (hrow : Fits (t.row ro)) (hcol : Fits (t.col co)) (hrows : rows ≤ 2147483647)
    (hcols : cols ≤ 2147483647) :
    regionKernelIndices (s.tileArgs i : TileArgs Int32) (lit ro) (lit co) (lit rows) (lit cols) t =
      (regionKernelIndices (s.tileArgs i : TileArgs ℤ) (lit ro) (lit co) (lit rows) (lit cols)
        t).map Int32.ofInt := by
  have ha := GemmShape.Valid.launched hi
  rw [regionKernelIndices, regionKernelIndices, h.tileArgs_int32, List.map_append]
  simp only [lit_int32, lit_int]
  rw [tileLoadIndices_int32 ha h ht hrow hcol, regionOutputIndices_int32 ha h (by omega) (by omega)
    hrow hcol (fits_natCast.mpr hrows) (fits_natCast.mpr hcols)]

/-- Loads that fit bound the rows and columns of the grid and the last elements read. -/
theorem reach_of_loads_fit {s : GemmShape} (h : s.Valid) {rowOffset colOffset rows cols : ℕ}
    (hrows : 0 < rows) (hcols : 0 < cols) (hr : rows ≤ s.m - rowOffset)
    (hc : cols ≤ s.n - colOffset)
    (hfit : ∀ i < kLaunches s.k, ∀ t : TileSite, t.InGrid rows cols →
      t.Inside (s.tileArgs i : TileArgs ℤ).kBlock →
      ∀ z ∈ tileLoadIndices (s.tileArgs i) (rowOffset : ℤ) (colOffset : ℤ) t, Fits z) :
    rowOffset + (rows + 15) / 16 * 16 ≤ 2147483648 ∧
      colOffset + (cols + 15) / 16 * 16 ≤ 2147483648 ∧
      (regionReach s.m rowOffset rows - 1) * s.lda + (s.k - 1) ≤ 2147483647 ∧
      (s.k - 1) * s.ldb + (regionReach s.n colOffset cols - 1) ≤ 2147483647 := by
  obtain ⟨i, kk, hi, hkk, hlast⟩ := lastLaunch h
  have ha := GemmShape.Valid.launched (s := s) hi
  have hkb := ha.kBlock
  -- the values of a site of the last launch fit
  have hsite : ∀ row col, row < (rows + 15) / 16 * 16 → col < (cols + 15) / 16 * 16 →
      ∀ z ∈ tileLoadIndices (s.tileArgs i) (rowOffset : ℤ) (colOffset : ℤ) (siteAt row col kk),
        Fits z := fun row col hrow hcol =>
    hfit i hi _ (siteAt_inGrid _ _ kk hrow hcol) (siteAt_inside row col hkk)
  have hload : ((siteAt 0 0 kk).localK : ℤ) <
      min 64 ((s.tileArgs i : TileArgs ℤ).kBlock - ((siteAt 0 0 kk).tileStep : ℤ) * 64) := by
    simp only [siteAt]
    omega
  -- the last row and the last column of the grid first
  refine ⟨?_, ?_, ?_, ?_⟩
  · have hz := hsite ((rows + 15) / 16 * 16 - 1) 0 (by omega) (by omega)
      ((siteAt ((rows + 15) / 16 * 16 - 1) 0 kk).row rowOffset)
      (by simp [tileLoadIndices_int])
    rw [siteAt_row] at hz
    have := hz.2
    omega
  · have hz := hsite 0 ((cols + 15) / 16 * 16 - 1) (by omega) (by omega)
      ((siteAt 0 ((cols + 15) / 16 * 16 - 1) kk).col colOffset)
      (by simp [tileLoadIndices_int])
    rw [siteAt_col] at hz
    have := hz.2
    omega
  · -- the last element read in `A`
    have hreach : regionReach s.m rowOffset rows ≤ s.m ∧ rowOffset < regionReach s.m rowOffset rows ∧
        regionReach s.m rowOffset rows ≤ rowOffset + (rows + 15) / 16 * 16 := by
      unfold regionReach
      omega
    generalize regionReach s.m rowOffset rows = R at hreach ⊢
    have hrow : (siteAt (R - 1 - rowOffset) 0 kk).row rowOffset = (R - 1 : ℕ) := by
      rw [siteAt_row]
      omega
    have hz := hsite (R - 1 - rowOffset) 0 (by omega) (by omega)
      ((R - 1 : ℕ) * s.lda + (s.k - 1 : ℕ)) (by
        rw [tileLoadIndices_int, hrow, siteAt_sourceK, hlast, ha.lda, ha.m]
        simp only [List.mem_append, mem_guarded, Bool.and_eq_true, decide_eq_true_eq]
        exact Or.inl (Or.inr ⟨⟨by omega, hload⟩, by simp⟩))
    exact_mod_cast hz.2
  · -- the last element read in `B`
    have hreach : regionReach s.n colOffset cols ≤ s.n ∧ colOffset < regionReach s.n colOffset cols ∧
        regionReach s.n colOffset cols ≤ colOffset + (cols + 15) / 16 * 16 := by
      unfold regionReach
      omega
    generalize regionReach s.n colOffset cols = C at hreach ⊢
    have hcol : (siteAt 0 (C - 1 - colOffset) kk).col colOffset = (C - 1 : ℕ) := by
      rw [siteAt_col]
      omega
    have hz := hsite 0 (C - 1 - colOffset) (by omega) (by omega)
      ((s.k - 1 : ℕ) * s.ldb + (C - 1 : ℕ)) (by
        rw [tileLoadIndices_int, hcol, siteAt_sourceK, hlast, ha.ldb, ha.n]
        simp only [List.mem_append, mem_guarded, Bool.and_eq_true, decide_eq_true_eq]
        exact Or.inr ⟨⟨hload, by omega⟩, by simp⟩)
    exact_mod_cast hz.2

/-- The rows and columns of a block of the grid stay below the end of the grid. -/
theorem TileSite.InGrid.row_lt {rows cols : ℕ} (hgrid : t.InGrid rows cols) {kBlock : ℤ}
    (ht : t.Inside kBlock) (rowOffset colOffset : ℕ) :
    (0 ≤ t.row rowOffset ∧ t.row rowOffset < rowOffset + (((rows + 15) / 16 * 16 : ℕ) : ℤ)) ∧
      0 ≤ t.col colOffset ∧ t.col colOffset < colOffset + (((cols + 15) / 16 * 16 : ℕ) : ℤ) := by
  have hby := hgrid.blockY
  have hbx := hgrid.blockX
  have hlr := ht.localRow
  have hlc := ht.localCol
  unfold TileSite.row TileSite.col
  omega

/-- **Region launches.** The index arithmetic of a region launch is exact exactly when its largest
row, column and offsets are at most `INT_MAX`. -/
theorem regionExact_iff {s : GemmShape} (h : s.Valid) {rowOffset colOffset rows cols : ℕ}
    (hrows : 0 < rows) (hcols : 0 < cols) (hr : rows ≤ s.m - rowOffset)
    (hc : cols ≤ s.n - colOffset) :
    regionExact s rowOffset colOffset rows cols ↔ regionFits s rowOffset colOffset rows cols := by
  have hm := h.m_le
  have hn := h.n_le
  constructor
  · intro hex
    have hfit : ∀ i < kLaunches s.k, ∀ t : TileSite, t.InGrid rows cols →
        t.Inside (s.tileArgs i : TileArgs ℤ).kBlock → ∀ z ∈ regionKernelIndices (s.tileArgs i)
          (rowOffset : ℤ) (colOffset : ℤ) (rows : ℤ) (cols : ℤ) t, Fits z :=
      fun i hi t hgrid ht => ((hex i hi).2 t hgrid ht).fits
    obtain ⟨hrow, hcol, hA, hB⟩ := reach_of_loads_fit h hrows hcols hr hc
      fun i hi t hgrid ht z hz => hfit i hi t hgrid ht z (List.mem_append_left _ hz)
    refine ⟨hrow, hcol, hA, hB, ?_⟩
    -- the last output
    obtain ⟨i, kk, hi, hkk, -⟩ := lastLaunch h
    have ha := GemmShape.Valid.launched (s := s) hi
    have hlastRow : (siteAt (rows - 1) (cols - 1) kk).row rowOffset = (rowOffset + rows - 1 : ℕ) := by
      rw [siteAt_row]
      omega
    have hlastCol : (siteAt (rows - 1) (cols - 1) kk).col colOffset = (colOffset + cols - 1 : ℕ) := by
      rw [siteAt_col]
      omega
    have hz := hfit i hi _ (siteAt_inGrid (rows - 1) (cols - 1) kk (by omega) (by omega))
      (siteAt_inside _ _ hkk) ((rowOffset + rows - 1 : ℕ) * s.ldc + (colOffset + cols - 1 : ℕ)) (by
        refine List.mem_append_right _ ?_
        rw [regionOutputIndices_int, hlastRow, hlastCol, ha.ldc, ha.m, ha.n]
        simp only [List.mem_append, mem_guarded, Bool.and_eq_true, decide_eq_true_eq]
        refine Or.inr ⟨⟨⟨⟨by omega, by omega⟩, ?_⟩, ?_⟩, by simp⟩ <;>
          simp only [siteAt] <;> omega)
    exact_mod_cast hz.2
  · rintro ⟨hrow, hcol, hA, hB, hC⟩ i hi
    have ha := GemmShape.Valid.launched (s := s) hi
    refine ⟨kLoop_exact h i, fun t hgrid ht => ?_⟩
    obtain ⟨hr1, hc1⟩ := hgrid.row_lt ht rowOffset colOffset
    have hrowFits : Fits (t.row rowOffset) := fits_of_nonneg hr1.1 (by omega)
    have hcolFits : Fits (t.col colOffset) := fits_of_nonneg hc1.1 (by omega)
    refine (exact_iff_fits (regionKernelIndices_int32 h hi ht hrowFits hcolFits (by omega)
      (by omega))).mpr fun z hz => ?_
    -- the values of the loads and those of the outputs
    rcases List.mem_append.mp hz with hz | hz
    · refine tileLoadIndices_fits ha h ht (Int.natCast_nonneg _) (Int.natCast_nonneg _) hrowFits
        hcolFits (fun hlt => ?_) (fun hlt => ?_) hA hB z hz
      · unfold regionReach
        omega
      · unfold regionReach
        omega
    · exact regionOutputIndices_fits ha hrows hcols hrowFits hcolFits hC z hz

/-! ### Launches over the whole output -/

/-- The last elements of `A`, `B` and `C` lie at offsets of at most `INT_MAX`. -/
def GemmShape.fits (s : GemmShape) : Prop :=
  (s.m - 1) * s.lda + (s.k - 1) ≤ 2147483647 ∧ (s.k - 1) * s.ldb + (s.n - 1) ≤ 2147483647 ∧
    (s.m - 1) * s.ldc + (s.n - 1) ≤ 2147483647

instance (s : GemmShape) : Decidable s.fits := inferInstanceAs (Decidable (_ ∧ _ ∧ _))

theorem regionReach_whole (dim : ℕ) : regionReach dim 0 dim = dim := by
  unfold regionReach
  omega

theorem regionFits_whole {s : GemmShape} (h : s.Valid) : regionFits s 0 0 s.m s.n ↔ s.fits := by
  have hm := h.m_le
  have hn := h.n_le
  simp only [regionFits, GemmShape.fits, regionReach_whole, Nat.zero_add]
  constructor
  · rintro ⟨-, -, hA, hB, hC⟩
    exact ⟨hA, hB, hC⟩
  · rintro ⟨hA, hB, hC⟩
    exact ⟨by omega, by omega, hA, hB, hC⟩

/-- **Tile kernels.** -/
theorem TileKernel.launch_exact_iff (kernel : TileKernel) {s : GemmShape} (h : s.Valid) :
    kernel.exact s ↔ s.fits := by
  have hregion : kernel.exact s ↔ regionExact s 0 0 s.m s.n := by
    cases kernel <;> exact Iff.rfl
  rw [hregion, regionExact_iff h h.m_pos h.n_pos (by omega) (by omega), regionFits_whole h]

/-! ### Column pairs -/

theorem colPairOutputIndices_int (a : TileArgs ℤ) (t : TileSite) :
    colPairOutputIndices a t =
      [(t.blockY : ℤ) * 16 + t.localRow, (t.blockX : ℤ) * 16 + t.localCol * 2,
        (t.blockX : ℤ) * 16 + t.localCol * 2 + 1] ++
      guarded (decide ((t.blockY : ℤ) * 16 + t.localRow < a.m) &&
          decide ((t.blockX : ℤ) * 16 + t.localCol * 2 < a.n))
        [((t.blockY : ℤ) * 16 + t.localRow) * a.ldc + ((t.blockX : ℤ) * 16 + t.localCol * 2)] ++
      guarded (decide ((t.blockY : ℤ) * 16 + t.localRow < a.m) &&
          decide ((t.blockX : ℤ) * 16 + t.localCol * 2 + 1 < a.n))
        [((t.blockY : ℤ) * 16 + t.localRow) * a.ldc + ((t.blockX : ℤ) * 16 + t.localCol * 2 + 1)] := by
  simp only [colPairOutputIndices, lit_int, less_int, hipTile, Nat.cast_ofNat]

theorem colPairOutputIndices_int32 (ha : a.Launched s i) (h : s.Valid) (hgrid : t.InGrid s.m s.n)
    (ht : t.Inside a.kBlock) (hpair : t.localCol < 8) :
    colPairOutputIndices a.toInt32 t = (colPairOutputIndices a t).map Int32.ofInt := by
  have hm : Fits a.m := by rw [ha.m]; exact fits_natCast.mpr h.m_le
  have hn : Fits a.n := by rw [ha.n]; exact fits_natCast.mpr h.n_le
  have hml := h.m_le
  have hnl := h.n_le
  have hby := hgrid.blockY
  have hbx := hgrid.blockX
  have hlr := ht.localRow
  have hrow : Fits ((t.blockY : ℤ) * 16 + t.localRow) := fits_of_nonneg (by positivity) (by omega)
  have hcol0 : Fits ((t.blockX : ℤ) * 16 + t.localCol * 2) :=
    fits_of_nonneg (by positivity) (by omega)
  have hcol1 : Fits ((t.blockX : ℤ) * 16 + t.localCol * 2 + 1) :=
    fits_of_nonneg (by positivity) (by omega)
  simp only [colPairOutputIndices, TileArgs.toInt32, lit_int32, lit_int, hipTile, Nat.cast_ofNat,
    ← Int32.ofInt_add, ← Int32.ofInt_mul, less_ofInt hrow hm, less_ofInt hcol0 hn,
    less_ofInt hcol1 hn, less_int, List.map_append, List.map_cons, List.map_nil, map_guarded]

theorem colPairOutputIndices_fits (ha : a.Launched s i) (h : s.Valid) (hgrid : t.InGrid s.m s.n)
    (ht : t.Inside a.kBlock) (hpair : t.localCol < 8)
    (hC : (s.m - 1) * s.ldc + (s.n - 1) ≤ 2147483647) :
    ∀ z ∈ colPairOutputIndices a t, Fits z := by
  have hml := h.m_le
  have hnl := h.n_le
  have hby := hgrid.blockY
  have hbx := hgrid.blockX
  have hlr := ht.localRow
  have hC' : ((s.m - 1 : ℕ) : ℤ) * s.ldc + ((s.n - 1 : ℕ) : ℤ) ≤ 2147483647 := by exact_mod_cast hC
  -- an active output is at most the last one
  have hout : ∀ col : ℤ, 0 ≤ col → (t.blockY : ℤ) * 16 + t.localRow < a.m → col < a.n →
      Fits (((t.blockY : ℤ) * 16 + t.localRow) * a.ldc + col) := by
    intro col hcol0 hrow hcol
    rw [ha.m] at hrow
    rw [ha.n] at hcol
    rw [ha.ldc]
    have hle := offset_le (q := (t.blockY : ℤ) * 16 + t.localRow) (Q := ((s.m - 1 : ℕ) : ℤ))
      (r := col) (R := ((s.n - 1 : ℕ) : ℤ)) (by omega) (by omega) (Int.natCast_nonneg s.ldc)
    exact fits_of_nonneg (by positivity) (by omega)
  intro z hz
  rw [colPairOutputIndices_int] at hz
  simp only [List.mem_append, List.mem_cons, List.not_mem_nil, or_false, mem_guarded,
    Bool.and_eq_true, decide_eq_true_eq] at hz
  rcases hz with ((rfl | rfl | rfl) | ⟨⟨hrow, hcol⟩, rfl⟩) | ⟨⟨hrow, hcol⟩, rfl⟩
  · exact fits_of_nonneg (by positivity) (by omega)
  · exact fits_of_nonneg (by positivity) (by omega)
  · exact fits_of_nonneg (by positivity) (by omega)
  · exact hout _ (by positivity) hrow hcol
  · exact hout _ (by positivity) hrow hcol

/-- The grid of the column-pair launchers overflows near `INT_MAX`. -/
theorem colPairGrid_exact_iff {m n : ℕ} :
    Exact (fun _ => colPairGridIndices m n) ↔ m + 15 ≤ 2147483647 ∧ n + 15 ≤ 2147483647 := by
  constructor
  · intro hex
    have hn := hex.fits ((n : ℤ) + 16 - 1) (by simp [colPairGridIndices, hipTile])
    have hm := hex.fits ((m : ℤ) + 16 - 1) (by simp [colPairGridIndices, hipTile])
    have h1 := hn.2
    have h2 := hm.2
    omega
  · rintro ⟨hm, hn⟩
    have hnf : Fits ((n : ℤ) + 16 - 1) := fits_of_nonneg (by omega) (by omega)
    have hmf : Fits ((m : ℤ) + 16 - 1) := fits_of_nonneg (by omega) (by omega)
    have h16 : Fits 16 := by decide
    refine (exact_iff_fits ?_).mpr ?_
    · simp only [colPairGridIndices, lit_int32, lit_int, quot_int, hipTile, Nat.cast_ofNat,
        ← Int32.ofInt_add, ← Int32.ofInt_sub, quot_ofInt hnf h16, quot_ofInt hmf h16, List.map_cons,
        List.map_nil]
    · intro z hz
      simp only [colPairGridIndices, lit_int, quot_int, hipTile, Nat.cast_ofNat, List.mem_cons,
        List.not_mem_nil, or_false] at hz
      rw [Int.tdiv_eq_ediv_of_nonneg (by omega), Int.tdiv_eq_ediv_of_nonneg (by omega)] at hz
      rcases hz with rfl | rfl | rfl | rfl <;> exact fits_of_nonneg (by omega) (by omega)

theorem ColPairKernel.indices_eq (kernel : ColPairKernel) {α : Type} [Add α] [Sub α] [Mul α] [Ops α]
    (a : TileArgs α) (t : TileSite) : kernel.indices a t =
      tileLoadIndices a (lit 0) (lit 0) t ++
        guarded (decide (t.localCol < 8)) (colPairOutputIndices a t) := by
  cases kernel <;> rfl

/-- **Column-pair kernels.** Their launchers add `15` to the dimensions in `int`. -/
theorem ColPairKernel.launch_exact_iff (kernel : ColPairKernel) {s : GemmShape} (h : s.Valid) :
    kernel.exact s ↔ s.fits ∧ s.m + 15 ≤ 2147483647 ∧ s.n + 15 ≤ 2147483647 := by
  have hm := h.m_le
  have hn := h.n_le
  have hm0 := h.m_pos
  have hn0 := h.n_pos
  rw [ColPairKernel.exact, colPairGrid_exact_iff, and_comm]
  refine and_congr_left fun _ => ?_
  simp only [kernel.indices_eq]
  constructor
  · intro hex
    have hfit : ∀ i < kLaunches s.k, ∀ t : TileSite, t.InGrid s.m s.n →
        t.Inside (s.tileArgs i : TileArgs ℤ).kBlock → ∀ z ∈ tileLoadIndices (s.tileArgs i)
          ((0 : ℕ) : ℤ) ((0 : ℕ) : ℤ) t ++
            guarded (decide (t.localCol < 8)) (colPairOutputIndices (s.tileArgs i) t), Fits z :=
      fun i hi t hgrid ht => ((hex i hi).2 t hgrid ht).fits
    obtain ⟨-, -, hA, hB⟩ := reach_of_loads_fit h hm0 hn0 (by omega) (by omega)
      fun i hi t hgrid ht z hz => hfit i hi t hgrid ht z (List.mem_append_left _ hz)
    rw [regionReach_whole] at hA hB
    refine ⟨hA, hB, ?_⟩
    -- the pair that owns the last column
    obtain ⟨i, kk, hi, hkk, -⟩ := lastLaunch h
    have ha := GemmShape.Valid.launched (s := s) hi
    have hz := hfit i hi _ (siteAt_inGrid (s.m - 1)
      ((s.n - 1) / 16 * 16 + (s.n - 1) % 16 / 2) kk (by omega) (by omega))
      (siteAt_inside _ _ hkk) ((s.m - 1 : ℕ) * s.ldc + (s.n - 1 : ℕ)) (by
        refine List.mem_append_right _ ?_
        rw [mem_guarded, colPairOutputIndices_int, ha.ldc, ha.m, ha.n]
        have hrow : ((siteAt (s.m - 1) ((s.n - 1) / 16 * 16 + (s.n - 1) % 16 / 2) kk).blockY : ℤ) * 16
            + (siteAt (s.m - 1) ((s.n - 1) / 16 * 16 + (s.n - 1) % 16 / 2) kk).localRow =
            ((s.m - 1 : ℕ) : ℤ) := by
          simp only [siteAt]
          omega
        have hcol : ((siteAt (s.m - 1) ((s.n - 1) / 16 * 16 + (s.n - 1) % 16 / 2) kk).blockX : ℤ) * 16
            + (siteAt (s.m - 1) ((s.n - 1) / 16 * 16 + (s.n - 1) % 16 / 2) kk).localCol * 2 =
            (((s.n - 1) / 2 * 2 : ℕ) : ℤ) := by
          simp only [siteAt]
          omega
        rw [hrow, hcol]
        refine ⟨decide_eq_true (by simp only [siteAt]; omega), ?_⟩
        simp only [List.mem_append, mem_guarded, Bool.and_eq_true, decide_eq_true_eq,
          List.mem_singleton]
        -- the last column is the first or the second of its pair
        rcases Nat.even_or_odd' (s.n - 1) with ⟨c, hc | hc⟩
        · exact Or.inl (Or.inr ⟨⟨by omega, by omega⟩, by rw [show (s.n - 1) / 2 * 2 = s.n - 1 by omega]⟩)
        · refine Or.inr ⟨⟨by omega, by omega⟩, ?_⟩
          rw [show (((s.n - 1) / 2 * 2 : ℕ) : ℤ) + 1 = ((s.n - 1 : ℕ) : ℤ) by omega])
    exact_mod_cast hz.2
  · rintro ⟨hA, hB, hC⟩ i hi
    have ha := GemmShape.Valid.launched (s := s) hi
    refine ⟨kLoop_exact h i, fun t hgrid ht => ?_⟩
    obtain ⟨hr1, hc1⟩ := hgrid.row_lt ht 0 0
    have hrowFits : Fits (t.row 0) := fits_of_nonneg hr1.1 (by push_cast at hr1 ⊢; omega)
    have hcolFits : Fits (t.col 0) := fits_of_nonneg hc1.1 (by push_cast at hc1 ⊢; omega)
    refine (exact_iff_fits ?_).mpr fun z hz => ?_
    · rw [h.tileArgs_int32, List.map_append, map_guarded, lit_int32, lit_int,
        tileLoadIndices_int32 ha h ht hrowFits hcolFits]
      -- threads past the eighth column own no pair
      by_cases hpair : t.localCol < 8
      · rw [colPairOutputIndices_int32 ha h hgrid ht hpair]
      · simp [guarded, hpair]
    · rcases List.mem_append.mp hz with hz | hz
      · exact tileLoadIndices_fits ha h ht (R := s.m - 1) (C := s.n - 1) le_rfl le_rfl hrowFits
          hcolFits (fun hlt => by omega) (fun hlt => by omega) hA hB z hz
      · rw [mem_guarded, decide_eq_true_eq] at hz
        exact colPairOutputIndices_fits ha h hgrid ht hz.1 hC z hz.2

/-! ### Narrow outputs -/

theorem gemvKernelIndices_int (a : TileArgs ℤ) (row kk col : ℕ) :
    gemvKernelIndices a row kk col =
      [(row : ℤ)] ++
      guarded (decide ((kk : ℤ) < a.kBlock))
        ([a.kOffset + kk, row * a.lda + (a.kOffset + kk)] ++
          guarded (decide ((col : ℤ) < a.n)) [(a.kOffset + kk) * a.ldb + col]) ++
      guarded (decide ((col : ℤ) < a.n)) [row * a.ldc + col] := by
  simp only [gemvKernelIndices, lit_int, less_int]

/-- **Narrow outputs.** -/
theorem gemvExact_iff {s : GemmShape} (h : s.Valid) (hn8 : s.n ≤ 8) : gemvExact s ↔ s.fits := by
  have hm := h.m_le
  have hm0 := h.m_pos
  have hn0 := h.n_pos
  have hk := h.k_le
  constructor
  · intro hex
    -- the thread of the last row, at the last position, with the last column
    obtain ⟨i, kk, hi, hkk, hlast⟩ := lastLaunch h
    have ha := GemmShape.Valid.launched (s := s) hi
    have hkb := ha.kBlock
    have hsafe : safeInt32KBlock = 65536 := rfl
    have hfit := ((hex i hi).2 (s.m - 1) (by omega) kk (by omega) (s.n - 1) (by omega)).fits
    have hcol : ((s.n - 1 : ℕ) : ℤ) < (s.tileArgs i : TileArgs ℤ).n := by
      rw [ha.n]
      omega
    simp only [gemvKernelIndices_int, hlast, List.mem_append, mem_guarded, decide_eq_true_eq,
      List.mem_cons, List.not_mem_nil, or_false] at hfit
    refine ⟨?_, ?_, ?_⟩
    · have hz := hfit ((s.m - 1 : ℕ) * (s.tileArgs i : TileArgs ℤ).lda + (s.k - 1 : ℕ))
        (Or.inl (Or.inr ⟨hkk, Or.inl (Or.inr rfl)⟩))
      rw [ha.lda] at hz
      exact_mod_cast hz.2
    · have hz := hfit ((s.k - 1 : ℕ) * (s.tileArgs i : TileArgs ℤ).ldb + (s.n - 1 : ℕ))
        (Or.inl (Or.inr ⟨hkk, Or.inr ⟨hcol, rfl⟩⟩))
      rw [ha.ldb] at hz
      exact_mod_cast hz.2
    · have hz := hfit ((s.m - 1 : ℕ) * (s.tileArgs i : TileArgs ℤ).ldc + (s.n - 1 : ℕ))
        (Or.inr ⟨hcol, rfl⟩)
      rw [ha.ldc] at hz
      exact_mod_cast hz.2
  -- no thread forms a larger offset
  · rintro ⟨hA, hB, hC⟩ i hi
    refine ⟨kLoop_exact h i, fun row hrow kk hkk col hcol => ?_⟩
    have ha := GemmShape.Valid.launched (s := s) hi
    have hkb := ha.kBlock
    have hko := ha.kOffset
    have hbelow := ha.below
    have hkkFits : Fits (kk : ℤ) := fits_natCast.mpr (by unfold safeInt32KBlock at hkk; omega)
    have hcolFits : Fits (col : ℤ) := fits_natCast.mpr (by omega)
    have hkbFits : Fits (s.tileArgs i : TileArgs ℤ).kBlock := fits_of_nonneg (by omega) (by omega)
    have hnFits : Fits (s.tileArgs i : TileArgs ℤ).n := by
      rw [ha.n]
      exact fits_natCast.mpr h.n_le
    have hA' : ((s.m - 1 : ℕ) : ℤ) * s.lda + ((s.k - 1 : ℕ) : ℤ) ≤ 2147483647 := by
      exact_mod_cast hA
    have hB' : ((s.k - 1 : ℕ) : ℤ) * s.ldb + ((s.n - 1 : ℕ) : ℤ) ≤ 2147483647 := by
      exact_mod_cast hB
    have hC' : ((s.m - 1 : ℕ) : ℤ) * s.ldc + ((s.n - 1 : ℕ) : ℤ) ≤ 2147483647 := by
      exact_mod_cast hC
    refine (exact_iff_fits ?_).mpr fun z hz => ?_
    · rw [h.tileArgs_int32]
      simp only [gemvKernelIndices, TileArgs.toInt32, lit_int32, lit_int, ← Int32.ofInt_add,
        ← Int32.ofInt_mul, less_ofInt hkkFits hkbFits, less_ofInt hcolFits hnFits, less_int,
        List.map_append, List.map_cons, List.map_nil, map_guarded]
    · simp only [gemvKernelIndices_int, List.mem_append, mem_guarded, decide_eq_true_eq,
        List.mem_cons, List.not_mem_nil, or_false] at hz
      rw [ha.lda, ha.ldb, ha.ldc, ha.n] at hz
      have hlast : (kk : ℤ) < (s.tileArgs i : TileArgs ℤ).kBlock →
          (s.tileArgs i : TileArgs ℤ).kOffset + kk ≤ ((s.k - 1 : ℕ) : ℤ) := by omega
      have hko0 : 0 ≤ (s.tileArgs i : TileArgs ℤ).kOffset := by omega
      have hlastRow : (row : ℤ) ≤ ((s.m - 1 : ℕ) : ℤ) := by omega
      -- the row, the load of `A`, the load of `B` and the store
      rcases hz with (rfl | ⟨hlt, (rfl | rfl) | ⟨hc, rfl⟩⟩) | ⟨hc, rfl⟩
      · exact fits_natCast.mpr (by omega)
      · exact fits_of_nonneg (by omega) (by omega)
      · have hle := offset_le hlastRow (hlast hlt) (Int.natCast_nonneg s.lda)
        exact fits_of_nonneg (by positivity) (by omega)
      · have hle := offset_le (r := (col : ℤ)) (R := ((s.n - 1 : ℕ) : ℤ)) (hlast hlt) (by omega)
          (Int.natCast_nonneg s.ldb)
        exact fits_of_nonneg (by positivity) (by omega)
      · have hle := offset_le (r := (col : ℤ)) (R := ((s.n - 1 : ℕ) : ℤ)) hlastRow (by omega)
          (Int.natCast_nonneg s.ldc)
        exact fits_of_nonneg (by positivity) (by omega)

/-- **The persistent kernel** is exact on the outputs of at most 64 cells that it is used for. -/
theorem persistentExact_of_small {m n : ℕ} (hm : 0 < m) (hn : 0 < n) (hmn : m * n ≤ 64) :
    persistentExact m n := by
  intro blockX hblock threadX hthread
  have hm64 : m ≤ 64 := (Nat.le_mul_of_pos_right m hn).trans hmn
  have hn64 : n ≤ 64 := (Nat.le_mul_of_pos_left n hm).trans hmn
  have hmn' : (m : ℤ) * n ≤ 64 := by exact_mod_cast hmn
  have hmn0 : 0 ≤ (m : ℤ) * n := by positivity
  -- one block covers at most 64 cells, so every value is below 320
  have hblock0 : blockX = 0 := by omega
  have hcell : Fits ((blockX : ℤ) * 256 + threadX) := fits_of_nonneg (by omega) (by omega)
  have htotal : Fits ((m : ℤ) * n) := fits_of_nonneg hmn0 (by omega)
  have hsum : Fits ((m : ℤ) * n + 256 - 1) := fits_of_nonneg (by omega) (by omega)
  have hnFits : Fits (n : ℤ) := fits_natCast.mpr (by omega)
  have h256 : Fits 256 := by decide
  refine (exact_iff_fits ?_).mpr fun z hz => ?_
  · simp only [persistentKernelIndices, lit_int32, lit_int, quot_int,
      ← Int32.ofInt_add, ← Int32.ofInt_mul, ← Int32.ofInt_sub, quot_ofInt hsum h256,
      quot_ofInt hcell hnFits, less_ofInt hcell htotal, less_int, List.map_append, List.map_cons,
      List.map_nil, map_guarded]
  · simp only [persistentKernelIndices, lit_int, quot_int, less_int,
      List.mem_append, List.mem_cons, List.not_mem_nil, or_false, mem_guarded,
      decide_eq_true_eq] at hz
    rw [Int.tdiv_eq_ediv_of_nonneg (by omega), Int.tdiv_eq_ediv_of_nonneg (by omega)] at hz
    have hq0 : 0 ≤ ((blockX : ℤ) * 256 + threadX) / n := Int.ediv_nonneg (by omega) (by omega)
    have hq1 : ((blockX : ℤ) * 256 + threadX) / n ≤ 255 :=
      (Int.ediv_le_self _ (by omega)).trans (by omega)
    have hqn : ((blockX : ℤ) * 256 + threadX) / n * n ≤ (blockX : ℤ) * 256 + threadX :=
      Int.ediv_mul_le _ (by omega)
    have hqn0 : 0 ≤ ((blockX : ℤ) * 256 + threadX) / n * n := mul_nonneg hq0 (by omega)
    rcases hz with (hz | hz | hz) | ⟨-, hz | hz⟩
    · exact hz ▸ htotal
    · exact fits_of_nonneg (by omega) (by omega)
    · exact hz ▸ hcell
    · exact fits_of_nonneg (by omega) (by omega)
    · exact fits_of_nonneg (by omega) (by omega)

end Rns8
