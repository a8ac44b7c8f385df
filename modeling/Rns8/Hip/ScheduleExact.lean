import Rns8.Hip.LaunchExact

/-!
# Exactness of the scheduled index arithmetic

The kernel over the active tiles of a schedule launches every tile on the grid of the largest one, and
skips the loads of the blocks whose rows or columns are all declared zero. The kernel that zeroes
tiles numbers its blocks over all tiles and converts that number to `int`.
-/

namespace Rns8

open IndexArith

/-! ### The grid of the largest tile -/

theorem le_foldr_max {xs : List ℕ} {x : ℕ} (h : x ∈ xs) : x ≤ xs.foldr max 0 := by
  induction xs with
  | nil => cases h
  | cons y ys ih =>
    rw [List.foldr_cons]
    rcases List.mem_cons.mp h with rfl | h
    · exact le_max_left _ _
    · exact (ih h).trans (le_max_right _ _)

/-- The checks of `checked_tile_entry` on the shape of every tile. -/
structure ScheduleLaunch.Valid (l : ScheduleLaunch) (s : GemmShape) : Prop where
  entries : l.entries ≠ []
  rowExtent_pos : ∀ entry ∈ l.entries, 0 < entry.rowExtent
  colExtent_pos : ∀ entry ∈ l.entries, 0 < entry.colExtent
  row_le : ∀ entry ∈ l.entries, entry.rowOffset + entry.rowExtent ≤ s.m
  col_le : ∀ entry ∈ l.entries, entry.colOffset + entry.colExtent ≤ s.n

variable {l : ScheduleLaunch} {s : GemmShape} {entry : TileScheduleEntry} {i : ℕ} {a : TileArgs ℤ}
  {t : TileSite}

theorem ScheduleLaunch.rowExtent_le (he : entry ∈ l.entries) : entry.rowExtent ≤ l.rowBlocks * 16 := by
  have h : (entry.rowExtent + 15) / 16 ≤ l.rowBlocks :=
    le_foldr_max (List.mem_map_of_mem (List.mem_map_of_mem he))
  omega

theorem ScheduleLaunch.colExtent_le (he : entry ∈ l.entries) : entry.colExtent ≤ l.colBlocks * 16 := by
  have h : (entry.colExtent + 15) / 16 ≤ l.colBlocks :=
    le_foldr_max (List.mem_map_of_mem (List.mem_map_of_mem he))
  omega

/-! ### Active tiles -/

/-- When the indices of the active tiles fit: the rows and columns of the grid, the last output, and,
for every block that is not skipped, the last elements it reads. -/
def ScheduleLaunch.activeFits (l : ScheduleLaunch) (s : GemmShape) : Prop :=
  ∀ entry ∈ l.entries, entry.flags.zeroOutput = false →
    entry.rowOffset + l.rowBlocks * 16 ≤ 2147483648 ∧
    entry.colOffset + l.colBlocks * 16 ≤ 2147483648 ∧
    (entry.rowOffset + entry.rowExtent - 1) * s.ldc + (entry.colOffset + entry.colExtent - 1) ≤
      2147483647 ∧
    ∀ blockY < l.rowBlocks, ∀ blockX < l.colBlocks,
      blockSkips l.zeroARows l.zeroBCols entry blockY blockX = false →
      (blockY * 16 < entry.rowExtent →
        (entry.rowOffset + min entry.rowExtent (blockY * 16 + 16) - 1) * s.lda + (s.k - 1) ≤
          2147483647) ∧
      (blockX * 16 < entry.colExtent →
        (s.k - 1) * s.ldb + (entry.colOffset + min entry.colExtent (blockX * 16 + 16) - 1) ≤
          2147483647)

theorem scheduleKernelIndices_int (a : TileArgs ℤ) (entry : TileScheduleEntry) (skips : Bool)
    (t : TileSite) :
    scheduleKernelIndices a entry skips t =
      [(t.blockY : ℤ) * 16, (t.blockX : ℤ) * 16, t.row entry.rowOffset, t.col entry.colOffset,
        (t.blockY : ℤ) * 16 + t.localRow, (t.blockX : ℤ) * 16 + t.localCol] ++
      guarded (!skips)
        ([(t.tileStep : ℤ) * 64, min 64 (a.kBlock - t.tileStep * 64), t.sourceK a] ++
          guarded (decide ((t.blockY : ℤ) * 16 + t.localRow < entry.rowExtent) &&
            decide ((t.localK : ℤ) < min 64 (a.kBlock - t.tileStep * 64)))
            [t.row entry.rowOffset * a.lda + t.sourceK a] ++
          guarded (decide ((t.localK : ℤ) < min 64 (a.kBlock - t.tileStep * 64)) &&
            decide ((t.blockX : ℤ) * 16 + t.localCol < entry.colExtent))
            [t.sourceK a * a.ldb + t.col entry.colOffset]) ++
      guarded (decide ((t.blockY : ℤ) * 16 + t.localRow < entry.rowExtent) &&
        decide ((t.blockX : ℤ) * 16 + t.localCol < entry.colExtent))
        [t.row entry.rowOffset * a.ldc + t.col entry.colOffset] := by
  simp only [scheduleKernelIndices, tileExtent_int, counter_int, lit_int, less_int, hipTile, hipTileK,
    Nat.cast_ofNat]
  rfl

theorem scheduleKernelIndices_int32 (ha : a.Launched s i) (hl : l.Valid s) (h : s.Valid)
    (he : entry ∈ l.entries) (ht : t.Inside a.kBlock) (skips : Bool)
    (hrow : Fits (t.row entry.rowOffset)) (hcol : Fits (t.col entry.colOffset)) :
    scheduleKernelIndices a.toInt32 entry skips t =
      (scheduleKernelIndices a entry skips t).map Int32.ofInt := by
  have hlk := ht.localK
  have hm := h.m_le
  have hn := h.n_le
  have hre := hl.row_le entry he
  have hce := hl.col_le entry he
  obtain ⟨hext, hextFits⟩ := tileExtent_int32 ha ht
  have hlkFits : Fits (t.localK : ℤ) := fits_natCast.mpr (by omega)
  have hr1 := hrow.2
  have hc1 := hcol.2
  unfold TileSite.row at hr1
  unfold TileSite.col at hc1
  have houtRow : Fits ((t.blockY : ℤ) * 16 + t.localRow) := fits_of_nonneg (by positivity) (by omega)
  have houtCol : Fits ((t.blockX : ℤ) * 16 + t.localCol) := fits_of_nonneg (by positivity) (by omega)
  have hreFits : Fits (entry.rowExtent : ℤ) := fits_natCast.mpr (by omega)
  have hceFits : Fits (entry.colExtent : ℤ) := fits_natCast.mpr (by omega)
  simp only [scheduleKernelIndices, TileArgs.toInt32, lit_int32, lit_int, hipTile, hipTileK,
    Nat.cast_ofNat, counter_ofInt, ← Int32.ofInt_add, ← Int32.ofInt_mul, hext,
    less_ofInt houtRow hreFits, less_ofInt houtCol hceFits, less_ofInt hlkFits hextFits, less_int,
    List.map_append, List.map_cons, List.map_nil, map_guarded]

/-- The values of the kernel over the active tiles fit. -/
theorem scheduleKernelIndices_fits (ha : a.Launched s i) (h : s.Valid)
    (ht : t.Inside a.kBlock) {skips : Bool} (hby : t.blockY < l.rowBlocks)
    (hbx : t.blockX < l.colBlocks) (hrow : entry.rowOffset + l.rowBlocks * 16 ≤ 2147483648)
    (hcol : entry.colOffset + l.colBlocks * 16 ≤ 2147483648)
    (hC : (entry.rowOffset + entry.rowExtent - 1) * s.ldc +
      (entry.colOffset + entry.colExtent - 1) ≤ 2147483647)
    (hA : skips = false → t.blockY * 16 < entry.rowExtent →
      (entry.rowOffset + min entry.rowExtent (t.blockY * 16 + 16) - 1) * s.lda + (s.k - 1) ≤
        2147483647)
    (hB : skips = false → t.blockX * 16 < entry.colExtent →
      (s.k - 1) * s.ldb + (entry.colOffset + min entry.colExtent (t.blockX * 16 + 16) - 1) ≤
        2147483647) :
    ∀ z ∈ scheduleKernelIndices a entry skips t, Fits z := by
  obtain ⟨hk0, hk1, hklt, hts, hext⟩ := ht.reach ha h
  have hk := h.k_pos
  have hlr := ht.localRow
  have hlc := ht.localCol
  have hrowEq : t.row entry.rowOffset = entry.rowOffset + t.blockY * 16 + t.localRow := rfl
  have hcolEq : t.col entry.colOffset = entry.colOffset + t.blockX * 16 + t.localCol := rfl
  have hcast : ((s.k - 1 : ℕ) : ℤ) = (s.k : ℤ) - 1 := by omega
  intro z hz
  rw [scheduleKernelIndices_int] at hz
  simp only [List.mem_append, List.mem_cons, List.not_mem_nil, or_false, mem_guarded,
    Bool.and_eq_true, decide_eq_true_eq, Bool.not_eq_true'] at hz
  -- the scalars first; then, unless the block is skipped, the loads of `A` and `B`; then the
  -- store
  rcases hz with ((rfl | rfl | rfl | rfl | rfl | rfl) |
    ⟨hskip, ((rfl | rfl | rfl) | ⟨⟨hr, hkk⟩, rfl⟩) | ⟨⟨hkk, hc⟩, rfl⟩⟩) | ⟨⟨hr, hc⟩, rfl⟩
  · exact fits_of_nonneg (by positivity) (by omega)
  · exact fits_of_nonneg (by positivity) (by omega)
  · exact fits_of_nonneg (by omega) (by omega)
  · exact fits_of_nonneg (by omega) (by omega)
  · exact fits_of_nonneg (by positivity) (by omega)
  · exact fits_of_nonneg (by positivity) (by omega)
  · exact fits_of_nonneg (by omega) (by omega)
  · exact fits_of_nonneg hext (by omega)
  · exact fits_of_nonneg hk0 hk1
  -- the load of `A` is guarded by the rows of the tile, so it stays below its last row
  · rw [ha.lda]
    have hA' : ((entry.rowOffset + min entry.rowExtent (t.blockY * 16 + 16) - 1 : ℕ) : ℤ) * s.lda +
        ((s.k - 1 : ℕ) : ℤ) ≤ 2147483647 := by exact_mod_cast hA hskip (by omega)
    have hle := offset_le (q := t.row entry.rowOffset)
      (Q := ((entry.rowOffset + min entry.rowExtent (t.blockY * 16 + 16) - 1 : ℕ) : ℤ)) (by omega)
      (hklt hkk) (Int.natCast_nonneg s.lda)
    have hnn : 0 ≤ t.row entry.rowOffset := by omega
    exact fits_of_nonneg (by positivity) (by omega)
  -- the load of `B`, guarded by its columns
  · rw [ha.ldb]
    have hB' : ((s.k - 1 : ℕ) : ℤ) * s.ldb +
        ((entry.colOffset + min entry.colExtent (t.blockX * 16 + 16) - 1 : ℕ) : ℤ) ≤
        2147483647 := by exact_mod_cast hB hskip (by omega)
    have hle := offset_le (r := t.col entry.colOffset)
      (R := ((entry.colOffset + min entry.colExtent (t.blockX * 16 + 16) - 1 : ℕ) : ℤ))
      (hklt hkk) (by omega) (Int.natCast_nonneg s.ldb)
    have hnn : 0 ≤ t.col entry.colOffset := by omega
    rw [hcast] at hB'
    exact fits_of_nonneg (by positivity) (by omega)
  -- the store, guarded by both
  · rw [ha.ldc]
    have hC' : ((entry.rowOffset + entry.rowExtent - 1 : ℕ) : ℤ) * s.ldc +
        ((entry.colOffset + entry.colExtent - 1 : ℕ) : ℤ) ≤ 2147483647 := by exact_mod_cast hC
    have hle := offset_le (q := t.row entry.rowOffset)
      (Q := ((entry.rowOffset + entry.rowExtent - 1 : ℕ) : ℤ)) (r := t.col entry.colOffset)
      (R := ((entry.colOffset + entry.colExtent - 1 : ℕ) : ℤ)) (by omega) (by omega)
      (Int.natCast_nonneg s.ldc)
    have hnn : 0 ≤ t.row entry.rowOffset := by omega
    have hnn' : 0 ≤ t.col entry.colOffset := by omega
    exact fits_of_nonneg (by positivity) (by omega)

/-- **Active tiles.** -/
theorem ScheduleLaunch.activeExact_iff (hl : l.Valid s) (h : s.Valid) :
    l.activeExact s ↔ l.activeFits s := by
  constructor
  · intro hex entry he hzero
    obtain ⟨i, kk, hi, hkk, hlast⟩ := lastLaunch h
    have ha := GemmShape.Valid.launched (s := s) hi
    have hkb := ha.kBlock
    have hre := rowExtent_le he
    have hce := colExtent_le he
    have hrp := hl.rowExtent_pos entry he
    have hcp := hl.colExtent_pos entry he
    -- every bound is the value of one thread of the last pass, at the last position of its loop
    have hfit : ∀ row col, row < l.rowBlocks * 16 → col < l.colBlocks * 16 →
        ∀ z ∈ scheduleKernelIndices (s.tileArgs i : TileArgs ℤ) entry
          (blockSkips l.zeroARows l.zeroBCols entry (row / 16) (col / 16)) (siteAt row col kk),
          Fits z := fun row col hrow hcol =>
      ((hex i hi).2 entry he hzero (siteAt row col kk) (by simp only [siteAt]; omega)
        (by simp only [siteAt]; omega) (siteAt_inside row col hkk)).fits
    simp only [scheduleKernelIndices_int, siteAt_row, siteAt_col, siteAt_sourceK, hlast, ha.lda,
      ha.ldb, ha.ldc, List.mem_append, List.mem_cons, List.not_mem_nil, or_false, mem_guarded,
      Bool.and_eq_true, decide_eq_true_eq, Bool.not_eq_true'] at hfit
    have hload : ((siteAt 0 0 kk).localK : ℤ) <
        min 64 ((s.tileArgs i : TileArgs ℤ).kBlock - ((siteAt 0 0 kk).tileStep : ℤ) * 64) := by
      simp only [siteAt]
      omega
    have hsiteRow : ∀ row col, ((siteAt row col kk).blockY : ℤ) * 16 + (siteAt row col kk).localRow =
        row := fun row col => by
      simp only [siteAt]
      omega
    have hsiteCol : ∀ row col, ((siteAt row col kk).blockX : ℤ) * 16 + (siteAt row col kk).localCol =
        col := fun row col => by
      simp only [siteAt]
      omega
    refine ⟨?_, ?_, ?_, ?_⟩
    -- the last row of the grid
    · have hz := hfit (l.rowBlocks * 16 - 1) 0 (by omega) (by omega)
        (entry.rowOffset + (l.rowBlocks * 16 - 1 : ℕ)) (by simp)
      have := hz.2
      omega
    -- its last column
    · have hz := hfit 0 (l.colBlocks * 16 - 1) (by omega) (by omega)
        (entry.colOffset + (l.colBlocks * 16 - 1 : ℕ)) (by simp)
      have := hz.2
      omega
    -- the store of the last cell of the tile
    · have hz := hfit (entry.rowExtent - 1) (entry.colExtent - 1) (by omega) (by omega)
        ((entry.rowOffset + (entry.rowExtent - 1 : ℕ)) * s.ldc +
          (entry.colOffset + (entry.colExtent - 1 : ℕ)))
        (Or.inr ⟨by rw [hsiteRow, hsiteCol]; omega, rfl⟩)
      rw [Nat.add_sub_assoc hrp, Nat.add_sub_assoc hcp]
      exact_mod_cast hz.2
    -- the loads of a block that is not skipped: its last row and its last column inside the tile
    · intro blockY hby blockX hbx hskip
      refine ⟨fun hrow => ?_, fun hcol => ?_⟩
      · obtain ⟨row, hrowEq⟩ : ∃ row, row = min entry.rowExtent (blockY * 16 + 16) - 1 := ⟨_, rfl⟩
        have hdiv : row / 16 = blockY := by omega
        have hz := hfit row (blockX * 16) (by omega) (by omega)
          ((entry.rowOffset + row) * s.lda + (s.k - 1 : ℕ)) (by
            refine Or.inl (Or.inr ⟨?_, Or.inl (Or.inr ⟨⟨?_, hload⟩, rfl⟩)⟩)
            · rw [hdiv, Nat.mul_div_cancel _ (by decide)]
              exact hskip
            · rw [hsiteRow]
              omega)
        rw [Nat.add_sub_assoc (by omega), ← hrowEq]
        exact_mod_cast hz.2
      · obtain ⟨col, hcolEq⟩ : ∃ col, col = min entry.colExtent (blockX * 16 + 16) - 1 := ⟨_, rfl⟩
        have hdiv : col / 16 = blockX := by omega
        have hz := hfit (blockY * 16) col (by omega) (by omega)
          ((s.k - 1 : ℕ) * s.ldb + (entry.colOffset + col)) (by
            refine Or.inl (Or.inr ⟨?_, Or.inr ⟨⟨hload, ?_⟩, rfl⟩⟩)
            · rw [hdiv, Nat.mul_div_cancel _ (by decide)]
              exact hskip
            · rw [hsiteCol]
              omega)
        rw [Nat.add_sub_assoc (by omega), ← hcolEq]
        exact_mod_cast hz.2
  -- conversely these bound the values of every thread
  · intro hfits i hi
    have ha := GemmShape.Valid.launched (s := s) hi
    refine ⟨kLoop_exact h i, fun entry he hzero t hby hbx ht => ?_⟩
    obtain ⟨hrow, hcol, hC, hloads⟩ := hfits entry he hzero
    have hlr := ht.localRow
    have hlc := ht.localCol
    have hrowFits : Fits (t.row entry.rowOffset) :=
      fits_of_nonneg (by unfold TileSite.row; positivity) (by unfold TileSite.row; omega)
    have hcolFits : Fits (t.col entry.colOffset) :=
      fits_of_nonneg (by unfold TileSite.col; positivity) (by unfold TileSite.col; omega)
    refine (exact_iff_fits ?_).mpr ?_
    · rw [h.tileArgs_int32]
      exact scheduleKernelIndices_int32 ha hl h he ht _ hrowFits hcolFits
    · exact scheduleKernelIndices_fits ha h ht hby hbx hrow hcol hC
        (fun hskip => (hloads _ hby _ hbx hskip).1) (fun hskip => (hloads _ hby _ hbx hskip).2)

/-! ### Zeroed tiles -/

/-- The mathematical reading of the kernel that zeroes tiles. -/
theorem zeroKernelIndices_int (entries : List TileScheduleEntry) (maxTileElements blockX threadX : ℕ) :
    zeroKernelIndices entries maxTileElements blockX threadX =
      let perTile := (maxTileElements + 255) / 256
      let tileCell := blockX % perTile * 256 + threadX
      [((maxTileElements + 255 : ℕ) : ℤ), (perTile : ℤ), (blockX : ℤ), ((blockX / perTile : ℕ) : ℤ),
        ((blockX % perTile : ℕ) : ℤ), (tileCell : ℤ)] ++
      match entries[blockX / perTile]? with
      | none => []
      | some entry =>
        guarded (decide (tileCell < maxTileElements) && entry.flags.zeroOutput)
          (((entry.rowExtent * entry.colExtent : ℕ) : ℤ) ::
            guarded (decide (tileCell < entry.rowExtent * entry.colExtent))
              [((tileCell / entry.colExtent : ℕ) : ℤ), ((tileCell % entry.colExtent : ℕ) : ℤ),
                ((entry.rowOffset + tileCell / entry.colExtent : ℕ) : ℤ),
                ((entry.colOffset + tileCell % entry.colExtent : ℕ) : ℤ)]) := by
  have hsum : (maxTileElements : ℤ) + 256 - 1 = ((maxTileElements + 255 : ℕ) : ℤ) := by
    push_cast
    ring
  have hper : ((maxTileElements + 255 : ℕ) : ℤ).tdiv 256 =
      (((maxTileElements + 255) / 256 : ℕ) : ℤ) := rfl
  have hdiv : ∀ a b : ℕ, (a : ℤ).tdiv b = ((a / b : ℕ) : ℤ) := fun a b => rfl
  have hcell : ∀ a b : ℕ, (a : ℤ) * 256 + b = ((a * 256 + b : ℕ) : ℤ) := fun a b => by push_cast; rfl
  have hmul : ∀ a b : ℕ, (a : ℤ) * b = ((a * b : ℕ) : ℤ) := fun a b => by push_cast; rfl
  have hadd : ∀ a b : ℕ, (a : ℤ) + b = ((a + b : ℕ) : ℤ) := fun a b => by push_cast; rfl
  simp only [zeroKernelIndices, lit_int, quot_int, less_int, hsum, hper, hdiv, sub_div_mul, hcell]
  cases entries[blockX / ((maxTileElements + 255) / 256)]? with
  | none => rfl
  | some entry => simp only [hmul, hadd, Nat.cast_lt]

theorem ScheduleLaunch.tile_le_max (he : entry ∈ l.entries) :
    entry.rowExtent * entry.colExtent ≤ l.maxTileElements :=
  le_foldr_max (List.mem_map_of_mem he)

/-- The launcher of the kernel that zeroes tiles stays in `int`: the round-up of the largest tile and
the number of blocks over all tiles. -/
def ScheduleLaunch.zeroFits (l : ScheduleLaunch) : Prop :=
  l.maxTileElements + 255 ≤ 2147483647 ∧
    l.entries.length * ((l.maxTileElements + 255) / 256) ≤ 2147483648

theorem zeroKernelIndices_int32 (hl : l.Valid s) (h : s.Valid) (hf : l.zeroFits) {blockX threadX : ℕ}
    (hblock : blockX < l.entries.length * ((l.maxTileElements + 255) / 256))
    (hthread : threadX < 256) :
    (zeroKernelIndices l.entries l.maxTileElements blockX threadX : List Int32) =
      (zeroKernelIndices l.entries l.maxTileElements blockX threadX).map Int32.ofInt := by
  obtain ⟨hmax, hblocks⟩ := hf
  have hsum : Int32.ofInt (l.maxTileElements : ℤ) + Int32.ofInt 256 - Int32.ofInt 1 =
      Int32.ofInt ((l.maxTileElements + 255 : ℕ) : ℤ) := by
    rw [← Int32.ofInt_add, ← Int32.ofInt_sub,
      show (l.maxTileElements : ℤ) + 256 - 1 = ((l.maxTileElements + 255 : ℕ) : ℤ) by omega]
  -- the blocks of a tile are counted from its largest size
  have hper : quot (Int32.ofInt ((l.maxTileElements + 255 : ℕ) : ℤ)) (Int32.ofInt 256) =
      Int32.ofInt (((l.maxTileElements + 255) / 256 : ℕ) : ℤ) :=
    quot_ofInt_nat (b := 256) hmax (by omega)
  have hperPos : 0 < (l.maxTileElements + 255) / 256 := by
    by_contra h0
    rw [Nat.eq_zero_of_not_pos h0] at hblock
    omega
  have htile : blockX % ((l.maxTileElements + 255) / 256) * 256 + threadX ≤ 2147483647 := by
    have := Nat.mod_lt blockX hperPos
    omega
  rw [zeroKernelIndices_int]
  simp only [zeroKernelIndices, lit_int32, hsum, hper, quot_ofInt_nat (show blockX ≤ 2147483647 by
    omega) (show (l.maxTileElements + 255) / 256 ≤ 2147483647 by omega), ofInt_mul_nat,
    ofInt_sub_div_mul, ofInt_thread, less_ofInt_nat htile (show l.maxTileElements ≤ 2147483647 by omega)]
  -- a block past the last entry forms no index
  cases hentry : l.entries[blockX / ((l.maxTileElements + 255) / 256)]? with
  | none => simp only [List.append_nil, List.map_cons, List.map_nil]
  | some entry =>
    have he := List.mem_of_getElem? hentry
    have hce := hl.col_le entry he
    have hn := h.n_le
    have hle := ScheduleLaunch.tile_le_max he
    simp only [quot_ofInt_nat htile (show entry.colExtent ≤ 2147483647 by omega), ofInt_sub_div_mul,
      ofInt_mul_nat, ofInt_add_nat, less_ofInt_nat htile (hle.trans (by omega)), List.map_append,
      List.map_cons, List.map_nil, map_guarded]

/-- **Zeroed tiles.** The kernel that zeroes tiles is exact exactly when its launcher is. -/
theorem ScheduleLaunch.zeroExact_iff (hl : l.Valid s) (h : s.Valid) : l.zeroExact ↔ l.zeroFits := by
  obtain ⟨entry, he⟩ := List.exists_mem_of_ne_nil _ hl.entries
  have hmaxPos : 0 < l.maxTileElements :=
    (Nat.mul_pos (hl.rowExtent_pos entry he) (hl.colExtent_pos entry he)).trans_le (tile_le_max he)
  have hlen : 0 < l.entries.length := List.length_pos_of_mem he
  have hper : 0 < (l.maxTileElements + 255) / 256 := by omega
  have hblocks := Nat.mul_pos hlen hper
  constructor
  · intro hex
    -- the last block, and the sum from which the blocks of a tile are counted
    have hfit := (hex (l.entries.length * ((l.maxTileElements + 255) / 256) - 1) (by omega) 0
      (by decide)).fits
    rw [zeroKernelIndices_int] at hfit
    have h1 := hfit ((l.maxTileElements + 255 : ℕ) : ℤ) (by simp)
    have h2 := hfit ((l.entries.length * ((l.maxTileElements + 255) / 256) - 1 : ℕ) : ℤ) (by simp)
    rw [fits_natCast] at h1 h2
    exact ⟨h1, by omega⟩
  -- a cell of a tile lies within the output, so its offset fits
  · intro hf blockX hblock threadX hthread
    refine (exact_iff_fits (zeroKernelIndices_int32 hl h hf hblock hthread)).mpr fun z hz => ?_
    obtain ⟨hmax, hle⟩ := hf
    have hmod := Nat.mod_lt blockX hper
    have hdivLe := Nat.div_le_self blockX ((l.maxTileElements + 255) / 256)
    rw [zeroKernelIndices_int] at hz
    rcases List.mem_append.mp hz with hz | hz
    · simp only [List.mem_cons, List.not_mem_nil, or_false] at hz
      rcases hz with rfl | rfl | rfl | rfl | rfl | rfl <;> exact fits_natCast.mpr (by omega)
    · split at hz
      · cases hz
      · next tile htile =>
        have he := List.mem_of_getElem? htile
        have hcp := hl.colExtent_pos tile he
        have hrow := hl.row_le tile he
        have hcol := hl.col_le tile he
        have hm := h.m_le
        have hn := h.n_le
        have hle := tile_le_max he
        simp only [mem_guarded, Bool.and_eq_true, decide_eq_true_eq, List.mem_cons,
          List.not_mem_nil, or_false] at hz
        obtain ⟨-, rfl | ⟨hcell, hz⟩⟩ := hz
        · exact fits_natCast.mpr (by omega)
        · have hr := Nat.div_lt_of_lt_mul (Nat.mul_comm tile.rowExtent _ ▸ hcell)
          have hc := Nat.mod_lt (blockX % ((l.maxTileElements + 255) / 256) * 256 + threadX) hcp
          rcases hz with rfl | rfl | rfl | rfl <;> exact fits_natCast.mpr (by omega)

end Rns8
