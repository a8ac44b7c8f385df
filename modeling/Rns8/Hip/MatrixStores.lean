import Rns8.Hip.MatrixExact

/-!
# The stores of the AMDGPU builtin kernels

What a launch stores, once its waves are exact: with the guard defined each cell of each plane gets
one store, of the residue of its dot product, and without it there is no store at all.
-/

namespace Rns8

open Finset LaneLayout

/-- The offset of a cell of `C`. -/
def cellOffset (m ldc plane row col : ℕ) : ℕ := (plane * m + row) * ldc + col

/-- Every cell of every plane is stored exactly once, with its target, and nothing else is stored. -/
structure CellsStoredOnce (stores : List (ℕ × Int8)) (planes m n ldc : ℕ)
    (target : ℕ → ℕ → ℕ → Int8) : Prop where
  once : ∀ plane < planes, ∀ row < m, ∀ col < n,
    stores.filter (fun s => decide (s.1 = cellOffset m ldc plane row col)) =
      [(cellOffset m ldc plane row col, target plane row col)]
  inside : ∀ s ∈ stores, ∃ plane < planes, ∃ row < m, ∃ col < n, s.1 = cellOffset m ldc plane row col

/-- The modulus of a plane of `C`. -/
def BuiltinMode.cellModulus (mode : BuiltinMode) (plane : ℕ) : ℕ :=
  match mode with
  | .rns _ => modulusAt plane
  | .finite modulus => modulus.toNat

theorem rns8AmdgpuDefaultModuli_spec {plane : ℕ} (h : plane < 28) :
    rns8AmdgpuDefaultModuli.getD plane 0 ∈ staticByteModuli ∧
      (rns8AmdgpuDefaultModuli.getD plane 0).toNat = modulusAt plane := by
  revert plane
  decide

theorem BuiltinMode.planes_pos {mode : BuiltinMode} (h : mode.valid = true) : 0 < mode.planes := by
  cases mode with
  | rns planeCount =>
    simp only [valid, Bool.not_eq_true', Bool.or_eq_false_iff, decide_eq_false_iff_not] at h
    exact Nat.pos_of_ne_zero h.1
  | finite modulus => exact Nat.one_pos

/-- The reducer of the kernels is the CPU reference. -/
theorem reduceStatic_eq (acc : Int32) {modulus : UInt32} (h : modulus ∈ staticByteModuli) :
    reduceToCenteredStaticByteModulusI32 acc modulus = reduceToCentered acc.toInt modulus.toNat := by
  rw [reduceToCenteredStaticByteModulusI32, if_pos h]
  exact reduceToCenteredFixedI32_eq acc (staticByteModuli_deviceModulus h)

/-- **A store** goes to the cell's offset, with the accumulator's residue, and only inside `C`. -/
theorem storeAccumulator_eq {mode : BuiltinMode} (hvalid : mode.valid = true) (acc : Int32)
    {plane : ℕ} (hplane : plane < mode.planes) (m n ldc row col : ℕ) :
    storeAccumulator mode acc plane m n ldc row col = if row < m ∧ col < n then
      some (cellOffset m ldc plane row col, reduceToCentered acc.toInt (mode.cellModulus plane))
    else none := by
  unfold storeAccumulator
  split
  · cases mode with
    | rns planeCount =>
      simp only [BuiltinMode.valid, Bool.not_eq_true', Bool.or_eq_false_iff,
        decide_eq_false_iff_not] at hvalid
      simp only [BuiltinMode.planes] at hplane
      have hle : planeCount ≤ 20 := not_lt.1 hvalid.2
      obtain ⟨hmem, hnat⟩ := @rns8AmdgpuDefaultModuli_spec plane (by omega)
      simp only [reduceStatic_eq acc hmem, hnat]
      rfl
    | finite modulus =>
      simp only [BuiltinMode.valid, decide_eq_true_eq] at hvalid
      have hzero : plane = 0 := Nat.lt_one_iff.1 hplane
      subst hzero
      simp only [reduceStatic_eq acc hvalid, cellOffset, Nat.zero_mul, Nat.zero_add]
      rfl
  · rfl

section Launch

variable {kernel : MatrixKernel} {arch : String} {mode : BuiltinMode} {m n ldc : ℕ}
  {order : List (ℕ × ℕ × ℕ)} {acc : Site → Int32} {target : ℕ → ℕ → ℕ → Int8}

/-- **A launch whose guard is defined** stores every cell once. -/
theorem run_storedOnce (hguard : guardDefined kernel.guard arch = true)
    (horder : order.Perm (waves kernel.layout.tile mode.planes m n)) (hvalid : mode.valid = true)
    (hldc : n ≤ ldc) (hstore : ∀ s : Site, kernel.store s =
      storeAccumulator mode (acc s) s.1.1 m n ldc (kernel.layout.siteRow s) (kernel.layout.siteCol s))
    (htarget : ∀ plane < mode.planes, ∀ row < m, ∀ col < n,
      reduceToCentered (acc (kernel.layout.cellSite plane row col)).toInt (mode.cellModulus plane) =
        target plane row col) :
    CellsStoredOnce (kernel.run arch order) mode.planes m n ldc target := by
  have hrun : kernel.run arch order = (kernel.layout.sites order).filterMap kernel.store :=
    if_pos hguard
  -- a place that stores, and where
  have hplace : ∀ s ∈ kernel.layout.sites order, ∀ o v, kernel.store s = some (o, v) →
      s.1.1 < mode.planes ∧ kernel.layout.siteRow s < m ∧ kernel.layout.siteCol s < n ∧
        o = cellOffset m ldc s.1.1 (kernel.layout.siteRow s) (kernel.layout.siteCol s) := by
    intro s hs o v h
    have hplane := ((mem_sites horder s).1 hs).1.1
    rw [hstore, storeAccumulator_eq hvalid _ hplane] at h
    split at h
    · next hin =>
      simp only [Option.some.injEq, Prod.mk.injEq] at h
      exact ⟨hplane, hin.1, hin.2, h.1.symm⟩
    · cases h
  refine ⟨fun plane hplane row hrow col hcol => ?_, ?_⟩
  · obtain ⟨⟨hmem, hsr, hsc⟩, honly⟩ := cellSite_unique horder hplane hrow hcol
    rw [hrun]
    refine filter_stores_eq_singleton (sites_nodup horder) hmem ?_ ?_
    · rw [hstore, storeAccumulator_eq hvalid _ (show (kernel.layout.cellSite plane row col).1.1 <
        mode.planes from hplane), hsr, hsc, if_pos ⟨hrow, hcol⟩]
      exact congrArg (fun v => some (cellOffset m ldc plane row col, v))
        (htarget plane hplane row hrow col hcol)
    · intro s hs v h
      obtain ⟨-, hr, hc, ho⟩ := hplace s hs _ v h
      obtain ⟨h1, h2, h3⟩ := RowMajor.eq_of_plane_offset_eq hrow (hcol.trans_le hldc) hr
        (hc.trans_le hldc) ho
      exact honly s hs h1.symm h2.symm h3.symm
  · rintro ⟨o, v⟩ hmem
    rw [hrun] at hmem
    obtain ⟨s, hs, h⟩ := List.mem_filterMap.1 hmem
    obtain ⟨hp, hr, hc, ho⟩ := hplace s hs o v h
    exact ⟨_, hp, _, hr, _, hc, ho⟩

/-- **A launch whose guard is not defined** leaves every cell unstored. -/
theorem not_storedOnce_of_guard (hguard : ¬ guardDefined kernel.guard arch = true)
    (hvalid : mode.valid = true) (hm : 0 < m) (hn : 0 < n) :
    ¬ CellsStoredOnce (kernel.run arch order) mode.planes m n ldc target := by
  intro h
  have hempty : kernel.run arch order = [] := if_neg hguard
  have hcell := h.once 0 (mode.planes_pos hvalid) 0 hm 0 hn
  rw [hempty] at hcell
  simp at hcell

end Launch

/-! ### Cells -/

/-- The entry of `B` at a cell. -/
def denseEntry (b : ℕ → Int8) (rows ld plane row col : ℕ) : ℤ :=
  (b (plane * (rows * ld) + row * ld + col)).toInt

theorem loadCenteredI8_inside (data : ℕ → Int8) {rows cols row col : ℕ} (plane ld : ℕ) (hrow : row < rows)
    (hcol : col < cols) :
    (loadCenteredI8 data plane rows cols ld row col).toInt = denseEntry data rows ld plane row col := by
  rw [loadCenteredI8, if_neg (by omega)]
  rfl

/-- Past the end of `K` the padded columns are zero. -/
theorem sum_padded_eq {b : ℕ → Int8} {k n ldb plane col len : ℕ} (A : ℕ → ℤ) (hlen : k ≤ len)
    (hcol : col < n) :
    ∑ kk ∈ range len, A kk * (loadCenteredI8 b plane k n ldb kk col).toInt =
      ∑ kk ∈ range k, A kk * denseEntry b k ldb plane kk col := by
  rw [← sum_subset (range_subset_range.2 hlen)]
  · exact sum_congr rfl fun kk hkk => by
      rw [loadCenteredI8_inside b plane ldb (mem_range.1 hkk) hcol]
  · intro kk _ hkk
    rw [loadCenteredI8, if_pos (Or.inl (not_lt.1 fun h => hkk (mem_range.2 h)))]
    exact mul_zero _

/-- **A kernel with exact waves** stores every cell once, where `entry` is what its waves read of the
first operand. -/
theorem kernel_storedOnce (kernel : MatrixKernel) (waveAcc : ℕ → ℕ → ℕ → ℕ → Acc) (steps : ℕ)
    (entry : ℕ → ℕ → ℕ → ℤ) {arch : String} {mode : BuiltinMode} {m n k ldb ldc : ℕ}
    {order : List (ℕ × ℕ × ℕ)} {b : ℕ → Int8} {target : ℕ → ℕ → ℕ → Int8}
    (horder : order.Perm (waves kernel.layout.tile mode.planes m n)) (hvalid : mode.valid = true)
    (hldc : n ≤ ldc) (hsteps : k ≤ steps * kernel.layout.depth)
    (hstore : ∀ s : Site, kernel.store s = storeAccumulator mode
      (waveAcc s.1.1 (s.1.2.1 * kernel.layout.tile) (s.1.2.2 * kernel.layout.tile) steps s.2.1 s.2.2)
      s.1.1 m n ldc (kernel.layout.siteRow s) (kernel.layout.siteCol s))
    (hexact : ∀ plane tileRow tileCol : ℕ, ∀ p ≤ steps, ∀ lane < kernel.layout.lanes,
      ∀ reg < kernel.layout.regs, (waveAcc plane tileRow tileCol p lane reg).toInt =
        ∑ kk ∈ range (p * kernel.layout.depth), entry plane (tileRow + kernel.layout.accRow lane reg) kk *
          paddedCol b plane k n ldb tileCol (lane % kernel.layout.tile) kk)
    (htarget : ∀ plane < mode.planes, ∀ row < m, ∀ col < n,
      reduceToCentered (∑ kk ∈ range k, entry plane row kk * denseEntry b k ldb plane kk col)
        (mode.cellModulus plane) = target plane row col)
    (hguard : guardDefined kernel.guard arch = true) :
    CellsStoredOnce (kernel.run arch order) mode.planes m n ldc target := by
  refine run_storedOnce hguard horder hvalid hldc hstore fun plane hplane row hrow col hcol => ?_
  have ht := kernel.layout.tile_pos
  obtain ⟨hlane, hreg, haccRow, haccCol⟩ := kernel.layout.accCell (row % kernel.layout.tile)
    (col % kernel.layout.tile) (Nat.mod_lt _ ht) (Nat.mod_lt _ ht)
  have hcell := hexact plane (row / kernel.layout.tile * kernel.layout.tile)
    (col / kernel.layout.tile * kernel.layout.tile) steps le_rfl _ hlane _ hreg
  rw [haccRow, haccCol, Nat.div_add_mod'] at hcell
  simp only [paddedCol, Nat.div_add_mod'] at hcell
  rw [sum_padded_eq _ hsteps hcol] at hcell
  rw [← htarget plane hplane row hrow col hcol, ← hcell]
  rfl

/-! ### Dot products -/

/-- The dot product of a row of `A` and a column of `B`. -/
def denseDot (a b : ℕ → Int8) (m k lda ldb plane row col : ℕ) : ℤ :=
  ∑ kk ∈ range k, denseEntry a m lda plane row kk * denseEntry b k ldb plane kk col

/-- The number that a stored byte stands for: a canonical residue, or a centered one. -/
def rawValue (mode : BuiltinMode) (raw : UInt8) : ℤ :=
  if mode.isFinite then raw.toNat else raw.toInt8.toInt

/-- The entry of the expansion of packed `A`. -/
def expandedEntry (mode : BuiltinMode) (aValues aIndices : ℕ → UInt8) (m k plane row kk : ℕ) : ℤ :=
  let offset := groupOffset plane m (k / 4) row (kk / 4)
  groupEntry (rawValue mode (aValues (offset * 2))) (rawValue mode (aValues (offset * 2 + 1)))
    (aIndices offset &&& 0x0f).toNat (kk % 4)

/-- The dot product of a row of the expansion of packed `A` and a column of `B`. -/
def expandedDot (mode : BuiltinMode) (aValues aIndices : ℕ → UInt8) (b : ℕ → Int8)
    (m k ldb plane row col : ℕ) : ℤ :=
  ∑ kk ∈ range k, expandedEntry mode aValues aIndices m k plane row kk * denseEntry b k ldb plane kk col

/-- On the groups that packing writes, the entry is that of the expansion of the API. -/
theorem groupEntry_eq_expandLane (mode : BuiltinMode) {v0 v1 index : UInt8}
    (h : groupWellFormed v0 v1 index = true) (lane : ℕ) :
    groupEntry (rawValue mode v0) (rawValue mode v1) (index &&& 0x0f).toNat lane =
      rawValue mode (expandLane v0 v1 index lane) := by
  have hzero : rawValue mode 0 = 0 := by
    unfold rawValue
    split <;> rfl
  have key : ∀ i < 256, (UInt8.ofNat i &&& 3).toNat = (UInt8.ofNat i &&& 0x0f).toNat % 4 ∧
      ((UInt8.ofNat i >>> 2) &&& 3).toNat = (UInt8.ofNat i &&& 0x0f).toNat / 4 % 4 := by decide +kernel
  obtain ⟨h0, h1⟩ := key index.toNat index.toNat_lt
  rw [UInt8.ofNat_toNat] at h0 h1
  simp only [groupWellFormed, Bool.and_eq_true, decide_eq_true_eq] at h
  have hlt := h.1.1.1
  unfold groupEntry expandLane
  rw [← h0, ← h1]
  generalize (index &&& 3).toNat = i0 at hlt ⊢
  generalize ((index >>> 2) &&& 3).toNat = i1 at hlt ⊢
  by_cases e1 : lane = i1
  · rw [if_neg (by omega), if_pos e1, if_pos e1, zero_add]
  · by_cases e0 : lane = i0
    · rw [if_pos e0, if_neg e1, if_neg e1, if_pos e0, add_zero]
    · rw [if_neg e0, if_neg e1, if_neg e1, if_neg e0, hzero, add_zero]

/-- The reduced byte depends on the residue alone. -/
theorem reduceToCentered_congr {x y : ℤ} {modulus : ℕ} (h : x ≡ y [ZMOD modulus]) :
    reduceToCentered x modulus = reduceToCentered y modulus := by
  have hmod : x % (modulus : ℤ) = y % modulus := h
  by_cases hm : 0 < modulus
  · rw [reduceToCentered_eq, reduceToCentered_eq, centeredResidue_eq _ hm, centeredResidue_eq _ hm,
      CenteredResidue.bmod_eq_bmod_iff.2 h]
  · obtain rfl : modulus = 0 := by omega
    rw [show x = y by simpa using hmod]

/-- Centering keeps the residue of a stored byte. -/
theorem sparseValue_modEq {mode : BuiltinMode} (hvalid : mode.valid = true) (plane : ℕ) (raw : UInt8) :
    (sparseValue mode.isFinite mode.modulus raw).toInt ≡ rawValue mode raw
      [ZMOD mode.cellModulus plane] := by
  cases mode with
  | rns planeCount => exact Int.ModEq.refl _
  | finite modulus =>
    simp only [BuiltinMode.valid, decide_eq_true_eq] at hvalid
    have hraw := raw.toNat_lt
    change (centerCanonicalU8 raw modulus).toInt ≡ (raw.toNat : ℤ) [ZMOD (modulus.toNat : ℤ)]
    unfold centerCanonicalU8
    split
    -- at `256` the byte is reinterpreted, which is subtracting the modulus
    · next h256 =>
      subst h256
      have hc := BitVec.toInt_eq_toNat_cond raw.toBitVec
      change raw.toInt8.toInt = (if 2 * raw.toNat < 2 ^ 8 then (raw.toNat : ℤ)
        else (raw.toNat : ℤ) - (2 ^ 8 : ℕ)) at hc
      have hmod : ((256 : UInt32).toNat : ℤ) = 256 := rfl
      rw [hc, hmod]
      split
      · rfl
      · exact Int.modEq_iff_dvd.2 ⟨1, by push_cast; ring⟩
    · next h256 =>
      -- elsewhere it is reduced and centered
      obtain ⟨hlo, hhi⟩ := staticByteModuli_deviceModulus hvalid
      have hne : modulus.toNat ≠ 256 := fun h => h256 (by rw [← UInt32.toNat_inj, h]; rfl)
      have hbyte : (raw % modulus.toUInt8).toUInt32.toNat = raw.toNat % modulus.toNat := by
        rw [UInt8.toNat_toUInt32, UInt8.toNat_mod, UInt32.toNat_toUInt8, Nat.mod_eq_of_lt (a := modulus.toNat)
          (by omega)]
      have hlt : (raw % modulus.toUInt8).toUInt32.toNat < modulus.toNat := by
        rw [hbyte]
        exact Nat.mod_lt _ (by omega)
      rw [centerUnsignedResidue_toInt hlo hhi hlt, hbyte]
      refine (CenteredResidue.bmod_modEq _ _).trans ?_
      rw [Int.natCast_mod]
      exact Int.mod_modEq _ _

end Rns8
