import Rns8.Hip.MatrixStores

/-!
# The AMDGPU builtin GEMM is the CPU ring GEMM

For each kernel, what a launch stores when its guard is defined. The probe and the launcher accept an
architecture by the start of its name, the guards name whole processors, and so a call that succeeds
stores its result exactly when the processor is one that the guard of its family names.
-/

namespace Rns8

open Finset LaneLayout

/-! ### Waves -/

/-- The waves of every kernel are exact for the given matrix instructions, on every operand and up to
the safe block; in the sparse ones each group belongs to one lane. -/
structure MatrixUnits.WavesExact (u : MatrixUnits) : Prop where
  cdna3Dense : ∀ (a b : ℕ → Int8) (m n k lda ldb plane tileRow tileCol : ℕ), k ≤ safeInt32KBlock →
    WaveExact mfma16Layout wordEntry wordEntry
      (fun i lane => packedA a m k lda plane (tileRow + lane % 16) (i * 32 + lane / 16 * 8))
      (fun i lane => packedB b n k ldb plane (i * 32 + lane / 16 * 8) (tileCol + lane % 16))
      (cdna3DenseAcc u a b m n k lda ldb plane tileRow tileCol) ((k + 31) / 32)
      (paddedRow a plane m k lda tileRow) (paddedCol b plane k n ldb tileCol)
  cdna3DenseWide : ∀ (a b : ℕ → Int8) (m n k lda ldb plane tileRow tileCol : ℕ), k ≤ safeInt32KBlock →
    WaveExact mfma32Layout wordEntry wordEntry
      (fun i lane => packedA a m k lda plane (tileRow + lane % 32) (i * 16 + lane / 32 * 8))
      (fun i lane => packedB b n k ldb plane (i * 16 + lane / 32 * 8) (tileCol + lane % 32))
      (cdna3DenseWideAcc u a b m n k lda ldb plane tileRow tileCol) ((k + 15) / 16)
      (paddedRow a plane m k lda tileRow) (paddedCol b plane k n ldb tileCol)
  rdna3Dense : ∀ (a b : ℕ → Int8) (m n k lda ldb plane tileRow tileCol : ℕ), k ≤ safeInt32KBlock →
    WaveExact rdna3Layout vectorEntry vectorEntry
      (fun i lane => rowVector a m k lda plane (tileRow + lane % 16) (i * 16))
      (fun i lane => columnVector b n k ldb plane (i * 16) (tileCol + lane % 16))
      (rdna3DenseAcc u a b m n k lda ldb plane tileRow tileCol) ((k + 15) / 16)
      (paddedRow a plane m k lda tileRow) (paddedCol b plane k n ldb tileCol)
  rdna4Dense : ∀ (a b : ℕ → Int8) (m n k lda ldb plane tileRow tileCol : ℕ), k ≤ safeInt32KBlock →
    WaveExact wmmaGfx12Layout vectorEntry vectorEntry
      (fun i lane => rowVector a m k lda plane (tileRow + lane % 16) (i * 16 + lane / 16 * 8))
      (fun i lane => columnVector b n k ldb plane (i * 16 + lane / 16 * 8) (tileCol + lane % 16))
      (rdna4DenseAcc u a b m n k lda ldb plane tileRow tileCol) ((k + 15) / 16)
      (paddedRow a plane m k lda tileRow) (paddedCol b plane k n ldb tileCol)
  cdna3Sparse : ∀ (mode : BuiltinMode) (aValues aIndices : ℕ → UInt8) (b : ℕ → Int8)
    (m n k ldb plane tileRow tileCol : ℕ), k ≤ safeInt32KBlock →
    WaveExact smfmac16Layout (fun op : (ℕ → UInt32) × UInt32 => sparseEntry (op.1, op.2.toNat)) vectorEntry
      (fun i lane => sparseOperand mode aValues aIndices m k plane (tileRow + lane % 16)
        (i * 64 / 4 + lane / 16 * 4))
      (fun i lane => columnVector b n k ldb plane (i * 64 + lane / 16 * 16) (tileCol + lane % 16))
      (cdna3SparseAcc u mode aValues aIndices b m n k ldb plane tileRow tileCol) ((k + 63) / 64)
      (sparseRow mode aValues aIndices plane m k tileRow) (paddedCol b plane k n ldb tileCol)
  cdna3SparseWide : ∀ (mode : BuiltinMode) (aValues aIndices : ℕ → UInt8) (b : ℕ → Int8)
    (m n k ldb plane tileRow tileCol : ℕ), k ≤ safeInt32KBlock →
    WaveExact smfmac32Layout (fun op : (ℕ → UInt32) × UInt32 => sparseEntry (op.1, op.2.toNat)) vectorEntry
      (fun i lane => sparseOperand mode aValues aIndices m k plane (tileRow + lane % 32)
        (i * 32 / 4 + lane / 32 * 4))
      (fun i lane => columnVector b n k ldb plane (i * 32 + lane / 32 * 16) (tileCol + lane % 32))
      (cdna3SparseWideAcc u mode aValues aIndices b m n k ldb plane tileRow tileCol) ((k + 31) / 32)
      (sparseRow mode aValues aIndices plane m k tileRow) (paddedCol b plane k n ldb tileCol)
  rdna4Sparse : ∀ (mode : BuiltinMode) (aValues aIndices : ℕ → UInt8) (b : ℕ → Int8)
    (m n k ldb plane tileRow tileCol : ℕ), k ≤ safeInt32KBlock →
    WaveExact swmmacLayout (fun op : (ℕ → UInt32) × UInt16 => sparseEntry (op.1, op.2.toNat)) vectorEntry
      (fun i lane =>
        let operand := sparseOperand mode aValues aIndices m k plane (tileRow + lane % 16)
          (i * 32 / 4 + lane / 16 * 4)
        (operand.1, operand.2.toUInt16))
      (fun i lane => columnVector b n k ldb plane (i * 32 + lane / 16 * 16) (tileCol + lane % 16))
      (rdna4SparseAcc u mode aValues aIndices b m n k ldb plane tileRow tileCol) ((k + 31) / 32)
      (sparseRow mode aValues aIndices plane m k tileRow) (paddedCol b plane k n ldb tileCol)
  groups : ∀ L ∈ [smfmac16Layout, smfmac32Layout, swmmacLayout], ∀ row < L.tile, ∀ g < L.depth / 4,
    ∃! lane : ℕ, lane < L.tile * (L.depth / L.slice) ∧ lane % L.tile = row ∧
      lane / L.tile = g / (L.slice / 4)

theorem MatrixUnits.Documented.wavesExact {u : MatrixUnits} (hdoc : u.Documented) : u.WavesExact where
  cdna3Dense a b m n k lda ldb plane tileRow tileCol hk :=
    cdna3DenseAcc_exact hdoc a b m n k lda ldb plane tileRow tileCol hk
  cdna3DenseWide a b m n k lda ldb plane tileRow tileCol hk :=
    cdna3DenseWideAcc_exact hdoc a b m n k lda ldb plane tileRow tileCol hk
  rdna3Dense a b m n k lda ldb plane tileRow tileCol hk :=
    rdna3DenseAcc_exact hdoc a b m n k lda ldb plane tileRow tileCol hk
  rdna4Dense a b m n k lda ldb plane tileRow tileCol hk :=
    rdna4DenseAcc_exact hdoc a b m n k lda ldb plane tileRow tileCol hk
  cdna3Sparse mode aValues aIndices b m n k ldb plane tileRow tileCol hk :=
    cdna3SparseAcc_exact hdoc mode aValues aIndices b m n k ldb plane tileRow tileCol hk
  cdna3SparseWide mode aValues aIndices b m n k ldb plane tileRow tileCol hk :=
    cdna3SparseWideAcc_exact hdoc mode aValues aIndices b m n k ldb plane tileRow tileCol hk
  rdna4Sparse mode aValues aIndices b m n k ldb plane tileRow tileCol hk :=
    rdna4SparseAcc_exact hdoc mode aValues aIndices b m n k ldb plane tileRow tileCol hk
  groups L hL row hrow g hg := by
    refine group_existsUnique ?_ hrow hg
    simp only [List.mem_cons, List.not_mem_nil, or_false] at hL
    rcases hL with rfl | rfl | rfl <;> decide

/-! ### Kernels -/

/-- The residue of each cell of a dense product. -/
def denseTarget (mode : BuiltinMode) (a b : ℕ → Int8) (m k lda ldb plane row col : ℕ) : Int8 :=
  reduceToCentered (denseDot a b m k lda ldb plane row col) (mode.cellModulus plane)

/-- The residue of each cell of a product with the expansion of packed `A`. -/
def sparseTarget (mode : BuiltinMode) (aValues aIndices : ℕ → UInt8) (b : ℕ → Int8)
    (m k ldb plane row col : ℕ) : Int8 :=
  reduceToCentered (expandedDot mode aValues aIndices b m k ldb plane row col) (mode.cellModulus plane)

section Dense

variable {u : MatrixUnits} (hdoc : u.Documented) {arch : String} {mode : BuiltinMode} (a b : ℕ → Int8)
  {m n k : ℕ} (lda ldb : ℕ) {ldc : ℕ} {order : ℕ → List (ℕ × ℕ × ℕ)}
  (horder : ∀ tile : ℕ, (order tile).Perm (waves tile mode.planes m n)) (hvalid : mode.valid = true)
  (hldc : n ≤ ldc) (hk : k ≤ safeInt32KBlock)

omit hdoc horder hvalid hldc hk in
theorem dense_target (plane : ℕ) {row : ℕ} (col : ℕ) (hrow : row < m) :
    reduceToCentered (∑ kk ∈ range k, (loadCenteredI8 a plane m k lda row kk).toInt *
      denseEntry b k ldb plane kk col) (mode.cellModulus plane) =
      denseTarget mode a b m k lda ldb plane row col := by
  rw [denseTarget, denseDot]
  congr 1
  exact sum_congr rfl fun kk hkk => by
    rw [loadCenteredI8_inside a plane lda hrow (mem_range.1 hkk)]

include hdoc horder hvalid hldc hk

theorem cdna3Dense_storedOnce (hguard : guardDefined cdna3Guard arch = true) :
    CellsStoredOnce ((cdna3DenseMfmaKernel u mode a b m n k lda ldb ldc).run arch (order 16)) mode.planes
      m n ldc (denseTarget mode a b m k lda ldb) := by
  refine kernel_storedOnce (cdna3DenseMfmaKernel u mode a b m n k lda ldb ldc)
    (cdna3DenseAcc u a b m n k lda ldb) ((k + 31) / 32)
    (fun plane row kk => (loadCenteredI8 a plane m k lda row kk).toInt) (horder 16) hvalid hldc
    (le_steps_mul 32 (by decide)) ?_
    (fun plane tileRow tileCol => (cdna3DenseAcc_exact hdoc a b m n k lda ldb plane tileRow tileCol hk).exact)
    (fun plane _ row hrow col _ => dense_target a b lda ldb plane col hrow) hguard
  rintro ⟨⟨plane, blockY, blockX⟩, lane, reg⟩
  change storeAccumulator mode _ plane m n ldc (blockY * 16 + lane / 16 * 4 + reg) _ =
    storeAccumulator mode _ plane m n ldc (blockY * 16 + (4 * (lane / 16) + reg)) _
  rw [show blockY * 16 + lane / 16 * 4 + reg = blockY * 16 + (4 * (lane / 16) + reg) by omega]
  rfl

theorem cdna3DenseWide_storedOnce (hguard : guardDefined cdna3Guard arch = true) :
    CellsStoredOnce ((cdna3DenseMfma32x32x16Kernel u mode a b m n k lda ldb ldc).run arch (order 32))
      mode.planes m n ldc (denseTarget mode a b m k lda ldb) := by
  refine kernel_storedOnce (cdna3DenseMfma32x32x16Kernel u mode a b m n k lda ldb ldc)
    (cdna3DenseWideAcc u a b m n k lda ldb) ((k + 15) / 16)
    (fun plane row kk => (loadCenteredI8 a plane m k lda row kk).toInt) (horder 32) hvalid hldc
    (le_steps_mul 16 (by decide)) ?_
    (fun plane tileRow tileCol =>
      (cdna3DenseWideAcc_exact hdoc a b m n k lda ldb plane tileRow tileCol hk).exact)
    (fun plane _ row hrow col _ => dense_target a b lda ldb plane col hrow) hguard
  rintro ⟨⟨plane, blockY, blockX⟩, lane, reg⟩
  change storeAccumulator mode _ plane m n ldc
      (blockY * 32 + 8 * (reg / 4) + 4 * (lane / 32) + reg % 4) _ =
    storeAccumulator mode _ plane m n ldc
      (blockY * 32 + (8 * (reg / 4) + 4 * (lane / 32) + reg % 4)) _
  rw [show blockY * 32 + 8 * (reg / 4) + 4 * (lane / 32) + reg % 4 =
    blockY * 32 + (8 * (reg / 4) + 4 * (lane / 32) + reg % 4) by omega]
  rfl

theorem rdna3Dense_storedOnce (hguard : guardDefined rdna3Guard arch = true) :
    CellsStoredOnce ((rdna3DenseWmmaKernel u mode a b m n k lda ldb ldc).run arch (order 16)) mode.planes
      m n ldc (denseTarget mode a b m k lda ldb) := by
  refine kernel_storedOnce (rdna3DenseWmmaKernel u mode a b m n k lda ldb ldc)
    (rdna3DenseAcc u a b m n k lda ldb) ((k + 15) / 16)
    (fun plane row kk => (loadCenteredI8 a plane m k lda row kk).toInt) (horder 16) hvalid hldc
    (le_steps_mul 16 (by decide)) ?_
    (fun plane tileRow tileCol => (rdna3DenseAcc_exact hdoc a b m n k lda ldb plane tileRow tileCol hk).exact)
    (fun plane _ row hrow col _ => dense_target a b lda ldb plane col hrow) hguard
  rintro ⟨⟨plane, blockY, blockX⟩, lane, reg⟩
  change storeAccumulator mode _ plane m n ldc (blockY * 16 + reg * 2 + lane / 16) _ =
    storeAccumulator mode _ plane m n ldc (blockY * 16 + (2 * reg + lane / 16)) _
  rw [show blockY * 16 + reg * 2 + lane / 16 = blockY * 16 + (2 * reg + lane / 16) by omega]
  rfl

theorem rdna4Dense_storedOnce (hguard : guardDefined rdna4Guard arch = true) :
    CellsStoredOnce ((rdna4DenseWmmaKernel u mode a b m n k lda ldb ldc).run arch (order 16)) mode.planes
      m n ldc (denseTarget mode a b m k lda ldb) := by
  refine kernel_storedOnce (rdna4DenseWmmaKernel u mode a b m n k lda ldb ldc)
    (rdna4DenseAcc u a b m n k lda ldb) ((k + 15) / 16)
    (fun plane row kk => (loadCenteredI8 a plane m k lda row kk).toInt) (horder 16) hvalid hldc
    (le_steps_mul 16 (by decide)) ?_
    (fun plane tileRow tileCol => (rdna4DenseAcc_exact hdoc a b m n k lda ldb plane tileRow tileCol hk).exact)
    (fun plane _ row hrow col _ => dense_target a b lda ldb plane col hrow) hguard
  rintro ⟨⟨plane, blockY, blockX⟩, lane, reg⟩
  change storeAccumulator mode _ plane m n ldc (blockY * 16 + lane / 16 * 8 + reg) _ =
    storeAccumulator mode _ plane m n ldc (blockY * 16 + (8 * (lane / 16) + reg)) _
  rw [show blockY * 16 + lane / 16 * 8 + reg = blockY * 16 + (8 * (lane / 16) + reg) by omega]
  rfl

end Dense

section Sparse

variable {u : MatrixUnits} (hdoc : u.Documented) {arch : String} {mode : BuiltinMode}
  (aValues aIndices : ℕ → UInt8) (b : ℕ → Int8) {m n k : ℕ} (ldb : ℕ) {ldc : ℕ}
  {order : ℕ → List (ℕ × ℕ × ℕ)}
  (horder : ∀ tile : ℕ, (order tile).Perm (waves tile mode.planes m n)) (hvalid : mode.valid = true)
  (hldc : n ≤ ldc) (hk : k ≤ safeInt32KBlock) (hfour : k % 4 = 0)

omit hdoc horder hldc hk in
include hvalid hfour in
theorem sparse_target (plane : ℕ) {row : ℕ} (col : ℕ) (hrow : row < m) :
    reduceToCentered (∑ kk ∈ range k, sparseCell aValues aIndices plane m (k / 4) mode.isFinite mode.modulus
      row kk * denseEntry b k ldb plane kk col) (mode.cellModulus plane) =
      sparseTarget mode aValues aIndices b m k ldb plane row col := by
  have hentry : ∀ kk ∈ range k, sparseCell aValues aIndices plane m (k / 4) mode.isFinite mode.modulus row kk ≡
      expandedEntry mode aValues aIndices m k plane row kk [ZMOD mode.cellModulus plane] := by
    intro kk hkk
    rw [mem_range] at hkk
    have hgroup : ¬ (row ≥ m ∨ kk / 4 ≥ k / 4) := by omega
    have hindex : (aIndices (groupOffset plane m (k / 4) row (kk / 4)) &&& 0x0f).toUInt32.toNat =
        (aIndices (groupOffset plane m (k / 4) row (kk / 4)) &&& 0x0f).toNat := UInt8.toNat_toUInt32 _
    have hite : ∀ {p : Prop} [Decidable p] {x y : ℤ}, x ≡ y [ZMOD mode.cellModulus plane] →
        (if p then x else 0) ≡ (if p then y else 0) [ZMOD mode.cellModulus plane] := by
      intro p _ x y h
      split
      · exact h
      · rfl
    simp only [sparseCell, expandedEntry, groupValue, sparseIndexForGroup, if_neg hgroup, hindex, groupEntry,
      Nat.add_zero]
    exact Int.ModEq.add (hite (sparseValue_modEq hvalid plane _)) (hite (sparseValue_modEq hvalid plane _))
  have hsum : ∑ kk ∈ range k, sparseCell aValues aIndices plane m (k / 4) mode.isFinite mode.modulus row kk *
      denseEntry b k ldb plane kk col ≡ expandedDot mode aValues aIndices b m k ldb plane row col
      [ZMOD mode.cellModulus plane] :=
    CenteredResidue.sum_modEq fun kk hkk => (hentry kk hkk).mul_right _
  rw [sparseTarget]
  exact reduceToCentered_congr hsum

include hdoc horder hvalid hldc hk hfour

theorem cdna3Sparse_storedOnce (hguard : guardDefined cdna3Guard arch = true) :
    CellsStoredOnce ((cdna3SparseSmfmacKernel u mode aValues aIndices b m n k ldb ldc).run arch (order 16))
      mode.planes m n ldc (sparseTarget mode aValues aIndices b m k ldb) := by
  refine kernel_storedOnce (cdna3SparseSmfmacKernel u mode aValues aIndices b m n k ldb ldc)
    (cdna3SparseAcc u mode aValues aIndices b m n k ldb) ((k + 63) / 64)
    (fun plane row kk =>
      sparseCell aValues aIndices plane m (k / 4) mode.isFinite mode.modulus row kk) (horder 16) hvalid hldc
    (le_steps_mul 64 (by decide)) ?_ (fun plane tileRow tileCol =>
      (cdna3SparseAcc_exact hdoc mode aValues aIndices b m n k ldb plane tileRow tileCol hk).exact)
    (fun plane _ row hrow col _ => sparse_target aValues aIndices b ldb hvalid hfour plane col hrow) hguard
  rintro ⟨⟨plane, blockY, blockX⟩, lane, reg⟩
  change storeAccumulator mode _ plane m n ldc (blockY * 16 + lane / 16 * 4 + reg) _ =
    storeAccumulator mode _ plane m n ldc (blockY * 16 + (4 * (lane / 16) + reg)) _
  rw [show blockY * 16 + lane / 16 * 4 + reg = blockY * 16 + (4 * (lane / 16) + reg) by omega]
  rfl

theorem cdna3SparseWide_storedOnce (hguard : guardDefined cdna3Guard arch = true) :
    CellsStoredOnce ((cdna3SparseSmfmac32x32x32Kernel u mode aValues aIndices b m n k ldb ldc).run arch
      (order 32)) mode.planes m n ldc (sparseTarget mode aValues aIndices b m k ldb) := by
  refine kernel_storedOnce (cdna3SparseSmfmac32x32x32Kernel u mode aValues aIndices b m n k ldb ldc)
    (cdna3SparseWideAcc u mode aValues aIndices b m n k ldb) ((k + 31) / 32)
    (fun plane row kk =>
      sparseCell aValues aIndices plane m (k / 4) mode.isFinite mode.modulus row kk) (horder 32) hvalid hldc
    (le_steps_mul 32 (by decide)) ?_ (fun plane tileRow tileCol =>
      (cdna3SparseWideAcc_exact hdoc mode aValues aIndices b m n k ldb plane tileRow tileCol hk).exact)
    (fun plane _ row hrow col _ => sparse_target aValues aIndices b ldb hvalid hfour plane col hrow) hguard
  rintro ⟨⟨plane, blockY, blockX⟩, lane, reg⟩
  change storeAccumulator mode _ plane m n ldc
      (blockY * 32 + 8 * (reg / 4) + 4 * (lane / 32) + reg % 4) _ =
    storeAccumulator mode _ plane m n ldc
      (blockY * 32 + (8 * (reg / 4) + 4 * (lane / 32) + reg % 4)) _
  rw [show blockY * 32 + 8 * (reg / 4) + 4 * (lane / 32) + reg % 4 =
    blockY * 32 + (8 * (reg / 4) + 4 * (lane / 32) + reg % 4) by omega]
  rfl

theorem rdna4Sparse_storedOnce (hguard : guardDefined rdna4Guard arch = true) :
    CellsStoredOnce ((rdna4SparseSwmmacKernel u mode aValues aIndices b m n k ldb ldc).run arch (order 16))
      mode.planes m n ldc (sparseTarget mode aValues aIndices b m k ldb) := by
  refine kernel_storedOnce (rdna4SparseSwmmacKernel u mode aValues aIndices b m n k ldb ldc)
    (rdna4SparseAcc u mode aValues aIndices b m n k ldb) ((k + 31) / 32)
    (fun plane row kk =>
      sparseCell aValues aIndices plane m (k / 4) mode.isFinite mode.modulus row kk) (horder 16) hvalid hldc
    (le_steps_mul 32 (by decide)) ?_ (fun plane tileRow tileCol =>
      (rdna4SparseAcc_exact hdoc mode aValues aIndices b m n k ldb plane tileRow tileCol hk).exact)
    (fun plane _ row hrow col _ => sparse_target aValues aIndices b ldb hvalid hfour plane col hrow) hguard
  rintro ⟨⟨plane, blockY, blockX⟩, lane, reg⟩
  change storeAccumulator mode _ plane m n ldc (blockY * 16 + lane / 16 * 8 + reg) _ =
    storeAccumulator mode _ plane m n ldc (blockY * 16 + (8 * (lane / 16) + reg)) _
  rw [show blockY * 16 + lane / 16 * 8 + reg = blockY * 16 + (8 * (lane / 16) + reg) by omega]
  rfl

end Sparse

/-! ### Calls -/

/-- The processors that the guards of an architecture family name. -/
def ArchKind.guard : ArchKind → List String
  | .cdna3 => cdna3Guard
  | .rdna3 => rdna3Guard
  | .rdna4 => rdna4Guard
  | .unsupported => []

/-- The processor is named by the guard of the family that its name starts like. -/
def builtFor (arch : String) : Bool := guardDefined (detectArchKind arch).guard arch

/-- A dense call that succeeds is the CPU ring GEMM: it stores each cell once, with its residue. -/
def DenseCallCorrect (u : MatrixUnits) (dev : BuiltinDevice) : Prop :=
  ∀ (mode : BuiltinMode) (variant : DenseKernelVariant) (a b : ℕ → Int8) (m n k lda ldb ldc : ℤ)
    (order : WaveOrder mode.planes m.toNat n.toNat) (stores : List (ℕ × Int8)),
    amdgpuBuiltinsGemmDevice u dev mode variant a b m n k lda ldb ldc order = (.success, stores) →
    CellsStoredOnce stores mode.planes m.toNat n.toNat ldc.toNat
      (denseTarget mode a b m.toNat k.toNat lda.toNat ldb.toNat)

/-- The probe and the launcher accept the same names. -/
theorem amdgpuBuiltinsProbe_success_iff (arch : String) :
    amdgpuBuiltinsProbe arch = .success ↔ detectArchKind arch ≠ .unsupported := by
  unfold amdgpuBuiltinsProbe detectArchKind
  cases archStartsWith arch "gfx942" <;> cases archStartsWith arch "gfx110" <;>
    cases archStartsWith arch "gfx1200" <;> cases archStartsWith arch "gfx1201" <;> simp

theorem statusFromDeviceCode_eq_success_iff (code : ℕ) : statusFromDeviceCode code = .success ↔ code = 0 := by
  rcases code with _ | _ | _ | _ | _ | code <;> simp [statusFromDeviceCode]

theorem validDenseShape_spec {m n k lda ldb ldc : ℤ} (h : validDenseShape m n k lda ldb ldc = true) :
    0 < m ∧ 0 < n ∧ 0 < k ∧ n ≤ ldc := by
  simp only [validDenseShape, Bool.and_eq_true, decide_eq_true_eq] at h
  omega

theorem validSparseShape_spec {m n k ldb ldc : ℤ} (h : validSparseShape m n k ldb ldc = true) :
    0 < m ∧ 0 < n ∧ 0 < k ∧ k % 4 = 0 ∧ n ≤ ldc := by
  simp only [validSparseShape, Bool.and_eq_true, decide_eq_true_eq] at h
  omega

section Calls

variable {u : MatrixUnits} (hdoc : u.Documented) (dev : BuiltinDevice) {mode : BuiltinMode}
  {m n k : ℕ} {order : ℕ → List (ℕ × ℕ × ℕ)}
  (horder : ∀ tile : ℕ, (order tile).Perm (waves tile mode.planes m n)) (hvalid : mode.valid = true)
  {ldc : ℕ} (hldc : n ≤ ldc) (hk : k ≤ safeInt32KBlock) (hm : 0 < m) (hn : 0 < n)

include hdoc horder hvalid hldc hk hm hn

/-- **A dense launch that reports no error** stores the result exactly on the processors it is built
for. -/
theorem launchDense_storedOnce_iff (variant : DenseKernelVariant) (a b : ℕ → Int8) (lda ldb : ℕ)
    (hcode : (launchDense u dev mode variant a b m n k lda ldb ldc order).1 = 0) :
    CellsStoredOnce (launchDense u dev mode variant a b m n k lda ldb ldc order).2 mode.planes m n ldc
      (denseTarget mode a b m k lda ldb) ↔ builtFor dev.arch = true := by
  -- a kernel whose launch stores the result under its guard stores it only then
  have key : ∀ (kernel : MatrixKernel) (o : List (ℕ × ℕ × ℕ)),
      (guardDefined kernel.guard dev.arch = true → CellsStoredOnce (kernel.run dev.arch o) mode.planes m n
        ldc (denseTarget mode a b m k lda ldb)) →
      (CellsStoredOnce (kernel.run dev.arch o) mode.planes m n ldc (denseTarget mode a b m k lda ldb) ↔
        guardDefined kernel.guard dev.arch = true) := fun kernel o h =>
    ⟨fun hs => by_contra fun hg => not_storedOnce_of_guard hg hvalid hm hn hs, h⟩
  unfold builtFor
  unfold launchDense at hcode ⊢
  cases hsel : dev.selectable with
  | false => simp [hsel] at hcode
  | true =>
    simp only [hsel, Bool.not_true, Bool.false_eq_true, if_false] at hcode ⊢
    cases hkind : detectArchKind dev.arch with
    | unsupported => simp [hkind] at hcode
    | cdna3 =>
      simp only
      split
      · exact key _ _ (cdna3DenseWide_storedOnce hdoc a b lda ldb horder hvalid hldc hk)
      · exact key _ _ (cdna3Dense_storedOnce hdoc a b lda ldb horder hvalid hldc hk)
    | rdna3 => exact key _ _ (rdna3Dense_storedOnce hdoc a b lda ldb horder hvalid hldc hk)
    | rdna4 => exact key _ _ (rdna4Dense_storedOnce hdoc a b lda ldb horder hvalid hldc hk)

/-- **A sparse launch that reports no error** stores the result exactly on the processors it is built
for. -/
theorem launchSparseA_storedOnce_iff (aValues aIndices : ℕ → UInt8) (b : ℕ → Int8) (ldb : ℕ)
    (hfour : k % 4 = 0)
    (hcode : (launchSparseA u dev mode aValues aIndices b m n k ldb ldc order).1 = 0) :
    CellsStoredOnce (launchSparseA u dev mode aValues aIndices b m n k ldb ldc order).2 mode.planes m n ldc
      (sparseTarget mode aValues aIndices b m k ldb) ↔ builtFor dev.arch = true := by
  have key : ∀ (kernel : MatrixKernel) (o : List (ℕ × ℕ × ℕ)),
      (guardDefined kernel.guard dev.arch = true → CellsStoredOnce (kernel.run dev.arch o) mode.planes m n
        ldc (sparseTarget mode aValues aIndices b m k ldb)) →
      (CellsStoredOnce (kernel.run dev.arch o) mode.planes m n ldc
        (sparseTarget mode aValues aIndices b m k ldb) ↔ guardDefined kernel.guard dev.arch = true) :=
    fun kernel o h => ⟨fun hs => by_contra fun hg => not_storedOnce_of_guard hg hvalid hm hn hs, h⟩
  unfold builtFor
  unfold launchSparseA at hcode ⊢
  cases hsel : dev.selectable with
  | false => simp [hsel] at hcode
  | true =>
    simp only [hsel, Bool.not_true, Bool.false_eq_true, if_false] at hcode ⊢
    cases hkind : detectArchKind dev.arch with
    | unsupported => simp [hkind] at hcode
    | rdna3 => simp [hkind] at hcode
    | cdna3 =>
      simp only
      split
      · exact key _ _ (cdna3SparseWide_storedOnce hdoc aValues aIndices b ldb horder hvalid hldc hk hfour)
      · exact key _ _ (cdna3Sparse_storedOnce hdoc aValues aIndices b ldb horder hvalid hldc hk hfour)
    | rdna4 =>
      exact key _ _ (rdna4Sparse_storedOnce hdoc aValues aIndices b ldb horder hvalid hldc hk hfour)

end Calls

section Results

variable {u : MatrixUnits} {dev : BuiltinDevice} {mode : BuiltinMode} {m n k ldb ldc : ℤ}
  {order : WaveOrder mode.planes m.toNat n.toNat}

theorem launchDense_code_eq_zero_iff {variant : DenseKernelVariant} {a b : ℕ → Int8}
    {m n k lda ldb ldc : ℕ} {order : ℕ → List (ℕ × ℕ × ℕ)} :
    (launchDense u dev mode variant a b m n k lda ldb ldc order).1 = 0 ↔
      dev.selectable = true ∧ dev.launchOk = true ∧ detectArchKind dev.arch ≠ .unsupported := by
  unfold launchDense
  cases dev.selectable <;> cases hok : dev.launchOk <;> cases detectArchKind dev.arch <;>
    simp [launchKernel, hok, apply_ite]

theorem launchSparseA_code_eq_zero_iff {aValues aIndices : ℕ → UInt8} {b : ℕ → Int8}
    {m n k ldb ldc : ℕ} {order : ℕ → List (ℕ × ℕ × ℕ)} :
    (launchSparseA u dev mode aValues aIndices b m n k ldb ldc order).1 = 0 ↔
      dev.selectable = true ∧ dev.launchOk = true ∧ detectArchKind dev.arch ≠ .unsupported ∧
        detectArchKind dev.arch ≠ .rdna3 := by
  unfold launchSparseA
  cases dev.selectable <;> cases hok : dev.launchOk <;> cases detectArchKind dev.arch <;>
    simp [launchKernel, hok, apply_ite]

/-- **When a dense call succeeds.** -/
theorem amdgpuBuiltinsGemmDevice_success_iff {variant : DenseKernelVariant} {a b : ℕ → Int8}
    {lda : ℤ} : (amdgpuBuiltinsGemmDevice u dev mode variant a b m n k lda ldb ldc order).1 =
        .success ↔ (validDenseShape m n k lda ldb ldc = true ∧ mode.valid = true ∧
          k ≤ safeInt32KBlock) ∧ dev.selectable = true ∧ dev.launchOk = true ∧
        detectArchKind dev.arch ≠ .unsupported := by
  unfold amdgpuBuiltinsGemmDevice
  split
  · next hargs =>
    simp only [Bool.or_eq_true, Bool.not_eq_true'] at hargs
    refine iff_of_false (by simp) fun h => ?_
    rcases hargs with hshape | hvalid
    · simp [hshape] at h
    · simp [hvalid] at h
  · next hargs =>
    simp only [Bool.or_eq_true, Bool.not_eq_true', not_or, Bool.not_eq_false] at hargs
    split
    · next hsafe => simp [hsafe.not_ge]
    · next hsafe =>
      rw [statusFromDeviceCode_eq_success_iff, launchDense_code_eq_zero_iff]
      simp [hargs, not_lt.1 hsafe]

/-- **When a sparse call succeeds.** -/
theorem amdgpuBuiltinsGemmSparseADevice_success_iff {aValues aIndices : ℕ → UInt8} {b : ℕ → Int8} :
    (amdgpuBuiltinsGemmSparseADevice u dev mode aValues aIndices b m n k ldb ldc order).1 =
        .success ↔ (validSparseShape m n k ldb ldc = true ∧ mode.valid = true ∧
          k ≤ safeInt32KBlock) ∧ dev.selectable = true ∧ dev.launchOk = true ∧
        detectArchKind dev.arch ≠ .unsupported ∧ detectArchKind dev.arch ≠ .rdna3 := by
  unfold amdgpuBuiltinsGemmSparseADevice
  split
  · next hargs =>
    simp only [Bool.or_eq_true, Bool.not_eq_true'] at hargs
    refine iff_of_false (by simp) fun h => ?_
    rcases hargs with hshape | hvalid
    · simp [hshape] at h
    · simp [hvalid] at h
  · next hargs =>
    simp only [Bool.or_eq_true, Bool.not_eq_true', not_or, Bool.not_eq_false] at hargs
    split
    · next hsafe => simp [hsafe.not_ge]
    · next hsafe =>
      rw [statusFromDeviceCode_eq_success_iff, launchSparseA_code_eq_zero_iff]
      simp [hargs, not_lt.1 hsafe]

/-- A dense call that succeeds stores its result exactly on the processors it is built for. -/
theorem amdgpuBuiltinsGemmDevice_storedOnce_iff (hdoc : u.Documented) {variant : DenseKernelVariant}
    {a b : ℕ → Int8} {lda : ℤ}
    (h : (amdgpuBuiltinsGemmDevice u dev mode variant a b m n k lda ldb ldc order).1 = .success) :
    CellsStoredOnce (amdgpuBuiltinsGemmDevice u dev mode variant a b m n k lda ldb ldc order).2
        mode.planes m.toNat n.toNat ldc.toNat
        (denseTarget mode a b m.toNat k.toNat lda.toNat ldb.toNat) ↔ builtFor dev.arch = true := by
  obtain ⟨⟨hshape, hvalid, hsafe⟩, hlaunch⟩ := amdgpuBuiltinsGemmDevice_success_iff.1 h
  obtain ⟨hm, hn, hk, hldc⟩ := validDenseShape_spec hshape
  unfold amdgpuBuiltinsGemmDevice
  rw [if_neg (by simp [hshape, hvalid]), if_neg (not_lt.2 hsafe)]
  exact launchDense_storedOnce_iff hdoc dev order.perm hvalid (by omega) (by omega) (by omega)
    (by omega) variant a b _ _ (launchDense_code_eq_zero_iff.2 hlaunch)

/-- A sparse call that succeeds stores its result exactly on the processors it is built for. -/
theorem amdgpuBuiltinsGemmSparseADevice_storedOnce_iff (hdoc : u.Documented)
    {aValues aIndices : ℕ → UInt8} {b : ℕ → Int8}
    (h : (amdgpuBuiltinsGemmSparseADevice u dev mode aValues aIndices b m n k ldb ldc order).1 =
      .success) :
    CellsStoredOnce (amdgpuBuiltinsGemmSparseADevice u dev mode aValues aIndices b m n k ldb ldc order).2
        mode.planes m.toNat n.toNat ldc.toNat
        (sparseTarget mode aValues aIndices b m.toNat k.toNat ldb.toNat) ↔
      builtFor dev.arch = true := by
  obtain ⟨⟨hshape, hvalid, hsafe⟩, hlaunch⟩ := amdgpuBuiltinsGemmSparseADevice_success_iff.1 h
  obtain ⟨hm, hn, hk, hfour, hldc⟩ := validSparseShape_spec hshape
  unfold amdgpuBuiltinsGemmSparseADevice
  rw [if_neg (by simp [hshape, hvalid]), if_neg (not_lt.2 hsafe)]
  exact launchSparseA_storedOnce_iff hdoc dev order.perm hvalid (by omega) (by omega) (by omega)
    (by omega) aValues aIndices b _ (by omega) (launchSparseA_code_eq_zero_iff.2 hlaunch)

end Results

/-- **The builtin GEMM is the CPU ring GEMM exactly on the processors it is built for.** Its waves are
exact on every operand; a call that succeeds, with `C` in a buffer of its own, stores each cell of `C`
once, with the residue of its exact dot product, if and only if the guard of the family names the
processor; and the expansion it multiplies is that of the API on every group that packing writes. -/
theorem amdgpuBuiltins_correct_iff {u : MatrixUnits} (hdoc : u.Documented) :
    u.WavesExact ∧
    (∀ (dev : BuiltinDevice) (mode : BuiltinMode) (variant : DenseKernelVariant) (a b : ℕ → Int8)
      (m n k lda ldb ldc : ℤ) (order : WaveOrder mode.planes m.toNat n.toNat) (stores : List (ℕ × Int8)),
      amdgpuBuiltinsGemmDevice u dev mode variant a b m n k lda ldb ldc order = (.success, stores) →
      amdgpuBuiltinsProbe dev.arch = .success ∧
      (CellsStoredOnce stores mode.planes m.toNat n.toNat ldc.toNat
        (denseTarget mode a b m.toNat k.toNat lda.toNat ldb.toNat) ↔ builtFor dev.arch = true)) ∧
    (∀ (dev : BuiltinDevice) (mode : BuiltinMode) (aValues aIndices : ℕ → UInt8) (b : ℕ → Int8)
      (m n k ldb ldc : ℤ) (order : WaveOrder mode.planes m.toNat n.toNat) (stores : List (ℕ × Int8)),
      amdgpuBuiltinsGemmSparseADevice u dev mode aValues aIndices b m n k ldb ldc order =
        (.success, stores) →
      amdgpuBuiltinsProbe dev.arch = .success ∧
      (CellsStoredOnce stores mode.planes m.toNat n.toNat ldc.toNat
        (sparseTarget mode aValues aIndices b m.toNat k.toNat ldb.toNat) ↔ builtFor dev.arch = true)) ∧
    ∀ (mode : BuiltinMode) (v0 v1 index : UInt8) (lane : ℕ), groupWellFormed v0 v1 index = true →
      groupEntry (rawValue mode v0) (rawValue mode v1) (index &&& 0x0f).toNat lane =
        rawValue mode (expandLane v0 v1 index lane) := by
  refine ⟨hdoc.wavesExact, ?_, ?_, fun mode v0 v1 index lane h => groupEntry_eq_expandLane mode h lane⟩
  · intro dev mode variant a b m n k lda ldb ldc order stores hcall
    have hst := congrArg Prod.fst hcall
    -- success means the probe passed; whether a kernel body was built is up to the name
    have hstored := amdgpuBuiltinsGemmDevice_storedOnce_iff hdoc hst
    rw [hcall] at hstored
    exact ⟨(amdgpuBuiltinsProbe_success_iff dev.arch).2
      (amdgpuBuiltinsGemmDevice_success_iff.1 hst).2.2.2, hstored⟩
  · intro dev mode aValues aIndices b m n k ldb ldc order stores hcall
    have hst := congrArg Prod.fst hcall
    have hstored := amdgpuBuiltinsGemmSparseADevice_storedOnce_iff hdoc hst
    rw [hcall] at hstored
    exact ⟨(amdgpuBuiltinsProbe_success_iff dev.arch).2
      (amdgpuBuiltinsGemmSparseADevice_success_iff.1 hst).2.2.2.1, hstored⟩

/-! ### A processor outside the guards -/

/-- Instructions with the documented behaviour. -/
def documentedUnits : MatrixUnits where
  mfmaI32_16x16x32_i8 := mfma16Layout.unit wordEntry wordEntry
  mfmaI32_32x32x16_i8 := mfma32Layout.unit wordEntry wordEntry
  wmmaI32_16x16x16_iu8_w32 := rdna3Layout.unit vectorEntry vectorEntry
  wmmaI32_16x16x16_iu8_w32_gfx12 := wmmaGfx12Layout.unit vectorEntry vectorEntry
  smfmacI32_16x16x64_i8 av bv acc idx := smfmac16Layout.unit
    (fun op : (ℕ → UInt32) × UInt32 => sparseEntry (op.1, op.2.toNat)) vectorEntry
    (fun lane => (av lane, idx lane)) bv acc
  smfmacI32_32x32x32_i8 av bv acc idx := smfmac32Layout.unit
    (fun op : (ℕ → UInt32) × UInt32 => sparseEntry (op.1, op.2.toNat)) vectorEntry
    (fun lane => (av lane, idx lane)) bv acc
  swmmacI32_16x16x32_iu8_w32 av bv acc idx := swmmacLayout.unit
    (fun op : (ℕ → UInt32) × UInt16 => sparseEntry (op.1, op.2.toNat)) vectorEntry
    (fun lane => (av lane, idx lane)) bv acc

theorem documentedUnits_documented : documentedUnits.Documented where
  mfma16 := mfma16Layout.computes_unit wordEntry wordEntry
  mfma32 := mfma32Layout.computes_unit wordEntry wordEntry
  wmma := rdna3Layout.computes_unit vectorEntry vectorEntry
  wmmaGfx12 := wmmaGfx12Layout.computes_unit vectorEntry vectorEntry
  smfmac16 a b acc lane reg exact := smfmac16Layout.computes_unit
    (fun op : (ℕ → UInt32) × UInt32 => sparseEntry (op.1, op.2.toNat)) vectorEntry a b acc lane reg exact
  smfmac32 a b acc lane reg exact := smfmac32Layout.computes_unit
    (fun op : (ℕ → UInt32) × UInt32 => sparseEntry (op.1, op.2.toNat)) vectorEntry a b acc lane reg exact
  swmmac a b acc lane reg exact := swmmacLayout.computes_unit
    (fun op : (ℕ → UInt32) × UInt16 => sparseEntry (op.1, op.2.toNat)) vectorEntry a b acc lane reg exact

/-- The waves of a grid in their canonical order. -/
def canonicalOrder (planes m n : ℕ) : WaveOrder planes m n where
  order tile := waves tile planes m n
  perm _ := List.Perm.refl _

/-- On `gfx1100` the product of two single entries is stored. -/
theorem amdgpuBuiltins_correct_gfx1100 :
    amdgpuBuiltinsGemmDevice documentedUnits ⟨"gfx1100", true, true⟩ (.rns 1) .autoSelect (fun _ => 1)
        (fun _ => 1) 1 1 1 1 1 1 (canonicalOrder 1 1 1) = (.success, [(0, 1)]) ∧
      CellsStoredOnce [(0, 1)] 1 1 1 1 (denseTarget (.rns 1) (fun _ => 1) (fun _ => 1) 1 1 1 1) := by
  have hcall : amdgpuBuiltinsGemmDevice documentedUnits ⟨"gfx1100", true, true⟩ (.rns 1) .autoSelect
      (fun _ => 1) (fun _ => 1) 1 1 1 1 1 1 (canonicalOrder 1 1 1) = (.success, [(0, 1)]) := by
    decide +kernel
  exact ⟨hcall, ((amdgpuBuiltins_correct_iff documentedUnits_documented).2.1 _ _ _ _ _ _ _ _ _ _ _ _ _
    hcall).2.2 (by decide +kernel)⟩

/-- **`gfx1103` is accepted and not built for**: the probe and the call succeed and nothing is
stored. -/
theorem gfx1103_stores_nothing :
    amdgpuBuiltinsProbe "gfx1103" = .success ∧
    amdgpuBuiltinsGemmDevice documentedUnits ⟨"gfx1103", true, true⟩ (.rns 1) .autoSelect (fun _ => 1)
        (fun _ => 1) 1 1 1 1 1 1 (canonicalOrder 1 1 1) = (.success, []) ∧
    ¬ ∀ u : MatrixUnits, u.Documented → ∀ dev : BuiltinDevice, amdgpuBuiltinsProbe dev.arch = .success →
      DenseCallCorrect u dev := by
  have hprobe : amdgpuBuiltinsProbe "gfx1103" = .success := by decide +kernel
  have hcall : amdgpuBuiltinsGemmDevice documentedUnits ⟨"gfx1103", true, true⟩ (.rns 1) .autoSelect
      (fun _ => 1) (fun _ => 1) 1 1 1 1 1 1 (canonicalOrder 1 1 1) = (.success, []) := by
    decide +kernel
  refine ⟨hprobe, hcall, fun h => ?_⟩
  have hcorrect := h documentedUnits documentedUnits_documented ⟨"gfx1103", true, true⟩ hprobe (.rns 1)
    .autoSelect (fun _ => 1) (fun _ => 1) 1 1 1 1 1 1 (canonicalOrder 1 1 1) [] hcall
  have hcell := hcorrect.once 0 Nat.one_pos 0 Nat.one_pos 0 Nat.one_pos
  simp at hcell

end Rns8
