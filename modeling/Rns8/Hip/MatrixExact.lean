import Rns8.Api.Sparse
import Rns8.Hip.MatrixKernels
import Rns8.Lib.DotBound

/-!
# The AMDGPU builtin kernels are exact

The rows and columns that a wave gathers, padded with zeros, and the sums its accumulators hold after
every step (`WaveExact`); then the stores of a launch: each cell of each plane once, with the residue
of its dot product (`CellsStoredOnce`).
-/

namespace Rns8

open Finset LaneLayout

/-! ### Waves -/

/-- A wave with the operands `aOps`, `bOps` and the accumulators `acc` after each number of steps:
every lane slice holds its positions of the rows `A` and the columns `B`, every position is held by
exactly one lane slice, and no accumulator wraps, so that it holds the exact product up to there. -/
structure WaveExact (L : LaneLayout) {α β : Type} (x : α → ℕ → ℤ) (y : β → ℕ → ℤ) (aOps : ℕ → ℕ → α)
    (bOps : ℕ → ℕ → β) (acc : ℕ → Acc) (steps : ℕ) (A B : ℕ → ℕ → ℤ) : Prop where
  aGathers : L.Gathers x aOps A
  bGathers : L.Gathers y bOps B
  once : ∀ row < L.tile, ∀ k < L.depth, ∃! s : ℕ × ℕ, s.1 < L.tile * (L.depth / L.slice) ∧
    s.2 < L.slice ∧ s.1 % L.tile = row ∧ s.1 / L.tile * L.slice + s.2 = k
  exact : ∀ p ≤ steps, ∀ lane < L.lanes, ∀ reg < L.regs, (acc p lane reg).toInt =
    ∑ k ∈ range (p * L.depth), A (L.accRow lane reg) k * B (lane % L.tile) k

/-- A wave is exact when the instruction is and the padded rows and columns fit. -/
theorem waveExact_of_computes {L : LaneLayout} {α β : Type} {x : α → ℕ → ℤ} {y : β → ℕ → ℤ}
    {f : (ℕ → α) → (ℕ → β) → Acc → Acc} {aOps : ℕ → ℕ → α} {bOps : ℕ → ℕ → β} {steps : ℕ}
    {A B : ℕ → ℕ → ℤ} (hf : L.Computes f x y) (hA : L.Gathers x aOps A) (hB : L.Gathers y bOps B)
    (hfits : ∀ p ≤ steps, ∀ row col : ℕ, |∑ k ∈ range (p * L.depth), A row k * B col k| < 2 ^ 31) :
    WaveExact L x y aOps bOps (accumulate f aOps bOps) steps A B where
  aGathers := hA
  bGathers := hB
  once _ hrow _ hk := slot_existsUnique hrow hk
  exact _ hp _ hlane _ hreg := accumulate_toInt hf hA hB
    (fun q hq row _ col _ => hfits q (hq.trans hp) row col) hlane hreg

/-! ### Dense rows and columns -/

/-- Row `row` of the tile at `tileRow`, zero outside the matrix. -/
def paddedRow (a : ℕ → Int8) (plane m k lda tileRow row kk : ℕ) : ℤ :=
  (loadCenteredI8 a plane m k lda (tileRow + row) kk).toInt

/-- Column `col` of the tile at `tileCol`, zero outside the matrix. -/
def paddedCol (b : ℕ → Int8) (plane k n ldb tileCol col kk : ℕ) : ℤ :=
  (loadCenteredI8 b plane k n ldb kk (tileCol + col)).toInt

theorem abs_int8_le (v : Int8) : |v.toInt| ≤ 128 :=
  abs_le.2 ⟨by have := v.le_toInt; omega, by have := v.toInt_lt; omega⟩

/-- A sum over padded rows and columns of at most one safe block fits an accumulator. -/
theorem abs_padded_lt {A B : ℕ → ℤ} (hA : ∀ kk, |A kk| ≤ 128) (hB : ∀ kk, |B kk| ≤ 128) {len : ℕ}
    (hlen : len ≤ 65600) : |∑ kk ∈ range len, A kk * B kk| < 2 ^ 31 := by
  have h := DotBound.abs_dot_le_card_mul (s := range len) (f := A) (g := B) (M := 128) (N := 128)
    (fun kk _ => hA kk) (by norm_num) fun kk _ => hB kk
  rw [card_range] at h
  have hcast : (len : ℤ) ≤ 65600 := by exact_mod_cast hlen
  omega

/-- A number of steps that does not go past the last one stays within a safe block and a tile. -/
theorem steps_mul_le {p depth k : ℕ} (hdepth : 0 < depth) (hdepth' : depth ≤ 64)
    (hk : k ≤ safeInt32KBlock) (hp : p ≤ (k + (depth - 1)) / depth) : p * depth ≤ 65600 := by
  have h := Nat.mul_le_mul_right depth hp
  have hdiv := Nat.div_mul_le_self (k + (depth - 1)) depth
  simp only [safeInt32KBlock] at hk
  omega

/-- The last step reaches the end of the row. -/
theorem le_steps_mul (depth : ℕ) {k : ℕ} (hdepth : 0 < depth) : k ≤ (k + (depth - 1)) / depth * depth := by
  have h := Nat.lt_div_mul_add (a := k + (depth - 1)) hdepth
  omega

section DenseWaves

variable {u : MatrixUnits} (hdoc : u.Documented) (a b : ℕ → Int8) (m n k lda ldb plane tileRow tileCol : ℕ)
  (hk : k ≤ safeInt32KBlock)

include hdoc hk

theorem cdna3DenseAcc_exact : WaveExact mfma16Layout wordEntry wordEntry
    (fun i lane => packedA a m k lda plane (tileRow + lane % 16) (i * 32 + lane / 16 * 8))
    (fun i lane => packedB b n k ldb plane (i * 32 + lane / 16 * 8) (tileCol + lane % 16))
    (cdna3DenseAcc u a b m n k lda ldb plane tileRow tileCol) ((k + 31) / 32)
    (paddedRow a plane m k lda tileRow) (paddedCol b plane k n ldb tileCol) := by
  refine waveExact_of_computes hdoc.mfma16 ?_ ?_ ?_
  · intro i lane entry _ hentry
    exact (wordEntry_row a plane m k lda _ _ hentry).trans (by rw [Nat.add_assoc]; rfl)
  · intro i lane entry _ hentry
    exact (wordEntry_column b plane k n ldb _ _ hentry).trans (by rw [Nat.add_assoc]; rfl)
  · intro p hp row col
    exact abs_padded_lt (fun _ => abs_int8_le _) (fun _ => abs_int8_le _)
      (steps_mul_le (by decide) (by decide) hk hp)

theorem cdna3DenseWideAcc_exact : WaveExact mfma32Layout wordEntry wordEntry
    (fun i lane => packedA a m k lda plane (tileRow + lane % 32) (i * 16 + lane / 32 * 8))
    (fun i lane => packedB b n k ldb plane (i * 16 + lane / 32 * 8) (tileCol + lane % 32))
    (cdna3DenseWideAcc u a b m n k lda ldb plane tileRow tileCol) ((k + 15) / 16)
    (paddedRow a plane m k lda tileRow) (paddedCol b plane k n ldb tileCol) := by
  refine waveExact_of_computes hdoc.mfma32 ?_ ?_ ?_
  · intro i lane entry _ hentry
    exact (wordEntry_row a plane m k lda _ _ hentry).trans (by rw [Nat.add_assoc]; rfl)
  · intro i lane entry _ hentry
    exact (wordEntry_column b plane k n ldb _ _ hentry).trans (by rw [Nat.add_assoc]; rfl)
  · intro p hp row col
    exact abs_padded_lt (fun _ => abs_int8_le _) (fun _ => abs_int8_le _)
      (steps_mul_le (by decide) (by decide) hk hp)

theorem rdna3DenseAcc_exact : WaveExact rdna3Layout vectorEntry vectorEntry
    (fun i lane => rowVector a m k lda plane (tileRow + lane % 16) (i * 16))
    (fun i lane => columnVector b n k ldb plane (i * 16) (tileCol + lane % 16))
    (rdna3DenseAcc u a b m n k lda ldb plane tileRow tileCol) ((k + 15) / 16)
    (paddedRow a plane m k lda tileRow) (paddedCol b plane k n ldb tileCol) := by
  refine waveExact_of_computes hdoc.wmma ?_ ?_ ?_
  · intro i lane entry hlane _
    -- only the lower half of the wave holds operands that are read
    have hzero : lane / rdna3Layout.tile = 0 := Nat.div_eq_of_lt hlane
    rw [hzero, Nat.zero_mul, Nat.zero_add]
    exact vectorEntry_row a plane m k lda _ _ _
  · intro i lane entry hlane _
    have hzero : lane / rdna3Layout.tile = 0 := Nat.div_eq_of_lt hlane
    rw [hzero, Nat.zero_mul, Nat.zero_add]
    exact vectorEntry_column b plane k n ldb _ _ _
  · intro p hp row col
    exact abs_padded_lt (fun _ => abs_int8_le _) (fun _ => abs_int8_le _)
      (steps_mul_le (by decide) (by decide) hk hp)

theorem rdna4DenseAcc_exact : WaveExact wmmaGfx12Layout vectorEntry vectorEntry
    (fun i lane => rowVector a m k lda plane (tileRow + lane % 16) (i * 16 + lane / 16 * 8))
    (fun i lane => columnVector b n k ldb plane (i * 16 + lane / 16 * 8) (tileCol + lane % 16))
    (rdna4DenseAcc u a b m n k lda ldb plane tileRow tileCol) ((k + 15) / 16)
    (paddedRow a plane m k lda tileRow) (paddedCol b plane k n ldb tileCol) := by
  refine waveExact_of_computes hdoc.wmmaGfx12 ?_ ?_ ?_
  · intro i lane entry _ _
    exact (vectorEntry_row a plane m k lda _ _ _).trans (by rw [Nat.add_assoc]; rfl)
  · intro i lane entry _ _
    exact (vectorEntry_column b plane k n ldb _ _ _).trans (by rw [Nat.add_assoc]; rfl)
  · intro p hp row col
    exact abs_padded_lt (fun _ => abs_int8_le _) (fun _ => abs_int8_le _)
      (steps_mul_le (by decide) (by decide) hk hp)

end DenseWaves

/-! ### Sparse rows -/

/-- The product of a group with four positions of a column: one term for each stored value. -/
theorem sum_groupEntry (v0 v1 : ℤ) (index : ℕ) (y : ℕ → ℤ) :
    ∑ j ∈ range 4, groupEntry v0 v1 index j * y j = v0 * y (index % 4) + v1 * y (index / 4 % 4) := by
  have hsingle : ∀ (v : ℤ) (i : ℕ), i < 4 → ∑ j ∈ range 4, (if j = i then v else 0) * y j = v * y i := by
    intro v i hi
    rw [sum_eq_single i]
    · simp
    · intro j _ hj
      simp [hj]
    · intro h
      exact absurd (mem_range.2 hi) h
  simp only [groupEntry, add_mul, sum_add_distrib]
  rw [hsingle v0 _ (Nat.mod_lt _ (by norm_num)), hsingle v1 _ (Nat.mod_lt _ (by norm_num))]

/-- A sum over groups with two stored values each. -/
theorem abs_groups_le (v0 v1 : ℕ → ℤ) (index : ℕ → ℕ) {y : ℕ → ℤ} (h0 : ∀ g, |v0 g| ≤ 128)
    (h1 : ∀ g, |v1 g| ≤ 128) (hy : ∀ kk, |y kk| ≤ 128) (groups : ℕ) :
    |∑ kk ∈ range (groups * 4), groupEntry (v0 (kk / 4)) (v1 (kk / 4)) (index (kk / 4)) (kk % 4) * y kk| ≤
      groups * (2 * 16384) := by
  induction groups with
  | zero => simp
  | succ groups ih =>
    have hparts : ∀ j ∈ range 4, groupEntry (v0 ((groups * 4 + j) / 4)) (v1 ((groups * 4 + j) / 4))
        (index ((groups * 4 + j) / 4)) ((groups * 4 + j) % 4) * y (groups * 4 + j) =
        groupEntry (v0 groups) (v1 groups) (index groups) j * y (groups * 4 + j) := by
      intro j hj
      rw [mem_range] at hj
      rw [show (groups * 4 + j) / 4 = groups by omega, show (groups * 4 + j) % 4 = j by omega]
    have hterm : ∀ v kk, |v| ≤ 128 → |v * y kk| ≤ 16384 := by
      intro v kk hv
      rw [abs_mul]
      calc |v| * |y kk| ≤ 128 * 128 := mul_le_mul hv (hy kk) (abs_nonneg _) (by norm_num)
        _ = 16384 := by norm_num
    rw [Nat.succ_mul, sum_range_add, sum_congr rfl hparts,
      sum_groupEntry (v0 groups) (v1 groups) (index groups) fun j => y (groups * 4 + j)]
    have ht0 := hterm (v0 groups) (groups * 4 + index groups % 4) (h0 groups)
    have ht1 := hterm (v1 groups) (groups * 4 + index groups / 4 % 4) (h1 groups)
    push_cast
    rw [abs_le] at ih ht0 ht1 ⊢
    constructor <;> linarith

/-- Row `row` of the tile at `tileRow` in the expansion that the sparse gathers read. -/
def sparseRow (mode : BuiltinMode) (aValues aIndices : ℕ → UInt8) (plane m k tileRow row kk : ℕ) : ℤ :=
  sparseCell aValues aIndices plane m (k / 4) mode.isFinite mode.modulus (tileRow + row) kk

/-- A sum over a sparse row and a padded column of at most one safe block fits an accumulator. -/
theorem abs_sparse_lt (mode : BuiltinMode) (aValues aIndices : ℕ → UInt8) (plane m k tileRow row : ℕ)
    {B : ℕ → ℤ} (hB : ∀ kk, |B kk| ≤ 128) {len : ℕ} (hfour : 4 ∣ len) (hlen : len ≤ 65600) :
    |∑ kk ∈ range len, sparseRow mode aValues aIndices plane m k tileRow row kk * B kk| < 2 ^ 31 := by
  obtain ⟨groups, rfl⟩ := hfour
  rw [Nat.mul_comm 4]
  have h := abs_groups_le
    (fun g => (groupValue aValues plane m (k / 4) mode.isFinite mode.modulus (tileRow + row) g 0).toInt)
    (fun g => (groupValue aValues plane m (k / 4) mode.isFinite mode.modulus (tileRow + row) g 1).toInt)
    (fun g => (sparseIndexForGroup aIndices plane m (k / 4) (tileRow + row) g).toNat)
    (fun _ => abs_int8_le _) (fun _ => abs_int8_le _) hB groups
  have hcast : (groups : ℤ) ≤ 16400 := by
    have : groups ≤ 16400 := by omega
    exact_mod_cast this
  refine lt_of_le_of_lt h ?_
  omega

section SparseWaves

variable {u : MatrixUnits} (hdoc : u.Documented) (mode : BuiltinMode) (aValues aIndices : ℕ → UInt8)
  (b : ℕ → Int8) (m n k ldb plane tileRow tileCol : ℕ) (hk : k ≤ safeInt32KBlock)

include hdoc hk

theorem cdna3SparseAcc_exact : WaveExact smfmac16Layout
    (fun op : (ℕ → UInt32) × UInt32 => sparseEntry (op.1, op.2.toNat)) vectorEntry
    (fun i lane => sparseOperand mode aValues aIndices m k plane (tileRow + lane % 16)
      (i * 64 / 4 + lane / 16 * 4))
    (fun i lane => columnVector b n k ldb plane (i * 64 + lane / 16 * 16) (tileCol + lane % 16))
    (cdna3SparseAcc u mode aValues aIndices b m n k ldb plane tileRow tileCol) ((k + 63) / 64)
    (sparseRow mode aValues aIndices plane m k tileRow) (paddedCol b plane k n ldb tileCol) := by
  refine waveExact_of_computes hdoc.smfmac16 ?_ ?_ ?_
  · intro i lane entry _ hentry
    refine (sparseEntry_gather aValues aIndices plane m (k / 4) mode.isFinite mode.modulus
      (tileRow + lane % 16) (i * 64 / 4 + lane / 16 * 4) hentry).trans ?_
    rw [show (i * 64 / 4 + lane / 16 * 4) * 4 + entry = i * 64 + (lane / 16 * 16 + entry) by omega]
    rfl
  · intro i lane entry _ _
    exact (vectorEntry_column b plane k n ldb _ _ _).trans (by rw [Nat.add_assoc]; rfl)
  · intro p hp row col
    exact abs_sparse_lt mode aValues aIndices plane m k tileRow row (fun _ => abs_int8_le _)
      (Dvd.dvd.mul_left (by decide) p) (steps_mul_le (by decide) (by decide) hk hp)

theorem cdna3SparseWideAcc_exact : WaveExact smfmac32Layout
    (fun op : (ℕ → UInt32) × UInt32 => sparseEntry (op.1, op.2.toNat)) vectorEntry
    (fun i lane => sparseOperand mode aValues aIndices m k plane (tileRow + lane % 32)
      (i * 32 / 4 + lane / 32 * 4))
    (fun i lane => columnVector b n k ldb plane (i * 32 + lane / 32 * 16) (tileCol + lane % 32))
    (cdna3SparseWideAcc u mode aValues aIndices b m n k ldb plane tileRow tileCol) ((k + 31) / 32)
    (sparseRow mode aValues aIndices plane m k tileRow) (paddedCol b plane k n ldb tileCol) := by
  refine waveExact_of_computes hdoc.smfmac32 ?_ ?_ ?_
  · intro i lane entry _ hentry
    refine (sparseEntry_gather aValues aIndices plane m (k / 4) mode.isFinite mode.modulus
      (tileRow + lane % 32) (i * 32 / 4 + lane / 32 * 4) hentry).trans ?_
    rw [show (i * 32 / 4 + lane / 32 * 4) * 4 + entry = i * 32 + (lane / 32 * 16 + entry) by omega]
    rfl
  · intro i lane entry _ _
    exact (vectorEntry_column b plane k n ldb _ _ _).trans (by rw [Nat.add_assoc]; rfl)
  · intro p hp row col
    exact abs_sparse_lt mode aValues aIndices plane m k tileRow row (fun _ => abs_int8_le _)
      (Dvd.dvd.mul_left (by decide) p) (steps_mul_le (by decide) (by decide) hk hp)

theorem rdna4SparseAcc_exact : WaveExact swmmacLayout
    (fun op : (ℕ → UInt32) × UInt16 => sparseEntry (op.1, op.2.toNat)) vectorEntry
    (fun i lane =>
      let operand := sparseOperand mode aValues aIndices m k plane (tileRow + lane % 16)
        (i * 32 / 4 + lane / 16 * 4)
      (operand.1, operand.2.toUInt16))
    (fun i lane => columnVector b n k ldb plane (i * 32 + lane / 16 * 16) (tileCol + lane % 16))
    (rdna4SparseAcc u mode aValues aIndices b m n k ldb plane tileRow tileCol) ((k + 31) / 32)
    (sparseRow mode aValues aIndices plane m k tileRow) (paddedCol b plane k n ldb tileCol) := by
  refine waveExact_of_computes hdoc.swmmac ?_ ?_ ?_
  · intro i lane entry _ hentry
    -- the short holds all four nibbles
    have hshort : (gatherIndices aIndices plane m (k / 4) (tileRow + lane % 16)
        (i * 32 / 4 + lane / 16 * 4)).toUInt16.toNat = (gatherIndices aIndices plane m (k / 4)
          (tileRow + lane % 16) (i * 32 / 4 + lane / 16 * 4)).toNat := by
      rw [UInt32.toNat_toUInt16]
      exact Nat.mod_eq_of_lt (gatherIndices_lt aIndices plane m (k / 4) _ _)
    have hentries := sparseEntry_gather aValues aIndices plane m (k / 4) mode.isFinite mode.modulus
      (tileRow + lane % 16) (i * 32 / 4 + lane / 16 * 4) hentry
    rw [← hshort] at hentries
    refine hentries.trans ?_
    rw [show (i * 32 / 4 + lane / 16 * 4) * 4 + entry = i * 32 + (lane / 16 * 16 + entry) by omega]
    rfl
  · intro i lane entry _ _
    exact (vectorEntry_column b plane k n ldb _ _ _).trans (by rw [Nat.add_assoc]; rfl)
  · intro p hp row col
    exact abs_sparse_lt mode aValues aIndices plane m k tileRow row (fun _ => abs_int8_le _)
      (Dvd.dvd.mul_left (by decide) p) (steps_mul_le (by decide) (by decide) hk hp)

end SparseWaves

end Rns8
