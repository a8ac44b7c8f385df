import Rns8.Core.Matrix
import Rns8.Core.Residue
import Rns8.Lib.LoopFold
import Rns8.Lib.RowMajor
import Rns8.Lib.ByteLimbs

/-!
# Packing on the CPU

`pack_i64_matrix`, `pack_u64_matrix`, `pack_finite_u8_matrix` and `pack_wrap_u64_matrix`: row after
row, the residues or the bytes of the source values are stored. The rows are disjoint and read
nothing that is written, so the parallel builds compute the same.
-/

namespace Rns8

open CenteredResidue ByteLimbs

/-- `buffer[base] = f(0), …, buffer[base + n - 1] = f(n - 1)`. -/
def fillRow {α : Type} (base n : ℕ) (f : ℕ → α) (buffer : ℕ → α) : ℕ → α :=
  fun o => if base ≤ o ∧ o < base + n then f (o - base) else buffer o

/-- `pack_plane_row` over all plane rows: `planes` planes of `rows` rows. -/
def packPlanes (planes rows cols : ℕ) (modulus : ℕ → ℕ) (src : ℕ → ℕ → ℤ) (cell : ℕ → Int8) :
    ℕ → Int8 :=
  (List.range (planes * rows)).foldl (fun cell planeRow =>
    let p := planeRow / rows
    let row := planeRow % rows
    fillRow ((p * rows + row) * cols) cols (fun col => centeredResidue (src row col) (modulus p)) cell)
    cell

/-- The source value of a cell, `src[row * ld + col]`. -/
def sourceI64 (src : ℕ → Int64) (ld row col : ℕ) : ℤ := (src (row * ld + col)).toInt

/-- The source value of a cell, `src[row * ld + col]`. -/
def sourceU64 (src : ℕ → UInt64) (ld row col : ℕ) : ℤ := (src (row * ld + col)).toNat

/-- The source value of a cell, `src[row * ld + col]`. -/
def sourceU8 (src : ℕ → UInt8) (ld row col : ℕ) : ℤ := (src (row * ld + col)).toNat

/-- `pack_i64_matrix`, as the new cells of the residue storage. -/
def packI64Matrix (matrix : RnsMatrix) (src : ℕ → Int64) (ld : ℕ) : ℕ → Int8 :=
  packPlanes matrix.rnsPrefix matrix.desc.rows matrix.desc.cols modulusAt (sourceI64 src ld)
    matrix.residues.cell

/-- `pack_u64_matrix`. -/
def packU64Matrix (matrix : RnsMatrix) (src : ℕ → UInt64) (ld : ℕ) : ℕ → Int8 :=
  packPlanes matrix.rnsPrefix matrix.desc.rows matrix.desc.cols modulusAt (sourceU64 src ld)
    matrix.residues.cell

/-- `pack_finite_u8_matrix`. -/
def packFiniteU8Matrix (matrix : RnsMatrix) (src : ℕ → UInt8) (ld modulus : ℕ) : ℕ → Int8 :=
  packPlanes 1 matrix.desc.rows matrix.desc.cols (fun _ => modulus) (sourceU8 src ld)
    matrix.residues.cell

/-- `pack_wrap_u64_matrix`, as the new cells of the byte-limb storage. -/
def packWrapU64Matrix (matrix : RnsMatrix) (src : ℕ → UInt64) (ld : ℕ) : ℕ → UInt8 :=
  (List.range matrix.desc.rows).foldl (fun cell row =>
    fillRow (row * matrix.desc.cols * 8) (matrix.desc.cols * 8)
      (fun i => limb (src (row * ld + i / 8)) (i % 8)) cell) matrix.byteLimbs.cell

/-! ### What packing writes -/

theorem fillRow_of_mem {α : Type} {base n i : ℕ} (hi : i < n) (f : ℕ → α) (buffer : ℕ → α) :
    fillRow base n f buffer (base + i) = f i := by
  have h : base ≤ base + i ∧ base + i < base + n := ⟨by omega, by omega⟩
  rw [fillRow, if_pos h, Nat.add_sub_cancel_left]

theorem fillRow_of_ne {α : Type} {q q' n i : ℕ} (hi : i < n) (hq : q' ≠ q) (f : ℕ → α)
    (buffer : ℕ → α) : fillRow (q * n) n f buffer (q' * n + i) = buffer (q' * n + i) := by
  refine if_neg fun h => hq ?_
  have hsub : q' * n + i - q * n < n := by omega
  have heq : q' * n + i = q * n + (q' * n + i - q * n) := by omega
  exact (RowMajor.eq_of_offset_eq hi hsub heq).1

/-- **Packing encodes the source.** Every cell of every plane gets the centered residue of its
source value. -/
theorem packPlanes_read {planes rows cols : ℕ} (modulus : ℕ → ℕ) (src : ℕ → ℕ → ℤ)
    (cell : ℕ → Int8) {p row col : ℕ} (hp : p < planes) (hrow : row < rows) (hcol : col < cols) :
    packPlanes planes rows cols modulus src cell ((p * rows + row) * cols + col) =
      centeredResidue (src row col) (modulus p) := by
  have hrows : 0 < rows := by omega
  have hcut : ∀ q, q / rows * rows + q % rows = q := fun q => by
    have := Nat.div_add_mod q rows
    rw [Nat.mul_comm] at this; exact this
  refine LoopFold.foldl_read_of_touched (I := fun _ => True)
    (fun cell : ℕ → Int8 => cell ((p * rows + row) * cols + col)) (fun q => q = p * rows + row)
    (fun _ _ _ _ => trivial) ?_ ?_ ⟨p * rows + row, ?_, rfl⟩ trivial
  · rintro cell q _ - rfl
    have hdiv : (p * rows + row) / rows = p := by
      rw [Nat.mul_comm, Nat.mul_add_div hrows, Nat.div_eq_of_lt hrow, Nat.add_zero]
    have hmod : (p * rows + row) % rows = row := by
      rw [Nat.mul_comm, Nat.mul_add_mod, Nat.mod_eq_of_lt hrow]
    simp only [hdiv, hmod]
    exact fillRow_of_mem hcol _ _
  · intro cell q _ _ hne
    simp only [hcut]
    exact fillRow_of_ne hcol (Ne.symm hne) _ _
  · exact List.mem_range.2 (RowMajor.offset_lt hrow hp)

/-- Packing stores the bytes of the source words. -/
theorem packWrapU64Matrix_read (matrix : RnsMatrix) (src : ℕ → UInt64) (ld : ℕ) {row col l : ℕ}
    (hrow : row < matrix.desc.rows) (hcol : col < matrix.desc.cols) (hl : l < 8) :
    packWrapU64Matrix matrix src ld ((row * matrix.desc.cols + col) * 8 + l) =
      limb (src (row * ld + col)) l := by
  have haddr : ∀ r, r * matrix.desc.cols * 8 = r * (matrix.desc.cols * 8) := fun r => by ring
  have hcell : (row * matrix.desc.cols + col) * 8 + l =
      row * (matrix.desc.cols * 8) + (col * 8 + l) := by ring
  rw [hcell]
  refine LoopFold.foldl_read_of_touched (I := fun _ => True)
    (fun cell : ℕ → UInt8 => cell (row * (matrix.desc.cols * 8) + (col * 8 + l)))
    (fun r => r = row) (fun _ _ _ _ => trivial) ?_ ?_ ⟨row, List.mem_range.2 hrow, rfl⟩ trivial
  · rintro cell r _ - rfl
    have hdiv : (col * 8 + l) / 8 = col := by omega
    have hmod : (col * 8 + l) % 8 = l := by omega
    rw [haddr, fillRow_of_mem (by omega), hdiv, hmod]
  · intro cell r _ _ hne
    rw [haddr]
    exact fillRow_of_ne (by omega) (Ne.symm hne) _ _

end Rns8
