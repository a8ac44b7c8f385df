import Rns8.Core.Residue
import Rns8.Lib.LoopFold
import Mathlib.Algebra.Order.BigOperators.Group.Finset
import Mathlib.Tactic

/-!
# Residue buffers

The byte storage of *all* residue buffers at once, and the pointers of the CPU kernels into it: the
three pointers of a call may point into one buffer, and a read then sees what was stored there. With
the stores of `ring_gemm_row` and the whole of `fill_tile_modulus`.
-/

namespace Rns8

open Finset CenteredResidue

variable {ι : Type} [DecidableEq ι]

/-- The bytes of every residue buffer. -/
abbrev Planes (ι : Type) := ι → ℕ → Int8

/-- A pointer into a residue buffer, with the leading dimension it is used with. -/
structure PlanePtr (ι : Type) where
  buf : ι
  base : ℕ
  ld : ℕ

/-- The offset of a cell addressed through the pointer. -/
def PlanePtr.addr (P : PlanePtr ι) (row col : ℕ) : ℕ := P.base + row * P.ld + col

/-- The cell addressed through the pointer. -/
def PlanePtr.read (P : PlanePtr ι) (mem : Planes ι) (row col : ℕ) : Int8 := mem P.buf (P.addr row col)

/-- `row[0] = f(0), …, row[n - 1] = f(n - 1)`. -/
def storeRow (P : PlanePtr ι) (row n : ℕ) (f : ℕ → Int8) (mem : Planes ι) : Planes ι :=
  fun b o => if b = P.buf ∧ P.addr row 0 ≤ o ∧ o < P.addr row 0 + n then f (o - P.addr row 0)
    else mem b o

/-- `row[col] = value`. -/
def PlanePtr.store (P : PlanePtr ι) (row col : ℕ) (value : Int8) (mem : Planes ι) : Planes ι :=
  fun b o => if b = P.buf ∧ o = P.addr row col then value else mem b o

/-- `fill_tile_modulus`. -/
def fillTileModulus (C : PlanePtr ι) (rowExtent colExtent : ℕ) (value : Int8) (mem : Planes ι) :
    Planes ι :=
  (List.range rowExtent).foldl (fun mem row => storeRow C row colExtent (fun _ => value) mem) mem

theorem int8_mul_bound (a b : Int8) : |a.toInt * b.toInt| ≤ 2 ^ 14 := by
  have ha := a.le_toInt
  have ha' := a.toInt_lt
  have hb := b.le_toInt
  have hb' := b.toInt_lt
  rw [abs_le]
  constructor <;> nlinarith

/-! ### One row -/

@[simp] theorem storeRow_of_ne (P : PlanePtr ι) (row n : ℕ) (f : ℕ → Int8) (mem : Planes ι) {b : ι}
    (hb : b ≠ P.buf) : storeRow P row n f mem b = mem b := by
  funext o; simp [storeRow, hb]

theorem storeRow_of_not_mem (P : PlanePtr ι) (row n : ℕ) (f : ℕ → Int8) (mem : Planes ι) {o : ℕ}
    (ho : ¬ (P.addr row 0 ≤ o ∧ o < P.addr row 0 + n)) :
    storeRow P row n f mem P.buf o = mem P.buf o := by
  simp [storeRow, ho]

@[simp] theorem read_storeRow (P : PlanePtr ι) (row n : ℕ) (f : ℕ → Int8) (mem : Planes ι) {col : ℕ}
    (hcol : col < n) : P.read (storeRow P row n f mem) row col = f col := by
  have h : P.addr row 0 ≤ P.addr row col ∧ P.addr row col < P.addr row 0 + n := by
    simp only [PlanePtr.addr]; omega
  have hsub : P.addr row col - P.addr row 0 = col := by simp [PlanePtr.addr]
  simp [PlanePtr.read, storeRow, h, hsub]

/-- The dot product of a row of `A` with a column of `B`, over the first `k` positions. -/
def planeDot (A B : PlanePtr ι) (row col k : ℕ) (mem : Planes ι) : ℤ :=
  ∑ kk ∈ range k, (A.read mem row kk).toInt * (B.read mem kk col).toInt

/-! ### All rows -/

omit [DecidableEq ι] in
/-- Two rows of the output overlap only if they are the same row. -/
theorem row_eq_of_mem {P : PlanePtr ι} {n r r' col : ℕ} (hld : n ≤ P.ld) (hcol : col < n)
    (h : P.addr r 0 ≤ P.addr r' col ∧ P.addr r' col < P.addr r 0 + n) : r = r' := by
  simp only [PlanePtr.addr] at h
  rcases Nat.lt_trichotomy r r' with hlt | heq | hgt
  · have : (r + 1) * P.ld ≤ r' * P.ld := Nat.mul_le_mul_right _ hlt
    rw [Nat.succ_mul] at this
    omega
  · exact heq
  · have : (r' + 1) * P.ld ≤ r * P.ld := Nat.mul_le_mul_right _ hgt
    rw [Nat.succ_mul] at this
    omega

theorem fillTileModulus_of_ne (C : PlanePtr ι) (m n : ℕ) (value : Int8) (mem : Planes ι) {b : ι}
    (hb : b ≠ C.buf) : fillTileModulus C m n value mem b = mem b :=
  LoopFold.foldl_read_of_frame (fun mem => mem b)
    (fun mem row _ => storeRow_of_ne C row n _ mem hb) mem

theorem fillTileModulus_frame (C : PlanePtr ι) (m n : ℕ) (value : Int8) (mem : Planes ι) {o : ℕ}
    (ho : ∀ row < m, ¬ (C.addr row 0 ≤ o ∧ o < C.addr row 0 + n)) :
    fillTileModulus C m n value mem C.buf o = mem C.buf o :=
  LoopFold.foldl_read_of_frame (fun mem => mem C.buf o)
    (fun mem row hrow => storeRow_of_not_mem C row n _ mem (ho row (List.mem_range.1 hrow))) mem

theorem fillTileModulus_read {C : PlanePtr ι} {m n : ℕ} (hld : n ≤ C.ld) (value : Int8)
    (mem : Planes ι) {row col : ℕ} (hrow : row < m) (hcol : col < n) :
    C.read (fillTileModulus C m n value mem) row col = value := by
  refine LoopFold.foldl_read_of_touched (I := fun _ => True) (fun mem' => C.read mem' row col)
    (fun r => r = row) (fun _ _ _ _ => trivial) ?_ ?_ ⟨row, List.mem_range.2 hrow, rfl⟩ trivial
  · rintro mem' r _ - rfl
    exact read_storeRow _ _ _ _ _ hcol
  · intro mem' r _ _ hne
    exact storeRow_of_not_mem C r n _ mem' fun h => hne (row_eq_of_mem hld hcol h)

end Rns8
