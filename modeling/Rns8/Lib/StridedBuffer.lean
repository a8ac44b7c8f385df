import Mathlib.Tactic

/-!
# Strided buffers

A row-major matrix in memory: rows of `cols` elements at a pitch of `ld` elements, of `elem` bytes
each. A byte is logical when it belongs to an element of a row; the bytes between the end of a row
and the next one are not. A copy of the whole pitch touches logical bytes only when there are no
such gaps (`within_whole_iff`), a copy row by row always (`within_row`).
-/

namespace StridedBuffer

/-- The shape of a matrix in memory. -/
structure Strided where
  rows : ℕ
  cols : ℕ
  ld : ℕ
  elem : ℕ
  deriving DecidableEq, Repr

/-- A matrix with elements and room for its rows. -/
structure Strided.Proper (l : Strided) : Prop where
  rows_pos : 0 < l.rows
  cols_pos : 0 < l.cols
  elem_pos : 0 < l.elem
  cols_le : l.cols ≤ l.ld

/-- A byte of an element of the matrix. -/
def Strided.Logical (l : Strided) (byte : ℕ) : Prop :=
  byte / l.elem / l.ld < l.rows ∧ byte / l.elem % l.ld < l.cols

/-- A block of bytes. -/
structure Span where
  offset : ℕ
  bytes : ℕ
  deriving DecidableEq, Repr

/-- Every byte of the block is logical. -/
def Span.Within (s : Span) (l : Strided) : Prop :=
  ∀ byte, s.offset ≤ byte → byte < s.offset + s.bytes → l.Logical byte

/-- The elements of one row. -/
def Strided.row (l : Strided) (r : ℕ) : Span := ⟨r * (l.ld * l.elem), l.cols * l.elem⟩

/-- The rows one by one. -/
def Strided.rowSpans (l : Strided) : List Span := (List.range l.rows).map l.row

/-- The rows with their pitch, as one block. -/
def Strided.whole (l : Strided) : Span := ⟨0, l.rows * l.ld * l.elem⟩

variable {l : Strided}

/-- The position of a byte inside a row. -/
theorem logical_of_row (h : l.Proper) {r d : ℕ} (hr : r < l.rows) (hd : d < l.cols * l.elem) :
    l.Logical (r * (l.ld * l.elem) + d) := by
  have hld : 0 < l.ld := h.cols_pos.trans_le h.cols_le
  have hcol : d / l.elem < l.cols := Nat.div_lt_of_lt_mul (by rwa [Nat.mul_comm] at hd)
  have hdiv : (r * (l.ld * l.elem) + d) / l.elem = r * l.ld + d / l.elem := by
    rw [← Nat.mul_assoc, Nat.add_comm, Nat.add_mul_div_right _ _ h.elem_pos, Nat.add_comm]
  have hlt := hcol.trans_le h.cols_le
  refine ⟨?_, ?_⟩
  · rw [hdiv, Nat.add_comm, Nat.add_mul_div_right _ _ hld, Nat.div_eq_of_lt hlt, Nat.zero_add]
    exact hr
  · rw [hdiv, Nat.add_comm, Nat.add_mul_mod_self_right, Nat.mod_eq_of_lt hlt]
    exact hcol

theorem within_row (h : l.Proper) {r : ℕ} (hr : r < l.rows) : (l.row r).Within l := by
  intro byte hlo hhi
  obtain ⟨d, rfl⟩ := Nat.exists_eq_add_of_le hlo
  exact logical_of_row h hr (by simp only [Strided.row] at hhi; omega)

/-- **Row by row** touches logical bytes only. -/
theorem within_rowSpans (h : l.Proper) {s : Span} (hs : s ∈ l.rowSpans) : s.Within l := by
  obtain ⟨r, hr, rfl⟩ := List.mem_map.mp hs
  exact within_row h (List.mem_range.mp hr)

/-- Without gaps every byte of the pitch is logical. -/
theorem within_whole_of_compact (h : l.Proper) (hld : l.ld = l.cols) : l.whole.Within l := by
  intro byte _ hhi
  have hcols := h.cols_pos
  have hidx : byte / l.elem < l.rows * l.cols := by
    refine Nat.div_lt_of_lt_mul ?_
    simp only [Strided.whole, hld, Nat.zero_add] at hhi
    rwa [Nat.mul_comm] at hhi
  refine ⟨?_, ?_⟩
  · rw [hld]
    exact Nat.div_lt_of_lt_mul (by rwa [Nat.mul_comm] at hidx)
  · rw [hld]
    exact Nat.mod_lt _ hcols

/-- **The whole pitch** is logical exactly when the rows have no gap. -/
theorem within_whole_iff (h : l.Proper) : l.whole.Within l ↔ l.ld = l.cols := by
  refine ⟨fun hw => ?_, within_whole_of_compact h⟩
  by_contra hne
  have hld : l.cols < l.ld := lt_of_le_of_ne h.cols_le (Ne.symm hne)
  -- the first byte after the first row
  have hbyte : l.cols * l.elem < l.rows * l.ld * l.elem := by
    refine Nat.mul_lt_mul_of_pos_right ?_ h.elem_pos
    exact hld.trans_le (Nat.le_mul_of_pos_left _ h.rows_pos)
  have hlog := (hw (l.cols * l.elem) (Nat.zero_le _) (by simp only [Strided.whole]; omega)).2
  rw [Nat.mul_div_cancel _ h.elem_pos, Nat.mod_eq_of_lt hld] at hlog
  exact lt_irrefl _ hlog

end StridedBuffer
