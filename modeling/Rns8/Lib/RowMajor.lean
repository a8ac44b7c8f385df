import Mathlib.Tactic

/-!
# Row-major offsets

A position `(q, r)` with `r < n` has offset `q * n + r`, and a position `(p, i, j)` of a stack of
`m × n` planes has offset `(p * m + i) * n + j`. Both maps are injective on the positions in range
and stay below the number of cells.
-/

namespace RowMajor

/-- A position is recovered from its row-major offset. -/
theorem offset_parts (q : ℕ) {n r : ℕ} (hr : r < n) : (q * n + r) / n = q ∧ (q * n + r) % n = r := by
  have hn : 0 < n := by omega
  constructor
  · rw [Nat.mul_comm, Nat.mul_add_div hn, Nat.div_eq_of_lt hr, Nat.add_zero]
  · rw [Nat.mul_comm, Nat.mul_add_mod, Nat.mod_eq_of_lt hr]

/-- Two-dimensional row-major offsets determine their position. -/
theorem eq_of_offset_eq {n q r q' r' : ℕ} (hr : r < n) (hr' : r' < n)
    (h : q * n + r = q' * n + r') : q = q' ∧ r = r' := by
  obtain ⟨hq, hmod⟩ := offset_parts q hr
  rw [h] at hq hmod
  obtain ⟨hq', hmod'⟩ := offset_parts q' hr'
  exact ⟨hq.symm.trans hq', hmod.symm.trans hmod'⟩

/-- A two-dimensional row-major offset is below the number of cells. -/
theorem offset_lt {n q r m : ℕ} (hr : r < n) (hq : q < m) : q * n + r < m * n := by
  calc q * n + r < q * n + n := by omega
    _ = (q + 1) * n := by rw [Nat.succ_mul]
    _ ≤ m * n := Nat.mul_le_mul_right _ hq

/-- Offsets in a stack of planes determine their position. -/
theorem eq_of_plane_offset_eq {m n p i j p' i' j' : ℕ} (hi : i < m) (hj : j < n) (hi' : i' < m)
    (hj' : j' < n) (h : (p * m + i) * n + j = (p' * m + i') * n + j') :
    p = p' ∧ i = i' ∧ j = j' := by
  obtain ⟨hpi, rfl⟩ := eq_of_offset_eq hj hj' h
  obtain ⟨rfl, rfl⟩ := eq_of_offset_eq hi hi' hpi
  exact ⟨rfl, rfl, rfl⟩

/-- The offset in a stack of planes, with the plane's base split off. -/
theorem plane_offset_eq (m n p i j : ℕ) : (p * m + i) * n + j = p * (m * n) + i * n + j := by
  ring

/-- The position is recovered from its offset in a stack of planes. -/
theorem plane_offset_parts {m n p i j : ℕ} (hi : i < m) (hj : j < n) :
    ((p * m + i) * n + j) / n / m = p ∧ ((p * m + i) * n + j) / n % m = i ∧
      ((p * m + i) * n + j) % n = j := by
  have hn : ((p * m + i) * n + j) / n = p * m + i := by
    rw [Nat.mul_comm, Nat.mul_add_div (by omega), Nat.div_eq_of_lt hj, Nat.add_zero]
  have hm : (p * m + i) / m = p := by
    rw [Nat.mul_comm, Nat.mul_add_div (by omega), Nat.div_eq_of_lt hi, Nat.add_zero]
  refine ⟨by rw [hn, hm], ?_, ?_⟩
  · rw [hn, Nat.mul_comm, Nat.mul_add_mod, Nat.mod_eq_of_lt hi]
  · rw [Nat.mul_comm, Nat.mul_add_mod, Nat.mod_eq_of_lt hj]

/-- The tile of width `t` that an index falls in is one of the `⌈n / t⌉` tiles, contains the index
and ends within the range. -/
theorem mem_tile {t n j : ℕ} (ht : 0 < t) (hj : j < n) :
    j / t < (n + t - 1) / t ∧ j / t * t ≤ j ∧ j < j / t * t + min t (n - j / t * t) := by
  have hdiv := Nat.div_add_mod j t
  have hmod := Nat.mod_lt j ht
  rw [Nat.mul_comm] at hdiv
  refine ⟨?_, by omega, by omega⟩
  rw [Nat.lt_iff_add_one_le, Nat.le_div_iff_mul_le ht, Nat.add_mul]
  omega

/-- Only one tile contains an index. -/
theorem eq_div_of_mem_tile {t i j w : ℕ} (ht : 0 < t) (hw : w ≤ t) (hlo : i * t ≤ j)
    (hhi : j < i * t + w) : i = j / t := by
  symm
  rw [Nat.div_eq_iff ht]
  omega

/-- Every one of the `⌈m / t⌉` tiles starts inside the range. -/
theorem tile_start_lt {t m i : ℕ} (ht : 0 < t) (hi : i < (m + t - 1) / t) : i * t < m := by
  rw [Nat.lt_iff_add_one_le, Nat.le_div_iff_mul_le ht, Nat.add_mul] at hi
  omega

/-- A row-major index below `rows * cols` has its row below `rows` and its column below `cols`. -/
theorem div_mod_lt {rows cols index : ℕ} (h : index < rows * cols) :
    index / cols < rows ∧ index % cols < cols := by
  have hc : 0 < cols := Nat.pos_of_ne_zero fun h0 => by simp [h0] at h
  exact ⟨(Nat.div_lt_iff_lt_mul hc).2 h, Nat.mod_lt _ hc⟩

end RowMajor
