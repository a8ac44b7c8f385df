import Mathlib.Tactic

/-!
# Cutting an axis into intervals

An axis of `total` positions cut into `count` consecutive nonempty intervals. `AxisCut` is the cut as
two tables, of the starts and of the lengths; `AxisCut.existsUnique` is that the intervals partition
the axis.
-/

/-- Two tables that cut the positions below `total` into consecutive nonempty intervals. -/
structure AxisCut (offset extent : ℕ → ℕ) (count total : ℕ) : Prop where
  start : ∀ i < count, offset i = ∑ j ∈ Finset.range i, extent j
  pos : ∀ i < count, 0 < extent i
  total : ∑ j ∈ Finset.range count, extent j = total

namespace AxisCut

variable {offset extent : ℕ → ℕ} {count total x : ℕ}

/-- Tables that agree below the count cut the same way. -/
theorem congr {offset' extent' : ℕ → ℕ} (h : AxisCut offset extent count total)
    (hsame : ∀ i < count, offset' i = offset i ∧ extent' i = extent i) :
    AxisCut offset' extent' count total := by
  have hsum : ∀ n ≤ count, ∑ j ∈ Finset.range n, extent' j = ∑ j ∈ Finset.range n, extent j :=
    fun n hn => Finset.sum_congr rfl fun j hj => (hsame j (by
      have := Finset.mem_range.1 hj
      omega)).2
  refine ⟨fun i hi => ?_, fun i hi => ?_, ?_⟩
  · rw [(hsame i hi).1, hsum i hi.le, h.start i hi]
  · rw [(hsame i hi).2]
    exact h.pos i hi
  · rw [hsum count le_rfl, h.total]

/-- The end of an interval lies within the axis. -/
theorem add_le (h : AxisCut offset extent count total) {i : ℕ} (hi : i < count) :
    offset i + extent i ≤ total := by
  rw [h.start i hi, ← Finset.sum_range_succ, ← h.total]
  exact Finset.sum_le_sum_of_subset (Finset.range_mono hi)

/-- An interval lies before every later one. -/
theorem add_le_offset (h : AxisCut offset extent count total) {i j : ℕ} (hij : i < j)
    (hj : j < count) : offset i + extent i ≤ offset j := by
  rw [h.start i (hij.trans hj), h.start j hj, ← Finset.sum_range_succ]
  exact Finset.sum_le_sum_of_subset (Finset.range_mono hij)

/-- A position below a sum of lengths lies in one of the intervals. -/
private theorem exists_interval (extent : ℕ → ℕ) {n : ℕ} (hx : x < ∑ j ∈ Finset.range n, extent j) :
    ∃ i < n, ∑ j ∈ Finset.range i, extent j ≤ x ∧
      x < ∑ j ∈ Finset.range i, extent j + extent i := by
  induction n with
  | zero => simp at hx
  | succ n ih =>
    rcases Nat.lt_or_ge x (∑ j ∈ Finset.range n, extent j) with hlt | hge
    · obtain ⟨i, hi, h⟩ := ih hlt
      exact ⟨i, by omega, h⟩
    · exact ⟨n, Nat.lt_succ_self n, hge, by rwa [Finset.sum_range_succ] at hx⟩

/-- **The intervals partition the axis.** -/
theorem existsUnique (h : AxisCut offset extent count total) (hx : x < total) :
    ∃! i, i < count ∧ offset i ≤ x ∧ x < offset i + extent i := by
  rw [← h.total] at hx
  obtain ⟨i, hi, hlo, hhi⟩ := exists_interval extent hx
  refine ⟨i, ⟨hi, by rw [h.start i hi]; exact hlo, by rw [h.start i hi]; exact hhi⟩, ?_⟩
  rintro j ⟨hj, hlo', hhi'⟩
  rw [← h.start i hi] at hlo hhi
  rcases Nat.lt_trichotomy j i with hlt | heq | hgt
  · have := h.add_le_offset hlt hi
    omega
  · exact heq
  · have := h.add_le_offset hgt hj
    omega

/-- The regular cut: intervals of length `t`, the last one clipped. -/
theorem regular {t n : ℕ} (ht : 0 < t) :
    AxisCut (fun i => i * t) (fun i => min t (n - i * t)) ((n + t - 1) / t) n := by
  have hsum : ∀ i, ∑ j ∈ Finset.range i, min t (n - j * t) = min (i * t) n := by
    intro i
    induction i with
    | zero => simp
    | succ i ih =>
      rw [Finset.sum_range_succ, ih, Nat.succ_mul]
      omega
  have hlt : ∀ i < (n + t - 1) / t, i * t < n := by
    intro i hi
    rw [Nat.lt_iff_add_one_le, Nat.le_div_iff_mul_le ht, Nat.add_mul] at hi
    omega
  refine ⟨fun i hi => ?_, fun i hi => ?_, ?_⟩
  · have := hlt i hi
    rw [hsum]
    omega
  · have := hlt i hi
    omega
  · rw [hsum]
    have hdiv := Nat.div_add_mod (n + t - 1) t
    have hmod := Nat.mod_lt (n + t - 1) ht
    rw [Nat.mul_comm] at hdiv
    omega

end AxisCut
