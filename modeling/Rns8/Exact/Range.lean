import Rns8.Core.Matrix
import Rns8.Core.Residue
import Rns8.Lib.DotBound
import Rns8.Lib.LoopFold

/-!
# Range proofs of exact-wide matrices

`exact_range.hpp`. An exact-wide matrix carries a bound on its magnitude and summaries of its rows
and columns; `exact_gemm_bound` derives a bound on a product from them, and the admission of a GEMM
compares it with the modulus product of the plan. `cpp_int` is the unbounded `ℤ`.

`AxisRange.Bounds` says what a summary promises of its row or column. Packing establishes it
(`nativeExactRanges_bounds`), and it makes the derived bounds sound (`exactGemmBound_sound`).
-/

namespace Rns8

open Finset

/-! ### The functions -/

/-- `exact_range_fits`. -/
def exactRangeFits (semantics : Semantics) (bound : ℤ) (product : ℕ) : Bool :=
  decide (0 ≤ bound) &&
    (if semantics = .exactWideSigned then decide (bound * 2 < product) else decide (bound < product))

/-- `tighten_exact_bound`. -/
def tightenExactBound (bound candidate : ℤ) : ℤ := if candidate < bound then candidate else bound

/-- `exact_axis_center`. -/
def exactAxisCenter (axis : AxisRange) : ℤ := (axis.minimum + axis.maximum).tdiv 2

/-- `exact_axis_deviation_max`. -/
def exactAxisDeviationMax (axis : AxisRange) (center : ℤ) : ℤ :=
  max |axis.minimum - center| |axis.maximum - center|

/-- `add_exact_native_value`. -/
def addExactNativeValue (axis : AxisRange) (value : ℤ) (first : Bool) : AxisRange where
  maxMagnitude := max axis.maxMagnitude |value|
  absoluteSum := axis.absoluteSum + |value|
  sum := axis.sum + value
  minimum := if first then value else min axis.minimum value
  maximum := if first then value else max axis.maximum value
  deviationSum := axis.deviationSum
  sumKnown := true

/-- What `native_exact_ranges` leaves in the summary of one row or column of `n` cells: both of its
scans visit the cells of an axis in ascending order. -/
def nativeExactAxis (n : ℕ) (value : ℕ → ℤ) : AxisRange :=
  let axis := (List.range n).foldl
    (fun axis i => addExactNativeValue axis (value i) (decide (i = 0))) {}
  let center := exactAxisCenter axis
  { axis with
    deviationSum := (List.range n).foldl (fun sum i => sum + |value i - center|) axis.deviationSum }

/-- `native_exact_ranges`, with `src[row * ld + col]` as a function of the cell; the second component
is `maximum`. -/
def nativeExactRanges (rows cols : ℕ) (value : ℕ → ℕ → ℤ) : MatrixRanges × ℤ :=
  let rowRanges := (List.range rows).map fun row => nativeExactAxis cols (value row)
  let colRanges := (List.range cols).map fun col => nativeExactAxis rows fun row => value row col
  (⟨rowRanges, colRanges⟩, rowRanges.foldl (fun maximum axis => max maximum axis.maxMagnitude) 0)

/-- `exact_axis_product_bound`. -/
def exactAxisProductBound (a b : AxisRange) (k : ℕ) : ℤ :=
  let bound := k * a.maxMagnitude * b.maxMagnitude
  let bound := tightenExactBound bound (a.absoluteSum * b.maxMagnitude)
  let bound := tightenExactBound bound (a.maxMagnitude * b.absoluteSum)
  if a.sumKnown && b.sumKnown then
    let ca := exactAxisCenter a
    let cb := exactAxisCenter b
    let da := exactAxisDeviationMax a ca
    let db := exactAxisDeviationMax b cb
    let remainder := k * da * db
    let remainder := tightenExactBound remainder (a.deviationSum * db)
    let remainder := tightenExactBound remainder (da * b.deviationSum)
    let centerTerm := ca * b.sum + cb * a.sum - k * ca * cb
    tightenExactBound bound (|centerTerm| + remainder)
  else bound

/-- `uniform_exact_axis`. -/
def uniformExactAxis (maximum : ℤ) (length : ℕ) : AxisRange where
  maxMagnitude := maximum
  absoluteSum := length * maximum

/-- The summary `exact_gemm_bound` accumulates for one row or column of the output. -/
def outputAxis (n : ℕ) (bound : ℕ → ℤ) : AxisRange :=
  (List.range n).foldl (fun axis i =>
    { axis with
      maxMagnitude := max axis.maxMagnitude (bound i)
      absoluteSum := axis.absoluteSum + bound i }) {}

/-- The bound of one output cell, `exact_axis_product_bound` of its row of `A` and column of `B`. -/
def exactCellBound (plan : Plan) (A B : RnsMatrix) (row col : ℕ) : ℤ :=
  let a := if A.exactAxisRanges.rows.length = plan.desc.m then A.exactAxisRanges.rows.getD row {}
    else uniformExactAxis A.exactMaxMagnitude plan.desc.k
  let b := if B.exactAxisRanges.cols.length = plan.desc.n then B.exactAxisRanges.cols.getD col {}
    else uniformExactAxis B.exactMaxMagnitude plan.desc.k
  exactAxisProductBound a b plan.desc.k

/-- `exact_gemm_bound`: `output_bound` and `output_ranges`. -/
def exactGemmBound (plan : Plan) (A B : RnsMatrix) : ℤ × MatrixRanges :=
  let outputBound := plan.desc.k * A.exactMaxMagnitude * B.exactMaxMagnitude
  if A.exactAxisRanges.rows.length = plan.desc.m ∨ B.exactAxisRanges.cols.length = plan.desc.n then
    let cell := exactCellBound plan A B
    let maximum := (List.range plan.desc.m).foldl (fun maximum row =>
      (List.range plan.desc.n).foldl (fun maximum col => max maximum (cell row col)) maximum) 0
    (tightenExactBound outputBound maximum,
      { rows := (List.range plan.desc.m).map fun row => outputAxis plan.desc.n (cell row)
        cols := (List.range plan.desc.n).map fun col => outputAxis plan.desc.m fun row => cell row col })
  else (outputBound, {})

/-- `exact_gemm_range`: the status with `output_bound` and `output_ranges`. -/
def exactGemmRange (plan : Plan) (A B : RnsMatrix) : Except Status (ℤ × MatrixRanges) :=
  if !exactWideSemantics plan.desc.semantics then .ok (0, {})
  else if A.exactRangePrefix < plan.rnsPrefix ∨ B.exactRangePrefix < plan.rnsPrefix then
    .error .rangeError
  else
    let range := exactGemmBound plan A B
    if exactRangeFits plan.desc.semantics range.1 plan.modulusProduct then .ok range
    else .error .rangeError

theorem exactGemmRange_error {plan : Plan} {A B : RnsMatrix} {status : Status}
    (h : exactGemmRange plan A B = .error status) : status ≠ .success := by
  unfold exactGemmRange at h
  split at h
  · cases h
  · split at h
    · obtain rfl := Except.error.inj h; simp
    · simp only at h
      split at h
      · cases h
      · obtain rfl := Except.error.inj h; simp

/-- `commit_exact_range`; without `ranges` the summaries are cleared. -/
def commitExactRange (matrix : RnsMatrix) (plan : Plan) (bound : ℤ) (ranges : MatrixRanges) :
    RnsMatrix :=
  if exactWideSemantics plan.desc.semantics then
    { matrix with
      exactMaxMagnitude := bound
      exactAxisRanges := ranges
      exactRangePrefix := plan.rnsPrefix }
  else matrix

@[simp] theorem commitExactRange_desc (matrix : RnsMatrix) (plan : Plan) (bound : ℤ)
    (ranges : MatrixRanges) : (commitExactRange matrix plan bound ranges).desc = matrix.desc := by
  unfold commitExactRange; split <;> rfl

@[simp] theorem commitExactRange_residues (matrix : RnsMatrix) (plan : Plan) (bound : ℤ)
    (ranges : MatrixRanges) :
    (commitExactRange matrix plan bound ranges).residues = matrix.residues := by
  unfold commitExactRange; split <;> rfl

/-! ### What a summary promises -/

/-- The promise of a summary about the `n` cells of its row or column. The minimum, the maximum, the
sum and the deviations are those of an axis whose sum is known; a summary of a GEMM output leaves
them at `0`. -/
structure AxisRange.Bounds (axis : AxisRange) (n : ℕ) (value : ℕ → ℤ) : Prop where
  nonneg : 0 ≤ axis.maxMagnitude
  magnitude : ∀ i < n, |value i| ≤ axis.maxMagnitude
  absolute : ∑ i ∈ range n, |value i| ≤ axis.absoluteSum
  known : axis.sumKnown = true →
    axis.sum = ∑ i ∈ range n, value i ∧ (∀ i < n, axis.minimum ≤ value i ∧ value i ≤ axis.maximum) ∧
      ∑ i ∈ range n, |value i - exactAxisCenter axis| ≤ axis.deviationSum

/-- The promise of the summaries of a matrix: each list is absent or has an entry for every axis. -/
structure MatrixRanges.Bounds (ranges : MatrixRanges) (rows cols : ℕ) (value : ℕ → ℕ → ℤ) : Prop where
  rows_length : ranges.rows = [] ∨ ranges.rows.length = rows
  cols_length : ranges.cols = [] ∨ ranges.cols.length = cols
  row : ∀ r < ranges.rows.length, (ranges.rows.getD r {}).Bounds cols (value r)
  col : ∀ c < ranges.cols.length, (ranges.cols.getD c {}).Bounds rows fun r => value r c

theorem tightenExactBound_eq_min (bound candidate : ℤ) :
    tightenExactBound bound candidate = min bound candidate := by
  rw [tightenExactBound]
  split <;> omega

/-- A tightened bound is sound when both bounds are. -/
theorem le_tightenExactBound {x bound candidate : ℤ} (h : x ≤ bound) (h' : x ≤ candidate) :
    x ≤ tightenExactBound bound candidate := by
  rw [tightenExactBound_eq_min]
  exact le_min h h'

theorem exactRangeFits_iff {semantics : Semantics} {bound : ℤ} {product : ℕ} :
    exactRangeFits semantics bound product = true ↔
      0 ≤ bound ∧ if semantics = .exactWideSigned then bound * 2 < product else bound < product := by
  unfold exactRangeFits
  split <;> simp

/-! ### Packing establishes the promise -/

/-- The first scan, after `n` cells. -/
private theorem addExactNative_foldl (value : ℕ → ℤ) (n : ℕ) :
    let axis := (List.range n).foldl
      (fun axis i => addExactNativeValue axis (value i) (decide (i = 0))) ({} : AxisRange)
    0 ≤ axis.maxMagnitude ∧ (∀ i < n, |value i| ≤ axis.maxMagnitude) ∧
      axis.absoluteSum = ∑ i ∈ range n, |value i| ∧ axis.sum = ∑ i ∈ range n, value i ∧
      (∀ i < n, axis.minimum ≤ value i ∧ value i ≤ axis.maximum) ∧ axis.deviationSum = 0 := by
  induction n with
  | zero => simp
  | succ n ih =>
    obtain ⟨h0, hmag, habs, hsum, hmm, hdev⟩ := ih
    rw [List.range_succ, List.foldl_append]
    set axis := (List.range n).foldl
      (fun axis i => addExactNativeValue axis (value i) (decide (i = 0))) ({} : AxisRange)
    simp only [List.foldl_cons, List.foldl_nil, addExactNativeValue, habs, hsum, hdev,
      sum_range_succ, and_true, true_and]
    refine ⟨le_max_of_le_left h0, fun i hi => ?_, fun i hi => ?_⟩
    · rcases Nat.lt_succ_iff_lt_or_eq.1 hi with hi | rfl
      · exact le_max_of_le_left (hmag i hi)
      · exact le_max_right _ _
    · rcases Nat.lt_succ_iff_lt_or_eq.1 hi with hi | rfl
      · have hn : n ≠ 0 := by omega
        have := hmm i hi
        simp only [hn, decide_false, Bool.false_eq_true, if_false]
        omega
      · split <;> omega

/-- The second scan adds up the distances. -/
private theorem deviation_foldl (value : ℕ → ℤ) (center start : ℤ) (n : ℕ) :
    (List.range n).foldl (fun sum i => sum + |value i - center|) start =
      start + ∑ i ∈ range n, |value i - center| := by
  induction n with
  | zero => simp
  | succ n ih =>
    rw [List.range_succ, List.foldl_append, ih, sum_range_succ]
    simp only [List.foldl_cons, List.foldl_nil]
    ring

theorem nativeExactAxis_bounds (n : ℕ) (value : ℕ → ℤ) :
    (nativeExactAxis n value).Bounds n value := by
  obtain ⟨h0, hmag, habs, hsum, hmm, hdev⟩ := addExactNative_foldl value n
  refine ⟨h0, hmag, habs.ge, fun _ => ⟨hsum, hmm, ?_⟩⟩
  simp only [nativeExactAxis, deviation_foldl, hdev, zero_add]
  exact le_refl _

private theorem foldl_max_bounds {α : Type} (f : α → ℤ) (l : List α) (start : ℤ) :
    start ≤ l.foldl (fun m a => max m (f a)) start ∧
      ∀ a ∈ l, f a ≤ l.foldl (fun m a => max m (f a)) start := by
  induction l generalizing start with
  | nil => simp
  | cons a l ih =>
    obtain ⟨h1, h2⟩ := ih (max start (f a))
    refine ⟨(le_max_left _ _).trans h1, fun b hb => ?_⟩
    rcases List.mem_cons.1 hb with rfl | hb
    · exact (le_max_right _ _).trans h1
    · exact h2 b hb

private theorem getD_map_range {α : Type} (f : ℕ → α) (d : α) {n i : ℕ} (hi : i < n) :
    ((List.range n).map f).getD i d = f i := by
  simp [List.getD, hi]

/-- **The summaries of a packed matrix are true**, and `maximum` bounds every value. -/
theorem nativeExactRanges_bounds (rows cols : ℕ) (value : ℕ → ℕ → ℤ) :
    (nativeExactRanges rows cols value).1.Bounds rows cols value ∧
      ∀ row < rows, ∀ col < cols, |value row col| ≤ (nativeExactRanges rows cols value).2 := by
  refine ⟨⟨?_, ?_, ?_, ?_⟩, ?_⟩
  · right; simp [nativeExactRanges]
  · right; simp [nativeExactRanges]
  · intro r hr
    have hr' : r < rows := by simpa [nativeExactRanges] using hr
    simp only [nativeExactRanges, getD_map_range _ _ hr']
    exact nativeExactAxis_bounds _ _
  · intro c hc
    have hc' : c < cols := by simpa [nativeExactRanges] using hc
    simp only [nativeExactRanges, getD_map_range _ _ hc']
    exact nativeExactAxis_bounds _ _
  · intro row hrow col hcol
    refine ((nativeExactAxis_bounds cols (value row)).magnitude col hcol).trans ?_
    exact (foldl_max_bounds AxisRange.maxMagnitude _ 0).2 _
      (List.mem_map_of_mem (List.mem_range.2 hrow))

theorem nativeExactRanges_nonneg (rows cols : ℕ) (value : ℕ → ℕ → ℤ) :
    0 ≤ (nativeExactRanges rows cols value).2 :=
  (foldl_max_bounds AxisRange.maxMagnitude _ 0).1

/-! ### The derived bounds are sound -/

theorem uniformExactAxis_bounds {maximum : ℤ} (h0 : 0 ≤ maximum) {n : ℕ} {value : ℕ → ℤ}
    (h : ∀ i < n, |value i| ≤ maximum) : (uniformExactAxis maximum n).Bounds n value where
  nonneg := h0
  magnitude := h
  absolute := by
    have := sum_le_card_nsmul (range n) (fun i => |value i|) maximum
      fun i hi => h i (mem_range.1 hi)
    simpa [uniformExactAxis] using this
  known := by intro h; cases h

/-- The distance of a cell from any center is at most the larger distance of the two ends. -/
private theorem abs_sub_le_deviationMax {axis : AxisRange} {center v : ℤ} (h : axis.minimum ≤ v)
    (h' : v ≤ axis.maximum) : |v - center| ≤ exactAxisDeviationMax axis center := by
  unfold exactAxisDeviationMax
  rw [le_max_iff]
  rcases le_total v center with hv | hv
  · left; rw [abs_of_nonpos (by omega), abs_of_nonpos (by omega)]; omega
  · right; rw [abs_of_nonneg (by omega), abs_of_nonneg (by omega)]; omega

private theorem deviationMax_nonneg (axis : AxisRange) (center : ℤ) :
    0 ≤ exactAxisDeviationMax axis center := (abs_nonneg _).trans (le_max_left _ _)

/-- **The product bound is sound** for any two axes whose summaries are true. -/
theorem exactAxisProductBound_sound {a b : AxisRange} {k : ℕ} {u v : ℕ → ℤ} (ha : a.Bounds k u)
    (hb : b.Bounds k v) : |∑ i ∈ range k, u i * v i| ≤ exactAxisProductBound a b k := by
  have hmagA : ∀ i ∈ range k, |u i| ≤ a.maxMagnitude := fun i hi => ha.magnitude i (mem_range.1 hi)
  have hmagB : ∀ i ∈ range k, |v i| ≤ b.maxMagnitude := fun i hi => hb.magnitude i (mem_range.1 hi)
  have h1 := DotBound.abs_dot_le_card_mul hmagA ha.nonneg hmagB
  rw [card_range] at h1
  have hbase : |∑ i ∈ range k, u i * v i| ≤ tightenExactBound (tightenExactBound
      (k * a.maxMagnitude * b.maxMagnitude) (a.absoluteSum * b.maxMagnitude))
      (a.maxMagnitude * b.absoluteSum) :=
    le_tightenExactBound
      (le_tightenExactBound h1 (DotBound.abs_dot_le_sum_mul hmagB hb.nonneg ha.absolute))
      (DotBound.abs_dot_le_mul_sum hmagA ha.nonneg hb.absolute)
  unfold exactAxisProductBound
  split
  · next hknown =>
    obtain ⟨hka, hkb⟩ := Bool.and_eq_true_iff.1 hknown
    obtain ⟨hsumA, hmmA, hdevA⟩ := ha.known hka
    obtain ⟨hsumB, hmmB, hdevB⟩ := hb.known hkb
    refine le_tightenExactBound hbase ?_
    have hda : ∀ i ∈ range k, |u i - exactAxisCenter a| ≤
        exactAxisDeviationMax a (exactAxisCenter a) := fun i hi =>
      abs_sub_le_deviationMax (hmmA i (mem_range.1 hi)).1 (hmmA i (mem_range.1 hi)).2
    have hdb : ∀ i ∈ range k, |v i - exactAxisCenter b| ≤
        exactAxisDeviationMax b (exactAxisCenter b) := fun i hi =>
      abs_sub_le_deviationMax (hmmB i (mem_range.1 hi)).1 (hmmB i (mem_range.1 hi)).2
    have hcard := DotBound.abs_dot_le_card_mul hda (deviationMax_nonneg _ _) hdb
    rw [card_range] at hcard
    -- the deviations of the cells, bounded three ways as the magnitudes above
    have hrem := le_tightenExactBound
      (le_tightenExactBound hcard (DotBound.abs_dot_le_sum_mul hdb (deviationMax_nonneg _ _) hdevA))
      (DotBound.abs_dot_le_mul_sum hda (deviationMax_nonneg _ _) hdevB)
    have h := DotBound.abs_dot_le_center_add hrem
    rwa [card_range, ← hsumA, ← hsumB] at h
  · exact hbase

/-- The summary of an output axis is true when its cells' bounds are. -/
theorem outputAxis_bounds {n : ℕ} {bound value : ℕ → ℤ} (h : ∀ i < n, |value i| ≤ bound i) :
    (outputAxis n bound).Bounds n value := by
  have key : ∀ m ≤ n, 0 ≤ (outputAxis m bound).maxMagnitude ∧
      (∀ i < m, |value i| ≤ (outputAxis m bound).maxMagnitude) ∧
      ∑ i ∈ range m, |value i| ≤ (outputAxis m bound).absoluteSum ∧
      (outputAxis m bound).sumKnown = false := by
    intro m hm
    induction m with
    | zero => simp [outputAxis]
    | succ m ih =>
      obtain ⟨h0, hmag, habs, hknown⟩ := ih (by omega)
      have hstep : outputAxis (m + 1) bound =
          { outputAxis m bound with
            maxMagnitude := max (outputAxis m bound).maxMagnitude (bound m)
            absoluteSum := (outputAxis m bound).absoluteSum + bound m } := by
        simp [outputAxis, List.range_succ]
      have hb := h m (by omega)
      rw [hstep, sum_range_succ]
      refine ⟨le_max_of_le_left h0, fun i hi => ?_, by simp only; omega, hknown⟩
      rcases Nat.lt_succ_iff_lt_or_eq.1 hi with hi | rfl
      · exact le_max_of_le_left (hmag i hi)
      · exact le_max_of_le_right hb
  obtain ⟨h0, hmag, habs, hknown⟩ := key n (le_refl n)
  exact ⟨h0, hmag, habs, fun hk => by rw [hknown] at hk; cases hk⟩

/-- What the exact-wide metadata of a matrix promises of its values. -/
structure ExactProof (matrix : RnsMatrix) (value : ℕ → ℕ → ℤ) : Prop where
  nonneg : 0 ≤ matrix.exactMaxMagnitude
  magnitude : ∀ r < matrix.desc.rows, ∀ c < matrix.desc.cols,
    |value r c| ≤ matrix.exactMaxMagnitude
  ranges : matrix.exactAxisRanges.Bounds matrix.desc.rows matrix.desc.cols value

/-- The exact product of two integer matrices over the inner dimension `k`. -/
def matProduct (k : ℕ) (u v : ℕ → ℕ → ℤ) (row col : ℕ) : ℤ := ∑ i ∈ range k, u row i * v i col

section Product

variable {plan : Plan} {A B : RnsMatrix} {u v : ℕ → ℕ → ℤ} (hA : ExactProof A u)
  (hB : ExactProof B v) (hAr : A.desc.rows = plan.desc.m) (hAc : A.desc.cols = plan.desc.k)
  (hBr : B.desc.rows = plan.desc.k) (hBc : B.desc.cols = plan.desc.n)
include hA hB hAr hAc hBr hBc

theorem exactCellBound_sound (row col : ℕ) (hrow : row < plan.desc.m) (hcol : col < plan.desc.n) :
    |matProduct plan.desc.k u v row col| ≤ exactCellBound plan A B row col := by
  refine exactAxisProductBound_sound (u := u row) (v := fun i => v i col) ?_ ?_
  · split
    · next hlen => rw [← hAc]; exact hA.ranges.row row (by omega)
    · exact uniformExactAxis_bounds hA.nonneg fun i hi =>
        hA.magnitude row (by omega) i (by omega)
  · split
    · next hlen => rw [← hBr]; exact hB.ranges.col col (by omega)
    · exact uniformExactAxis_bounds hB.nonneg fun i hi =>
        hB.magnitude i (by omega) col (by omega)

/-- The bound without summaries. -/
private theorem matProduct_le_maxima (row col : ℕ) (hrow : row < plan.desc.m)
    (hcol : col < plan.desc.n) : |matProduct plan.desc.k u v row col| ≤
      plan.desc.k * A.exactMaxMagnitude * B.exactMaxMagnitude := by
  have h := DotBound.abs_dot_le_card_mul (s := range plan.desc.k) (f := u row)
    (g := fun i => v i col)
    (fun i hi => hA.magnitude row (by omega) i (by rw [hAc]; exact mem_range.1 hi)) hA.nonneg
    (fun i hi => hB.magnitude i (by rw [hBr]; exact mem_range.1 hi) col (by omega))
  rwa [card_range] at h

/-- **The GEMM bound is sound**: `output_bound` bounds every cell of the exact product and
`output_ranges` summarises its rows and columns. -/
theorem exactGemmBound_sound :
    (∀ row < plan.desc.m, ∀ col < plan.desc.n,
        |matProduct plan.desc.k u v row col| ≤ (exactGemmBound plan A B).1) ∧
      (exactGemmBound plan A B).2.Bounds plan.desc.m plan.desc.n (matProduct plan.desc.k u v) := by
  have hcell := fun row hrow col hcol =>
    exactCellBound_sound hA hB hAr hAc hBr hBc row col hrow hcol
  have hbase := fun row hrow col hcol =>
    matProduct_le_maxima hA hB hAr hAc hBr hBc row col hrow hcol
  unfold exactGemmBound
  split
  · refine ⟨fun row hrow col hcol => le_tightenExactBound (hbase row hrow col hcol) ?_, ?_⟩
    · -- the maximum over the rows is at least the maximum over this row
      have hmono : ∀ (l : List ℕ) (start : ℤ), start ≤ l.foldl (fun maximum row =>
          (List.range plan.desc.n).foldl
            (fun maximum col => max maximum (exactCellBound plan A B row col)) maximum) start := by
        intro l start
        exact LoopFold.foldl_invariant (I := fun m => start ≤ m)
          (fun s _ _ hs => hs.trans (foldl_max_bounds _ _ s).1) (le_refl start)
      have hmem : ∀ (l : List ℕ) (start : ℤ), row ∈ l → exactCellBound plan A B row col ≤
          l.foldl (fun maximum row => (List.range plan.desc.n).foldl
            (fun maximum col => max maximum (exactCellBound plan A B row col)) maximum) start := by
        intro l
        induction l with
        | nil => intro _ h; cases h
        | cons r l ih =>
          intro start h
          rcases List.mem_cons.1 h with rfl | h
          · exact ((foldl_max_bounds (exactCellBound plan A B row) _ start).2 col
              (List.mem_range.2 hcol)).trans (hmono l _)
          · exact ih _ h
      exact (hcell row hrow col hcol).trans (hmem _ 0 (List.mem_range.2 hrow))
    -- each axis of the output is bounded by the cell bounds along it
    · refine ⟨Or.inr (by simp), Or.inr (by simp), fun r hr => ?_, fun c hc => ?_⟩
      · have hr' : r < plan.desc.m := by simpa using hr
        simp only [getD_map_range _ _ hr']
        exact outputAxis_bounds fun c hc => hcell r hr' c hc
      · have hc' : c < plan.desc.n := by simpa using hc
        simp only [getD_map_range _ _ hc']
        exact outputAxis_bounds fun r hr => hcell r hr c hc'
  -- without ranges of the operands only the maxima count
  · exact ⟨hbase, ⟨Or.inl rfl, Or.inl rfl, fun r hr => absurd hr (by simp),
      fun c hc => absurd hc (by simp)⟩⟩

end Product

end Rns8
