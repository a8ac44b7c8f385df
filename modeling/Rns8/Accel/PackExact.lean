import Rns8.Accel.PackIndices
import Rns8.Hip.LaunchExact

/-!
# Exactness of the CK and rocWMMA index arithmetic

The copies of the CK backend number the cells of a padded buffer with one `int`, so they need its
element count to be an `int`; the kernels of the rocWMMA backend form their offsets from a row and a
column. The last cell of each copy decides.
-/

namespace Rns8

open IndexArith

/-! ### Padding -/

theorem le_roundUp (value : ℕ) {alignment : ℕ} (h : 0 < alignment) : value ≤ roundUp value alignment := by
  have := Nat.mod_lt value h
  unfold roundUp
  split <;> omega

/-! ### The launchers of the CK copies -/

theorem launchIndices_int (rows cols : ℕ) : (launchIndices rows cols : List ℤ) =
    [((rows * cols : ℕ) : ℤ), ((rows * cols + 255 : ℕ) : ℤ),
      (((rows * cols + 255) / 256 : ℕ) : ℤ)] := by
  have hsum : (rows : ℤ) * cols + 256 - 1 = ((rows * cols + 255 : ℕ) : ℤ) := by
    push_cast
    ring
  simp only [launchIndices, lit_int, quot_int, hsum]
  rfl

/-- The values of a launcher fit when the rounded element count does. -/
theorem launchIndices_exact_iff (rows cols : ℕ) :
    Exact (fun _ => launchIndices rows cols) ↔ rows * cols + 255 ≤ 2147483647 := by
  constructor
  · intro h
    exact fits_natCast.mp (h.fits ((rows * cols + 255 : ℕ) : ℤ) (by simp [launchIndices_int]))
  · intro h
    refine (exact_iff_fits ?_).mpr ?_
    · have hsum : Int32.ofInt ((rows * cols : ℕ) : ℤ) + Int32.ofInt 256 - Int32.ofInt 1 =
          Int32.ofInt ((rows * cols + 255 : ℕ) : ℤ) := by
        rw [← Int32.ofInt_add, ← Int32.ofInt_sub,
          show ((rows * cols : ℕ) : ℤ) + 256 - 1 = ((rows * cols + 255 : ℕ) : ℤ) by omega]
      have hquot : quot (Int32.ofInt ((rows * cols + 255 : ℕ) : ℤ)) (Int32.ofInt 256) =
          Int32.ofInt (((rows * cols + 255) / 256 : ℕ) : ℤ) := quot_ofInt_nat (b := 256) h (by omega)
      rw [launchIndices_int]
      simp only [launchIndices, lit_int32, ofInt_mul_nat, hsum, hquot, List.map_cons, List.map_nil]
    · intro z hz
      simp only [launchIndices_int, List.mem_cons, List.not_mem_nil, or_false] at hz
      rcases hz with rfl | rfl | rfl <;> exact fits_natCast.mpr (by omega)

/-- The thread of a cell. -/
theorem thread_of_index {index total : ℕ} (h : index < total) :
    index / 256 < (total + 255) / 256 ∧ index % 256 < 256 ∧ index / 256 * 256 + index % 256 = index := by
  omega

/-- Threads of a launch whose rounded element count fits. -/
theorem thread_le {total blockX threadX : ℕ} (hblock : blockX < (total + 255) / 256)
    (hthread : threadX < 256) (h : total + 255 ≤ 2147483647) : blockX * 256 + threadX ≤ 2147483647 := by
  omega

/-! ### The CK copies -/

section Copies

variable {rows paddedRows validK gemmK lda kOffset n paddedN ldb : ℕ}

theorem ckPackAIndices_int (rows paddedRows validK gemmK lda kOffset : ℕ) {blockX threadX index : ℕ}
    (hindex : blockX * 256 + threadX = index) :
    (ckPackAIndices rows paddedRows validK gemmK lda kOffset blockX threadX : List ℤ) =
      [(index : ℤ), ((paddedRows * gemmK : ℕ) : ℤ)] ++
        guarded (decide (index < paddedRows * gemmK))
          ([((index / gemmK : ℕ) : ℤ), ((index % gemmK : ℕ) : ℤ), (index : ℤ)] ++
            guarded (decide (index / gemmK < rows) && decide (index % gemmK < validK))
              [((index / gemmK * lda + kOffset + index % gemmK : ℕ) : ℤ)]) := by
  have hquot : (index : ℤ).tdiv gemmK = ((index / gemmK : ℕ) : ℤ) := rfl
  simp only [ckPackAIndices, threadIndex, lit_int, quot_int, less_int, hindex, hquot, sub_div_mul]
  simp only [← Nat.cast_mul, ← Nat.cast_add, Nat.cast_lt, Nat.div_add_mod']

theorem ckPackAIndices_int32 {blockX threadX : ℕ} (hindex : blockX * 256 + threadX ≤ 2147483647)
    (htotal : paddedRows * gemmK ≤ 2147483647) (hgemmK : gemmK ≤ 2147483647)
    (hrows : rows ≤ 2147483647) (hvalid : validK ≤ 2147483647) :
    (ckPackAIndices rows paddedRows validK gemmK lda kOffset blockX threadX : List Int32) =
      (ckPackAIndices rows paddedRows validK gemmK lda kOffset blockX threadX).map Int32.ofInt := by
  have hrow : (blockX * 256 + threadX) / gemmK ≤ 2147483647 := (Nat.div_le_self _ _).trans hindex
  have hkk : (blockX * 256 + threadX) % gemmK ≤ 2147483647 := (Nat.mod_le _ _).trans hindex
  rw [ckPackAIndices_int _ _ _ _ _ _ rfl]
  simp only [ckPackAIndices, threadIndex, lit_int32, quot_ofInt_nat hindex hgemmK, ofInt_mul_nat,
    ofInt_sub_div_mul, ofInt_add_nat, less_ofInt_nat hindex htotal, less_ofInt_nat hrow hrows,
    less_ofInt_nat hkk hvalid, Nat.div_add_mod', List.map_append, List.map_cons, List.map_nil,
    map_guarded]

/-- **The copy of `A`.** -/
theorem ckPackA_exact_iff (hrows : 0 < rows) (hpad : rows ≤ paddedRows) (hvalid : 0 < validK)
    (hgemm : validK ≤ gemmK) (hg : gemmK ≤ 2147483647) (hr : rows ≤ 2147483647) :
    (Exact (fun _ => launchIndices paddedRows gemmK) ∧
      ∀ blockX < (paddedRows * gemmK + 255) / 256, ∀ threadX < 256, Exact fun _ =>
        ckPackAIndices rows paddedRows validK gemmK lda kOffset blockX threadX) ↔
    paddedRows * gemmK + 255 ≤ 2147483647 ∧
      (rows - 1) * lda + (kOffset + (validK - 1)) ≤ 2147483647 := by
  rw [launchIndices_exact_iff]
  refine and_congr_right fun htotal => ?_
  constructor
  · intro h
    -- the thread of the last element of the block
    have hlt : (rows - 1) * gemmK + (validK - 1) < paddedRows * gemmK := by
      have hmul := Nat.mul_le_mul_right gemmK (show rows - 1 + 1 ≤ paddedRows by omega)
      rw [Nat.add_mul] at hmul
      omega
    obtain ⟨hb, ht, hindex⟩ := thread_of_index hlt
    have hdiv : ((rows - 1) * gemmK + (validK - 1)) / gemmK = rows - 1 := by
      rw [Nat.add_comm, Nat.add_mul_div_right _ _ (by omega), Nat.div_eq_of_lt (by omega), Nat.zero_add]
    have hmod : ((rows - 1) * gemmK + (validK - 1)) % gemmK = validK - 1 := by
      rw [Nat.add_comm, Nat.add_mul_mod_self_right, Nat.mod_eq_of_lt (by omega)]
    have hfit := (h _ hb _ ht).fits
    rw [ckPackAIndices_int _ _ _ _ _ _ hindex, hdiv, hmod] at hfit
    have hz := hfit (((rows - 1) * lda + kOffset + (validK - 1) : ℕ) : ℤ) (by
      simp only [List.mem_append, mem_guarded, Bool.and_eq_true, decide_eq_true_eq]
      exact Or.inr ⟨hlt, Or.inr ⟨⟨by omega, by omega⟩, by simp⟩⟩)
    have := fits_natCast.mp hz
    omega
  -- every other element lies below it
  · intro hlast blockX hblock threadX hthread
    have hindex := thread_le hblock hthread htotal
    refine (exact_iff_fits (ckPackAIndices_int32 hindex (by omega) hg hr (by omega))).mpr
      fun z hz => ?_
    rw [ckPackAIndices_int _ _ _ _ _ _ rfl] at hz
    simp only [List.mem_append, List.mem_cons, List.not_mem_nil, or_false, mem_guarded,
      Bool.and_eq_true, decide_eq_true_eq] at hz
    rcases hz with (rfl | rfl) | ⟨-, (rfl | rfl | rfl) | ⟨⟨hr, hk⟩, rfl⟩⟩
    · exact fits_natCast.mpr hindex
    · exact fits_natCast.mpr (by omega)
    · exact fits_natCast.mpr ((Nat.div_le_self _ _).trans hindex)
    · exact fits_natCast.mpr ((Nat.mod_le _ _).trans hindex)
    · exact fits_natCast.mpr hindex
    · have hmul := Nat.mul_le_mul_right lda
        (show (blockX * 256 + threadX) / gemmK ≤ rows - 1 by omega)
      exact fits_natCast.mpr (by omega)

theorem ckPackBIndices_int (validK gemmK n paddedN ldb kOffset : ℕ) {blockX threadX index : ℕ}
    (hindex : blockX * 256 + threadX = index) :
    (ckPackBIndices validK gemmK n paddedN ldb kOffset blockX threadX : List ℤ) =
      [(index : ℤ), ((gemmK * paddedN : ℕ) : ℤ)] ++
        guarded (decide (index < gemmK * paddedN))
          ([((index % gemmK : ℕ) : ℤ), ((index / gemmK : ℕ) : ℤ), (index : ℤ)] ++
            guarded (decide (index / gemmK < n) && decide (index % gemmK < validK))
              [(((kOffset + index % gemmK) * ldb + index / gemmK : ℕ) : ℤ)]) := by
  have hquot : (index : ℤ).tdiv gemmK = ((index / gemmK : ℕ) : ℤ) := rfl
  have hrem : (index : ℤ).tmod gemmK = ((index % gemmK : ℕ) : ℤ) := rfl
  simp only [ckPackBIndices, threadIndex, lit_int, quot_int, rem_int, less_int, hindex, hquot, hrem]
  simp only [← Nat.cast_mul, ← Nat.cast_add, Nat.cast_lt, Nat.div_add_mod']

theorem ckPackBIndices_int32 {blockX threadX : ℕ} (hindex : blockX * 256 + threadX ≤ 2147483647)
    (htotal : gemmK * paddedN ≤ 2147483647) (hgemmK : gemmK ≤ 2147483647)
    (hn : n ≤ 2147483647) (hvalid : validK ≤ 2147483647) :
    (ckPackBIndices validK gemmK n paddedN ldb kOffset blockX threadX : List Int32) =
      (ckPackBIndices validK gemmK n paddedN ldb kOffset blockX threadX).map Int32.ofInt := by
  have hcol : (blockX * 256 + threadX) / gemmK ≤ 2147483647 := (Nat.div_le_self _ _).trans hindex
  have hkk : (blockX * 256 + threadX) % gemmK ≤ 2147483647 := (Nat.mod_le _ _).trans hindex
  rw [ckPackBIndices_int _ _ _ _ _ _ rfl]
  simp only [ckPackBIndices, threadIndex, lit_int32, quot_ofInt_nat hindex hgemmK,
    rem_ofInt_nat hindex hgemmK, ofInt_mul_nat, ofInt_add_nat, less_ofInt_nat hindex htotal,
    less_ofInt_nat hcol hn, less_ofInt_nat hkk hvalid, Nat.div_add_mod', List.map_append,
    List.map_cons, List.map_nil, map_guarded]

/-- **The copy of `B`.** -/
theorem ckPackB_exact_iff (hn : 0 < n) (hpad : n ≤ paddedN) (hvalid : 0 < validK)
    (hgemm : validK ≤ gemmK) (hg : gemmK ≤ 2147483647) (hc : n ≤ 2147483647) :
    (Exact (fun _ => launchIndices gemmK paddedN) ∧
      ∀ blockX < (gemmK * paddedN + 255) / 256, ∀ threadX < 256, Exact fun _ =>
        ckPackBIndices validK gemmK n paddedN ldb kOffset blockX threadX) ↔
    gemmK * paddedN + 255 ≤ 2147483647 ∧
      (kOffset + (validK - 1)) * ldb + (n - 1) ≤ 2147483647 := by
  rw [launchIndices_exact_iff]
  refine and_congr_right fun htotal => ?_
  constructor
  · intro h
    -- the thread of the last element of the block
    have hlt : (n - 1) * gemmK + (validK - 1) < gemmK * paddedN := by
      have hmul := Nat.mul_le_mul_right gemmK (show n - 1 + 1 ≤ paddedN by omega)
      rw [Nat.add_mul, Nat.mul_comm paddedN] at hmul
      omega
    obtain ⟨hb, ht, hindex⟩ := thread_of_index hlt
    have hdiv : ((n - 1) * gemmK + (validK - 1)) / gemmK = n - 1 := by
      rw [Nat.add_comm, Nat.add_mul_div_right _ _ (by omega), Nat.div_eq_of_lt (by omega), Nat.zero_add]
    have hmod : ((n - 1) * gemmK + (validK - 1)) % gemmK = validK - 1 := by
      rw [Nat.add_comm, Nat.add_mul_mod_self_right, Nat.mod_eq_of_lt (by omega)]
    have hfit := (h _ hb _ ht).fits
    rw [ckPackBIndices_int _ _ _ _ _ _ hindex, hdiv, hmod] at hfit
    have hz := hfit (((kOffset + (validK - 1)) * ldb + (n - 1) : ℕ) : ℤ) (by
      simp only [List.mem_append, mem_guarded, Bool.and_eq_true, decide_eq_true_eq]
      exact Or.inr ⟨hlt, Or.inr ⟨⟨by omega, by omega⟩, by simp⟩⟩)
    exact fits_natCast.mp hz
  -- every other element lies below it
  · intro hlast blockX hblock threadX hthread
    have hindex := thread_le hblock hthread htotal
    refine (exact_iff_fits (ckPackBIndices_int32 hindex (by omega) hg hc (by omega))).mpr
      fun z hz => ?_
    rw [ckPackBIndices_int _ _ _ _ _ _ rfl] at hz
    simp only [List.mem_append, List.mem_cons, List.not_mem_nil, or_false, mem_guarded,
      Bool.and_eq_true, decide_eq_true_eq] at hz
    rcases hz with (rfl | rfl) | ⟨-, (rfl | rfl | rfl) | ⟨⟨hc', hk⟩, rfl⟩⟩
    · exact fits_natCast.mpr hindex
    · exact fits_natCast.mpr (by omega)
    · exact fits_natCast.mpr ((Nat.mod_le _ _).trans hindex)
    · exact fits_natCast.mpr ((Nat.div_le_self _ _).trans hindex)
    · exact fits_natCast.mpr hindex
    · have hmul := Nat.mul_le_mul_right ldb
        (show kOffset + (blockX * 256 + threadX) % gemmK ≤ kOffset + (validK - 1) by omega)
      exact fits_natCast.mpr (by omega)

theorem ckCopyIndices_int (rows cols srcLd dstLd : ℕ) {blockX threadX index : ℕ}
    (hindex : blockX * 256 + threadX = index) :
    (ckCopyIndices rows cols srcLd dstLd blockX threadX : List ℤ) =
      [(index : ℤ), ((rows * cols : ℕ) : ℤ)] ++
        guarded (decide (index < rows * cols))
          [((index / cols : ℕ) : ℤ), ((index % cols : ℕ) : ℤ),
            ((index / cols * dstLd + index % cols : ℕ) : ℤ),
            ((index / cols * srcLd + index % cols : ℕ) : ℤ)] := by
  have hquot : (index : ℤ).tdiv cols = ((index / cols : ℕ) : ℤ) := rfl
  simp only [ckCopyIndices, threadIndex, lit_int, quot_int, less_int, hindex, hquot, sub_div_mul]
  simp only [← Nat.cast_mul, ← Nat.cast_add, Nat.cast_lt]

theorem ckCopyIndices_int32 {cols srcLd dstLd blockX threadX : ℕ}
    (hindex : blockX * 256 + threadX ≤ 2147483647) (htotal : rows * cols ≤ 2147483647)
    (hcols : cols ≤ 2147483647) :
    (ckCopyIndices rows cols srcLd dstLd blockX threadX : List Int32) =
      (ckCopyIndices rows cols srcLd dstLd blockX threadX).map Int32.ofInt := by
  rw [ckCopyIndices_int _ _ _ _ rfl]
  simp only [ckCopyIndices, threadIndex, lit_int32, quot_ofInt_nat hindex hcols, ofInt_mul_nat,
    ofInt_sub_div_mul, ofInt_add_nat, less_ofInt_nat hindex htotal, List.map_append, List.map_cons,
    List.map_nil, map_guarded]

/-- **The copy of a padded output.** -/
theorem ckCopy_exact_iff {cols srcLd dstLd : ℕ} (hrows : 0 < rows) (hcols : 0 < cols)
    (hc : cols ≤ 2147483647) :
    (Exact (fun _ => launchIndices rows cols) ∧
      ∀ blockX < (rows * cols + 255) / 256, ∀ threadX < 256, Exact fun _ =>
        ckCopyIndices rows cols srcLd dstLd blockX threadX) ↔
    rows * cols + 255 ≤ 2147483647 ∧ (rows - 1) * dstLd + (cols - 1) ≤ 2147483647 ∧
      (rows - 1) * srcLd + (cols - 1) ≤ 2147483647 := by
  rw [launchIndices_exact_iff]
  refine and_congr_right fun htotal => ?_
  constructor
  · intro h
    -- the thread of the last element forms both offsets
    have hlt : (rows - 1) * cols + (cols - 1) < rows * cols := by
      have hmul := Nat.mul_le_mul_right cols (show rows - 1 + 1 ≤ rows by omega)
      rw [Nat.add_mul] at hmul
      omega
    obtain ⟨hb, ht, hindex⟩ := thread_of_index hlt
    have hdiv : ((rows - 1) * cols + (cols - 1)) / cols = rows - 1 := by
      rw [Nat.add_comm, Nat.add_mul_div_right _ _ hcols, Nat.div_eq_of_lt (by omega), Nat.zero_add]
    have hmod : ((rows - 1) * cols + (cols - 1)) % cols = cols - 1 := by
      rw [Nat.add_comm, Nat.add_mul_mod_self_right, Nat.mod_eq_of_lt (by omega)]
    have hfit := (h _ hb _ ht).fits
    rw [ckCopyIndices_int _ _ _ _ hindex, hdiv, hmod] at hfit
    simp only [List.mem_append, mem_guarded, decide_eq_true_eq] at hfit
    have hdst := hfit (((rows - 1) * dstLd + (cols - 1) : ℕ) : ℤ) (Or.inr ⟨hlt, by simp⟩)
    have hsrc := hfit (((rows - 1) * srcLd + (cols - 1) : ℕ) : ℤ) (Or.inr ⟨hlt, by simp⟩)
    exact ⟨fits_natCast.mp hdst, fits_natCast.mp hsrc⟩
  -- every other element lies below it
  · rintro ⟨hdst, hsrc⟩ blockX hblock threadX hthread
    have hindex := thread_le hblock hthread htotal
    refine (exact_iff_fits (ckCopyIndices_int32 hindex (by omega) hc)).mpr fun z hz => ?_
    rw [ckCopyIndices_int _ _ _ _ rfl] at hz
    simp only [List.mem_append, List.mem_cons, List.not_mem_nil, or_false, mem_guarded,
      decide_eq_true_eq] at hz
    rcases hz with (rfl | rfl) | ⟨hlt, hz⟩
    · exact fits_natCast.mpr hindex
    · exact fits_natCast.mpr (by omega)
    -- the element has its row below `rows` and its column below `cols`
    · have hr : (blockX * 256 + threadX) / cols ≤ rows - 1 := by
        have := Nat.div_lt_of_lt_mul (Nat.mul_comm rows _ ▸ hlt)
        omega
      have hk : (blockX * 256 + threadX) % cols ≤ cols - 1 := by
        have := Nat.mod_lt (blockX * 256 + threadX) hcols
        omega
      have hdst' := Nat.mul_le_mul_right dstLd hr
      have hsrc' := Nat.mul_le_mul_right srcLd hr
      rcases hz with rfl | rfl | rfl | rfl
      · exact fits_natCast.mpr ((Nat.div_le_self _ _).trans hindex)
      · exact fits_natCast.mpr ((Nat.mod_le _ _).trans hindex)
      · exact fits_natCast.mpr (by omega)
      · exact fits_natCast.mpr (by omega)

end Copies

/-! ### Composable Kernel -/

/-- When the indices of a CK GEMM fit: the padded buffers of the first pass, which is the largest, the
last elements of `A` and `B`, and, when the output goes through the workspace, its element count, its
last element and the last element of `C`. -/
def ckFits (alignment : ℕ) (s : GemmShape) : Prop :=
  let gemmM := roundUp s.m alignment
  let gemmN := roundUp s.n alignment
  gemmM * ckGemmK s.k 0 + 255 ≤ 2147483647 ∧ ckGemmK s.k 0 * gemmN + 255 ≤ 2147483647 ∧
    (s.m - 1) * s.lda + (s.k - 1) ≤ 2147483647 ∧ (s.k - 1) * s.ldb + (s.n - 1) ≤ 2147483647 ∧
    ((gemmM ≠ s.m ∨ gemmN ≠ s.n ∨ ckSafeKBlock < s.k) →
      s.m * s.n + 255 ≤ 2147483647 ∧ (s.m - 1) * s.ldc + (s.n - 1) ≤ 2147483647 ∧
        (s.m - 1) * gemmN + (s.n - 1) ≤ 2147483647)

/-- The scalars of a pass are exact. -/
theorem ckScalars_exact {k i gemmM gemmN : ℕ} (hk : k ≤ 2147483647) (hi : i < ckLaunches k)
    (hm : gemmM ≤ 2147483647) (hn : gemmN ≤ 2147483647) :
    Exact (fun _ => [lit gemmM, lit gemmN, lit (i * ckSafeKBlock : ℕ), lit (ckValidK k i),
      lit (ckGemmK k i)]) := by
  have hbelow : i * ckSafeKBlock ≤ 2147483647 := by
    unfold ckLaunches ckSafeKBlock at hi
    unfold ckSafeKBlock
    omega
  have hvalid : ckValidK k i ≤ 32768 := by
    unfold ckValidK ckSafeKBlock
    split <;> omega
  have hgemm : ckGemmK k i ≤ 32768 := by
    unfold ckGemmK
    split <;> omega
  refine (exact_iff_fits rfl).mpr fun z hz => ?_
  simp only [lit_int, List.mem_cons, List.not_mem_nil, or_false] at hz
  rcases hz with rfl | rfl | rfl | rfl | rfl <;> exact fits_natCast.mpr (by omega)

/-- **Composable Kernel.** A CK GEMM whose padded dimensions are accepted is exact exactly when the
largest values of its passes are at most `INT_MAX`. -/
theorem ckExact_iff {alignment : ℕ} (ha : 0 < alignment) {s : GemmShape} (h : s.Valid)
    (hm : roundUp s.m alignment ≤ 2147483647) (hn : roundUp s.n alignment ≤ 2147483647) :
    ckExact alignment s ↔ ckFits alignment s := by
  have hk := h.k_le
  have hkpos := h.k_pos
  -- one pass: its two packs and, when the output is copied, the copy
  have hpass : ∀ i < ckLaunches s.k, (ckPassExact alignment s i ↔
      (roundUp s.m alignment * ckGemmK s.k i + 255 ≤ 2147483647 ∧
        (s.m - 1) * s.lda + (i * ckSafeKBlock + (ckValidK s.k i - 1)) ≤ 2147483647) ∧
      (ckGemmK s.k i * roundUp s.n alignment + 255 ≤ 2147483647 ∧
        (i * ckSafeKBlock + (ckValidK s.k i - 1)) * s.ldb + (s.n - 1) ≤ 2147483647) ∧
      ((roundUp s.m alignment ≠ s.m ∨ roundUp s.n alignment ≠ s.n ∨ 0 < i) →
        s.m * s.n + 255 ≤ 2147483647 ∧ (s.m - 1) * s.ldc + (s.n - 1) ≤ 2147483647 ∧
          (s.m - 1) * roundUp s.n alignment + (s.n - 1) ≤ 2147483647)) := by
    intro i hi
    have hvalid : 0 < ckValidK s.k i := by
      unfold ckLaunches ckSafeKBlock at hi
      unfold ckValidK ckSafeKBlock
      split <;> omega
    have hgemm : ckValidK s.k i ≤ ckGemmK s.k i ∧ ckGemmK s.k i ≤ 2147483647 := by
      unfold ckGemmK
      unfold ckValidK ckSafeKBlock
      split_ifs <;> omega
    rw [← ckPackA_exact_iff h.m_pos (le_roundUp _ ha) hvalid hgemm.1 hgemm.2 h.m_le,
      ← ckPackB_exact_iff h.n_pos (le_roundUp _ ha) hvalid hgemm.1 hgemm.2 h.n_le,
      ← ckCopy_exact_iff h.m_pos h.n_pos h.n_le]
    constructor
    · rintro ⟨-, h1, h2, h3, h4, h5⟩
      exact ⟨⟨h1, h2⟩, ⟨h3, h4⟩, h5⟩
    · rintro ⟨⟨h1, h2⟩, ⟨h3, h4⟩, h5⟩
      exact ⟨ckScalars_exact hk hi hm hn, h1, h2, h3, h4, h5⟩
  have hfirst : 0 < ckLaunches s.k := by
    unfold ckLaunches ckSafeKBlock
    omega
  have hlast : ckLaunches s.k - 1 < ckLaunches s.k := by omega
  -- the last pass ends with the last position of `k`
  have hlastK : (ckLaunches s.k - 1) * ckSafeKBlock + (ckValidK s.k (ckLaunches s.k - 1) - 1) =
      s.k - 1 := by
    unfold ckValidK
    unfold ckLaunches ckSafeKBlock
    split <;> omega
  constructor
  -- the first pass has the largest buffers, and the last pass reads the last elements
  · intro hex
    obtain ⟨hA0, hB0, hC0⟩ := (hpass 0 hfirst).mp (hex 0 hfirst)
    obtain ⟨hA1, hB1, hC1⟩ := (hpass _ hlast).mp (hex _ hlast)
    rw [hlastK] at hA1 hB1
    refine ⟨hA0.1, hB0.1, hA1.2, hB1.2, ?_⟩
    rintro (hpad | hpad | hbig)
    · exact hC0 (Or.inl hpad)
    · exact hC0 (Or.inr (Or.inl hpad))
    · refine hC1 (Or.inr (Or.inr ?_))
      unfold ckLaunches
      unfold ckSafeKBlock at hbig ⊢
      omega
  -- every pass is at most as wide as the first and reads no further than the last
  · rintro ⟨hA, hB, hlastA, hlastB, hC⟩ i hi
    have hgemm : ckGemmK s.k i ≤ ckGemmK s.k 0 := by
      unfold ckGemmK ckValidK ckSafeKBlock
      split_ifs <;> omega
    have hoffset : i * ckSafeKBlock + (ckValidK s.k i - 1) ≤ s.k - 1 := by
      unfold ckLaunches at hi
      unfold ckValidK
      unfold ckSafeKBlock at hi ⊢
      split <;> omega
    have hA' := Nat.mul_le_mul_left (roundUp s.m alignment) hgemm
    have hB' := Nat.mul_le_mul_right (roundUp s.n alignment) hgemm
    have hB'' := Nat.mul_le_mul_right s.ldb hoffset
    refine (hpass i hi).mpr ⟨⟨by omega, by omega⟩, ⟨by omega, by omega⟩, fun hw => hC ?_⟩
    rcases hw with hpad | hpad | hpos
    · exact Or.inl hpad
    · exact Or.inr (Or.inl hpad)
    · refine Or.inr (Or.inr ?_)
      unfold ckLaunches at hi
      unfold ckSafeKBlock at hi ⊢
      omega

/-! ### The rocWMMA copies -/

/-- Dimensions are padded to multiples of `16`. -/
theorem roundUp_sixteen (value : ℕ) :
    value ≤ roundUp value 16 ∧ roundUp value 16 < value + 16 ∧ roundUp value 16 % 16 = 0 := by
  unfold roundUp
  split <;> omega

theorem wmmaGemmK_bounds (valid : ℕ) :
    16 ≤ wmmaGemmK valid ∧ valid ≤ wmmaGemmK valid ∧ wmmaGemmK valid ≤ max 16 (valid + 15) ∧
      wmmaGemmK valid % 16 = 0 := by
  have h := roundUp_sixteen (if valid < 16 then 16 else valid)
  unfold wmmaGemmK
  split at h <;> split <;> omega

section Copies

variable {rows paddedRows validK gemmK lda kOffset row kk n col ldb : ℕ}

theorem wmmaPackAIndices_int (rows validK gemmK lda kOffset row kk : ℕ) :
    wmmaPackAIndices rows validK gemmK lda (kOffset : ℤ) row kk =
      [(row : ℤ), (kk : ℤ), ((row * gemmK + kk : ℕ) : ℤ)] ++
        guarded (decide (row < rows) && decide (kk < validK))
          [((row * lda + kOffset + kk : ℕ) : ℤ)] := by
  simp only [wmmaPackAIndices, lit_int, less_int]
  simp only [← Nat.cast_mul, ← Nat.cast_add, Nat.cast_lt]

theorem wmmaPackAIndices_int32 (hrow : row ≤ 2147483647) (hkk : kk ≤ 2147483647)
    (hrows : rows ≤ 2147483647) (hvalid : validK ≤ 2147483647) :
    wmmaPackAIndices rows validK gemmK lda (Int32.ofInt kOffset) row kk =
      (wmmaPackAIndices rows validK gemmK lda (kOffset : ℤ) row kk).map Int32.ofInt := by
  rw [wmmaPackAIndices_int]
  simp only [wmmaPackAIndices, lit_int32, ofInt_mul_nat, ofInt_add_nat, less_ofInt_nat hrow hrows,
    less_ofInt_nat hkk hvalid, List.map_append, List.map_cons, List.map_nil, map_guarded]

/-- **The copy of `A`**, whose offset is a counter of the loop over `k`. -/
theorem wmmaPackA_exact_iff (offset : ∀ (α : Type) [Add α] [Sub α] [Mul α] [Ops α], α)
    (hoffset : offset ℤ = (kOffset : ℤ)) (hoffset32 : offset Int32 = Int32.ofInt kOffset)
    (hrows : 0 < rows) (hpad : rows ≤ paddedRows) (hp : paddedRows ≤ 2147483647)
    (hvalid : 0 < validK) (hgemm : validK ≤ gemmK) (hg : gemmK ≤ 2147483647) :
    (∀ row < paddedRows, ∀ kk < gemmK, Exact fun α =>
        wmmaPackAIndices rows validK gemmK lda (offset α) row kk) ↔
    paddedRows * gemmK ≤ 2147483648 ∧ (rows - 1) * lda + (kOffset + (validK - 1)) ≤ 2147483647 := by
  have hlastRow : (paddedRows - 1) * gemmK + gemmK = paddedRows * gemmK := by
    rw [← Nat.succ_mul, Nat.succ_eq_add_one, Nat.sub_add_cancel (by omega)]
  constructor
  · intro h
    -- the last element of the padded buffer, then the last element of `A`
    have hfit := (h (paddedRows - 1) (by omega) (gemmK - 1) (by omega)).fits
    rw [hoffset, wmmaPackAIndices_int] at hfit
    have hz := hfit (((paddedRows - 1) * gemmK + (gemmK - 1) : ℕ) : ℤ) (by simp)
    have hfit' := (h (rows - 1) (by omega) (validK - 1) (by omega)).fits
    rw [hoffset, wmmaPackAIndices_int] at hfit'
    have hz' := hfit' (((rows - 1) * lda + kOffset + (validK - 1) : ℕ) : ℤ) (by
      simp only [List.mem_append, mem_guarded, Bool.and_eq_true, decide_eq_true_eq]
      exact Or.inr ⟨⟨by omega, by omega⟩, by simp⟩)
    rw [fits_natCast] at hz hz'
    omega
  -- no thread forms a larger value
  · rintro ⟨htotal, hlast⟩ row hrow kk hkk
    have hmul := Nat.mul_le_mul_right gemmK (show row ≤ paddedRows - 1 by omega)
    refine (exact_iff_fits ?_).mpr fun z hz => ?_
    · rw [hoffset, hoffset32]
      exact wmmaPackAIndices_int32 (by omega) (by omega) (by omega) (by omega)
    · rw [hoffset, wmmaPackAIndices_int] at hz
      simp only [List.mem_append, List.mem_cons, List.not_mem_nil, or_false, mem_guarded,
        Bool.and_eq_true, decide_eq_true_eq] at hz
      rcases hz with (rfl | rfl | rfl) | ⟨⟨hr, hk⟩, rfl⟩
      · exact fits_natCast.mpr (by omega)
      · exact fits_natCast.mpr (by omega)
      · exact fits_natCast.mpr (by omega)
      · have hmul' := Nat.mul_le_mul_right lda (show row ≤ rows - 1 by omega)
        exact fits_natCast.mpr (by omega)

theorem wmmaPackBIndices_int (validK gemmK n ldb kOffset col kk : ℕ) :
    wmmaPackBIndices validK gemmK n ldb (kOffset : ℤ) col kk =
      [(col : ℤ), (kk : ℤ), ((col * gemmK + kk : ℕ) : ℤ)] ++
        guarded (decide (col < n) && decide (kk < validK))
          [(((kOffset + kk) * ldb + col : ℕ) : ℤ)] := by
  simp only [wmmaPackBIndices, lit_int, less_int]
  simp only [← Nat.cast_mul, ← Nat.cast_add, Nat.cast_lt]

theorem wmmaPackBIndices_int32 (hcol : col ≤ 2147483647) (hkk : kk ≤ 2147483647)
    (hn : n ≤ 2147483647) (hvalid : validK ≤ 2147483647) :
    wmmaPackBIndices validK gemmK n ldb (Int32.ofInt kOffset) col kk =
      (wmmaPackBIndices validK gemmK n ldb (kOffset : ℤ) col kk).map Int32.ofInt := by
  rw [wmmaPackBIndices_int]
  simp only [wmmaPackBIndices, lit_int32, ofInt_mul_nat, ofInt_add_nat, less_ofInt_nat hcol hn,
    less_ofInt_nat hkk hvalid, List.map_append, List.map_cons, List.map_nil, map_guarded]

/-- **The copy of `B`**, whose offset is a counter of the loop over `k`. -/
theorem wmmaPackB_exact_iff {paddedN : ℕ}
    (offset : ∀ (α : Type) [Add α] [Sub α] [Mul α] [Ops α], α)
    (hoffset : offset ℤ = (kOffset : ℤ)) (hoffset32 : offset Int32 = Int32.ofInt kOffset)
    (hn : 0 < n) (hpad : n ≤ paddedN) (hp : paddedN ≤ 2147483647)
    (hvalid : 0 < validK) (hgemm : validK ≤ gemmK) (hg : gemmK ≤ 2147483647) :
    (∀ col < paddedN, ∀ kk < gemmK, Exact fun α =>
        wmmaPackBIndices validK gemmK n ldb (offset α) col kk) ↔
    paddedN * gemmK ≤ 2147483648 ∧ (kOffset + (validK - 1)) * ldb + (n - 1) ≤ 2147483647 := by
  have hlastCol : (paddedN - 1) * gemmK + gemmK = paddedN * gemmK := by
    rw [← Nat.succ_mul, Nat.succ_eq_add_one, Nat.sub_add_cancel (by omega)]
  constructor
  · intro h
    -- the last element of the padded buffer, then the last element of `B`
    have hfit := (h (paddedN - 1) (by omega) (gemmK - 1) (by omega)).fits
    rw [hoffset, wmmaPackBIndices_int] at hfit
    have hz := hfit (((paddedN - 1) * gemmK + (gemmK - 1) : ℕ) : ℤ) (by simp)
    have hfit' := (h (n - 1) (by omega) (validK - 1) (by omega)).fits
    rw [hoffset, wmmaPackBIndices_int] at hfit'
    have hz' := hfit' (((kOffset + (validK - 1)) * ldb + (n - 1) : ℕ) : ℤ) (by
      simp only [List.mem_append, mem_guarded, Bool.and_eq_true, decide_eq_true_eq]
      exact Or.inr ⟨⟨by omega, by omega⟩, by simp⟩)
    rw [fits_natCast] at hz hz'
    omega
  -- no thread forms a larger value
  · rintro ⟨htotal, hlast⟩ col hcol kk hkk
    have hmul := Nat.mul_le_mul_right gemmK (show col ≤ paddedN - 1 by omega)
    refine (exact_iff_fits ?_).mpr fun z hz => ?_
    · rw [hoffset, hoffset32]
      exact wmmaPackBIndices_int32 (by omega) (by omega) (by omega) (by omega)
    · rw [hoffset, wmmaPackBIndices_int] at hz
      simp only [List.mem_append, List.mem_cons, List.not_mem_nil, or_false, mem_guarded,
        Bool.and_eq_true, decide_eq_true_eq] at hz
      rcases hz with (rfl | rfl | rfl) | ⟨⟨hc, hk⟩, rfl⟩
      · exact fits_natCast.mpr (by omega)
      · exact fits_natCast.mpr (by omega)
      · exact fits_natCast.mpr (by omega)
      · have hmul' := Nat.mul_le_mul_right ldb (show kOffset + kk ≤ kOffset + (validK - 1) by omega)
        exact fits_natCast.mpr (by omega)

end Copies

/-! ### The rocWMMA matrix kernel -/

theorem wmmaGemmIndices_int (rows cols gemmK ldc blockX blockY step localRow localCol : ℕ) :
    (wmmaGemmIndices rows cols gemmK ldc blockX blockY step localRow localCol : List ℤ) =
      [((blockX * 16 : ℕ) : ℤ), ((blockY * 16 : ℕ) : ℤ), ((step * 16 : ℕ) : ℤ),
        ((blockY * 16 * gemmK + step * 16 : ℕ) : ℤ), ((blockX * 16 * gemmK + step * 16 : ℕ) : ℤ),
        ((blockY * 16 + localRow : ℕ) : ℤ), ((blockX * 16 + localCol : ℕ) : ℤ)] ++
        guarded (decide (blockY * 16 + localRow < rows) && decide (blockX * 16 + localCol < cols))
          [(((blockY * 16 + localRow) * ldc + (blockX * 16 + localCol) : ℕ) : ℤ)] := by
  have h16 : ∀ a : ℕ, (a : ℤ) * 16 = ((a * 16 : ℕ) : ℤ) := fun a => by push_cast; rfl
  simp only [wmmaGemmIndices, lit_int, less_int, counter_int, h16]
  simp only [← Nat.cast_mul, ← Nat.cast_add, Nat.cast_lt]

theorem wmmaGemmIndices_int32 {rows cols gemmK ldc blockX blockY step localRow localCol : ℕ}
    (hrow : blockY * 16 + localRow ≤ 2147483647) (hcol : blockX * 16 + localCol ≤ 2147483647)
    (hrows : rows ≤ 2147483647) (hcols : cols ≤ 2147483647) :
    (wmmaGemmIndices rows cols gemmK ldc blockX blockY step localRow localCol : List Int32) =
      (wmmaGemmIndices rows cols gemmK ldc blockX blockY step localRow localCol).map Int32.ofInt := by
  have h16 : ∀ a : ℕ, Int32.ofInt a * Int32.ofInt 16 = Int32.ofInt ((a * 16 : ℕ) : ℤ) :=
    fun a => ofInt_mul_nat a 16
  have hstep : (counter (Int32.ofInt 16) step : Int32) = Int32.ofInt ((step * 16 : ℕ) : ℤ) := by
    rw [counter_ofInt, counter_int]
    push_cast
    rfl
  rw [wmmaGemmIndices_int]
  simp only [wmmaGemmIndices, lit_int32, h16, hstep, ofInt_mul_nat, ofInt_add_nat,
    less_ofInt_nat hrow hrows, less_ofInt_nat hcol hcols, List.map_append, List.map_cons,
    List.map_nil, map_guarded]

/-- **The matrix kernel** over the padded output. -/
theorem wmmaGemmExact_iff {s : GemmShape} (h : s.Valid) {gemmK : ℕ} (hg : 16 ≤ gemmK)
    (hmod : gemmK % 16 = 0) :
    wmmaGemmExact s gemmK ↔
      (roundUp s.m 16 - 16) * gemmK + (gemmK - 16) ≤ 2147483647 ∧
      (roundUp s.n 16 - 16) * gemmK + (gemmK - 16) ≤ 2147483647 ∧
      (s.m - 1) * s.ldc + (s.n - 1) ≤ 2147483647 := by
  obtain ⟨hm1, hm2, hm3⟩ := roundUp_sixteen s.m
  obtain ⟨hn1, hn2, hn3⟩ := roundUp_sixteen s.n
  have hmpos := h.m_pos
  have hnpos := h.n_pos
  have hml := h.m_le
  have hnl := h.n_le
  have hblockY : (roundUp s.m 16 / 16 - 1) * 16 = roundUp s.m 16 - 16 := by omega
  have hblockX : (roundUp s.n 16 / 16 - 1) * 16 = roundUp s.n 16 - 16 := by omega
  have hstep : (gemmK / 16 - 1) * 16 = gemmK - 16 := by omega
  constructor
  · intro hex
    -- the last block at its last step reads furthest in the padded operands
    have hfit := (hex (roundUp s.m 16 / 16 - 1) (by omega) (roundUp s.n 16 / 16 - 1) (by omega)
      (gemmK / 16 - 1) (by omega) 0 (by decide) 0 (by decide)).fits
    rw [wmmaGemmIndices_int, hblockX, hblockY, hstep] at hfit
    have hA := hfit (((roundUp s.m 16 - 16) * gemmK + (gemmK - 16) : ℕ) : ℤ) (by simp)
    have hB := hfit (((roundUp s.n 16 - 16) * gemmK + (gemmK - 16) : ℕ) : ℤ) (by simp)
    -- the block of the last cell stores furthest in `C`
    have hlast := (hex ((s.m - 1) / 16) (by omega) ((s.n - 1) / 16) (by omega) 0 (by omega)
      ((s.m - 1) % 16) (by omega) ((s.n - 1) % 16) (by omega)).fits
    rw [wmmaGemmIndices_int, Nat.div_add_mod', Nat.div_add_mod'] at hlast
    have hC := hlast (((s.m - 1) * s.ldc + (s.n - 1) : ℕ) : ℤ) (by
      simp only [List.mem_append, mem_guarded, Bool.and_eq_true, decide_eq_true_eq]
      exact Or.inr ⟨⟨by omega, by omega⟩, by simp⟩)
    exact ⟨fits_natCast.mp hA, fits_natCast.mp hB, fits_natCast.mp hC⟩
  · rintro ⟨hA, hB, hC⟩ blockY hby blockX hbx step hst localRow hlr localCol hlc
    -- every block lies before the last, and the store is guarded by the shape
    have hA' := Nat.mul_le_mul_right gemmK (show blockY * 16 ≤ roundUp s.m 16 - 16 by omega)
    have hB' := Nat.mul_le_mul_right gemmK (show blockX * 16 ≤ roundUp s.n 16 - 16 by omega)
    have hA16 := Nat.mul_le_mul_left (roundUp s.m 16 - 16) hg
    have hB16 := Nat.mul_le_mul_left (roundUp s.n 16 - 16) hg
    refine (exact_iff_fits (wmmaGemmIndices_int32 (by omega) (by omega) h.m_le h.n_le)).mpr
      fun z hz => ?_
    rw [wmmaGemmIndices_int] at hz
    simp only [List.mem_append, List.mem_cons, List.not_mem_nil, or_false, mem_guarded,
      Bool.and_eq_true, decide_eq_true_eq] at hz
    rcases hz with (rfl | rfl | rfl | rfl | rfl | rfl | rfl) | ⟨⟨hr, hc⟩, rfl⟩
    · exact fits_natCast.mpr (by omega)
    · exact fits_natCast.mpr (by omega)
    · exact fits_natCast.mpr (by omega)
    · exact fits_natCast.mpr (by omega)
    · exact fits_natCast.mpr (by omega)
    · exact fits_natCast.mpr (by omega)
    · exact fits_natCast.mpr (by omega)
    · have hC' := Nat.mul_le_mul_right s.ldc (show blockY * 16 + localRow ≤ s.m - 1 by omega)
      exact fits_natCast.mpr (by omega)

/-! ### The rocWMMA GEMM -/

theorem wmmaSafeK_bounds {k : ℕ} (hk : 0 < k) :
    0 < wmmaSafeK k ∧ wmmaSafeK k ≤ k ∧ wmmaSafeK k ≤ 65536 := by
  unfold wmmaSafeK wmmaSafeKBlock
  split <;> omega

theorem wmmaGemmK_mono {v w : ℕ} (h : v ≤ w) : wmmaGemmK v ≤ wmmaGemmK w := by
  unfold wmmaGemmK roundUp
  split_ifs <;> omega

/-- What the pass `i` multiplies. -/
theorem wmmaPass {k i : ℕ} (hk : 0 < k) (hi : i < wmmaLaunches k) :
    0 < wmmaValidK k i ∧ wmmaValidK k i ≤ wmmaSafeK k ∧
      i * wmmaSafeK k + (wmmaValidK k i - 1) ≤ k - 1 := by
  obtain ⟨hs, -, -⟩ := wmmaSafeK_bounds hk
  have hbelow : i * wmmaSafeK k < k := by
    have h1 := Nat.mul_le_mul_right (wmmaSafeK k) (show i + 1 ≤ wmmaLaunches k from hi)
    have h2 : wmmaLaunches k * wmmaSafeK k ≤ k + (wmmaSafeK k - 1) := Nat.div_mul_le_self _ _
    rw [Nat.add_mul] at h1
    omega
  unfold wmmaValidK
  split <;> omega

/-- The last pass ends with the last position. -/
theorem wmmaLastPass {k : ℕ} (hk : 0 < k) : 0 < wmmaLaunches k ∧
    (wmmaLaunches k - 1) * wmmaSafeK k + (wmmaValidK k (wmmaLaunches k - 1) - 1) = k - 1 := by
  obtain ⟨hs, hsk, -⟩ := wmmaSafeK_bounds hk
  have hpos : 0 < wmmaLaunches k := Nat.div_pos (by omega) hs
  have hlt : k ≤ wmmaLaunches k * wmmaSafeK k := by
    have h := Nat.lt_div_mul_add (a := k + (wmmaSafeK k - 1)) hs
    unfold wmmaLaunches
    omega
  have hprev : (wmmaLaunches k - 1) * wmmaSafeK k + wmmaSafeK k = wmmaLaunches k * wmmaSafeK k := by
    rw [← Nat.succ_mul, Nat.succ_eq_add_one, Nat.sub_add_cancel hpos]
  have hle : wmmaLaunches k * wmmaSafeK k ≤ k + (wmmaSafeK k - 1) := Nat.div_mul_le_self _ _
  refine ⟨hpos, ?_⟩
  unfold wmmaValidK
  split <;> omega

/-- When the indices of a rocWMMA GEMM fit: the padded buffers of the first pass, the counter after
the last pass, and the last elements of `A`, `B` and `C`. -/
def wmmaFits (s : GemmShape) : Prop :=
  roundUp s.m 16 * wmmaGemmK (wmmaSafeK s.k) ≤ 2147483648 ∧
    roundUp s.n 16 * wmmaGemmK (wmmaSafeK s.k) ≤ 2147483648 ∧
    wmmaLaunches s.k * wmmaSafeK s.k ≤ 2147483647 ∧
    (s.m - 1) * s.lda + (s.k - 1) ≤ 2147483647 ∧ (s.k - 1) * s.ldb + (s.n - 1) ≤ 2147483647 ∧
    (s.m - 1) * s.ldc + (s.n - 1) ≤ 2147483647

/-- The counter of the loop over `k`. -/
theorem wmmaOffset (k i : ℕ) :
    (counter (lit (wmmaSafeK k)) i : ℤ) = ((i * wmmaSafeK k : ℕ) : ℤ) ∧
      (counter (lit (wmmaSafeK k)) i : Int32) = Int32.ofInt ((i * wmmaSafeK k : ℕ) : ℤ) := by
  have hint : (counter (lit (wmmaSafeK k)) i : ℤ) = ((i * wmmaSafeK k : ℕ) : ℤ) := by
    rw [lit_int, counter_int]
    push_cast
    rfl
  refine ⟨hint, ?_⟩
  rw [← hint, lit_int32, lit_int, counter_ofInt]

theorem wmmaLoop_exact_iff {k i : ℕ} (hk : 0 < k) (hle : k ≤ 2147483647) (hi : i < wmmaLaunches k) :
    Exact (fun _ => wmmaLoopIndices k i) ↔ (i + 1) * wmmaSafeK k ≤ 2147483647 := by
  obtain ⟨hv, hvs, hoff⟩ := wmmaPass hk hi
  obtain ⟨hs, hsk, -⟩ := wmmaSafeK_bounds hk
  -- the difference is not negative, so the branch of the kernel is decided in the natural numbers
  have hsub : (k : ℤ) - ((i * wmmaSafeK k : ℕ) : ℤ) = ((k - i * wmmaSafeK k : ℕ) : ℤ) := by omega
  have hint : (wmmaLoopIndices k i : List ℤ) = [((i * wmmaSafeK k : ℕ) : ℤ), ((wmmaValidK k i : ℕ) : ℤ),
      (((i + 1) * wmmaSafeK k : ℕ) : ℤ)] := by
    simp only [wmmaLoopIndices, (wmmaOffset k _).1]
    simp only [lit_int, less_int, hsub, Nat.cast_lt, Bool.cond_decide, wmmaValidK]
    split <;> rfl
  constructor
  · intro h
    exact fits_natCast.mp (h.fits (((i + 1) * wmmaSafeK k : ℕ) : ℤ) (by simp [hint]))
  · intro h
    refine (exact_iff_fits ?_).mpr fun z hz => ?_
    · have hless : less (Int32.ofInt ((k - i * wmmaSafeK k : ℕ) : ℤ)) (Int32.ofInt (wmmaSafeK k : ℕ)) =
          decide (k - i * wmmaSafeK k < wmmaSafeK k) := less_ofInt_nat (by omega) (by omega)
      rw [hint]
      simp only [wmmaLoopIndices, (wmmaOffset k _).2]
      simp only [lit_int32, ← Int32.ofInt_sub, hsub, hless, wmmaValidK, Bool.cond_decide,
        List.map_cons, List.map_nil]
      split <;> rfl
    · simp only [hint, List.mem_cons, List.not_mem_nil, or_false] at hz
      rcases hz with rfl | rfl | rfl <;> exact fits_natCast.mpr (by omega)

/-- **rocWMMA.** -/
theorem wmmaExact_iff {s : GemmShape} (h : s.Valid) : wmmaExact s ↔ wmmaFits s := by
  have hk := h.k_pos
  have hkle := h.k_le
  obtain ⟨hm1, hm2, hm3⟩ := roundUp_sixteen s.m
  obtain ⟨hn1, hn2, hn3⟩ := roundUp_sixteen s.n
  -- the padded dimensions are formed once, the rest in every pass
  have hscalars : Exact (fun _ => [lit (roundUp s.m 16), lit (roundUp s.n 16)]) ↔
      roundUp s.m 16 ≤ 2147483647 ∧ roundUp s.n 16 ≤ 2147483647 := by
    rw [exact_iff_fits rfl]
    simp only [lit_int, List.mem_cons, List.not_mem_nil, or_false, forall_eq_or_imp, forall_eq,
      fits_natCast]
  have hpass : ∀ i < wmmaLaunches s.k, roundUp s.m 16 ≤ 2147483647 → roundUp s.n 16 ≤ 2147483647 →
      ((Exact (fun _ => wmmaLoopIndices s.k i) ∧
        Exact (fun _ => [lit (wmmaGemmK (wmmaValidK s.k i))]) ∧
        (∀ row < roundUp s.m 16, ∀ kk < wmmaGemmK (wmmaValidK s.k i), Exact fun _ =>
          wmmaPackAIndices s.m (wmmaValidK s.k i) (wmmaGemmK (wmmaValidK s.k i)) s.lda
            (counter (lit (wmmaSafeK s.k)) i) row kk) ∧
        (∀ col < roundUp s.n 16, ∀ kk < wmmaGemmK (wmmaValidK s.k i), Exact fun _ =>
          wmmaPackBIndices (wmmaValidK s.k i) (wmmaGemmK (wmmaValidK s.k i)) s.n s.ldb
            (counter (lit (wmmaSafeK s.k)) i) col kk) ∧
        wmmaGemmExact s (wmmaGemmK (wmmaValidK s.k i))) ↔
      (i + 1) * wmmaSafeK s.k ≤ 2147483647 ∧
        (roundUp s.m 16 * wmmaGemmK (wmmaValidK s.k i) ≤ 2147483648 ∧
          (s.m - 1) * s.lda + (i * wmmaSafeK s.k + (wmmaValidK s.k i - 1)) ≤ 2147483647) ∧
        (roundUp s.n 16 * wmmaGemmK (wmmaValidK s.k i) ≤ 2147483648 ∧
          (i * wmmaSafeK s.k + (wmmaValidK s.k i - 1)) * s.ldb + (s.n - 1) ≤ 2147483647) ∧
        (s.m - 1) * s.ldc + (s.n - 1) ≤ 2147483647) := by
    intro i hi hpm hpn
    obtain ⟨hv, hvs, -⟩ := wmmaPass hk hi
    have hs := wmmaSafeK_bounds hk
    obtain ⟨hg1, hg2, hg3, hg4⟩ := wmmaGemmK_bounds (wmmaValidK s.k i)
    rw [wmmaLoop_exact_iff hk hkle hi,
      wmmaPackA_exact_iff (fun _ => counter (lit (wmmaSafeK s.k)) i) (wmmaOffset s.k i).1
        (wmmaOffset s.k i).2 h.m_pos hm1 hpm hv hg2 (by omega),
      wmmaPackB_exact_iff (fun _ => counter (lit (wmmaSafeK s.k)) i) (wmmaOffset s.k i).1
        (wmmaOffset s.k i).2 h.n_pos hn1 hpn hv hg2 (by omega),
      wmmaGemmExact_iff h hg1 hg4]
    -- the padded inner dimension of a pass is small whatever the shape
    have hgk : Exact (fun _ => [lit (wmmaGemmK (wmmaValidK s.k i))]) := by
      refine (exact_iff_fits rfl).mpr fun z hz => ?_
      simp only [lit_int, List.mem_cons, List.not_mem_nil, or_false] at hz
      subst hz
      exact fits_natCast.mpr (by omega)
    constructor
    · rintro ⟨h1, -, h2, h3, -, -, h4⟩
      exact ⟨h1, h2, h3, h4⟩
    · rintro ⟨h1, h2, h3, h4⟩
      -- the kernel reads inside the buffers that the packs have filled
      have hA := Nat.sub_mul (roundUp s.m 16) 16 (wmmaGemmK (wmmaValidK s.k i))
      have hB := Nat.sub_mul (roundUp s.n 16) 16 (wmmaGemmK (wmmaValidK s.k i))
      have hA' := Nat.mul_le_mul_right (wmmaGemmK (wmmaValidK s.k i))
        (show 16 ≤ roundUp s.m 16 by have := h.m_pos; omega)
      have hB' := Nat.mul_le_mul_right (wmmaGemmK (wmmaValidK s.k i))
        (show 16 ≤ roundUp s.n 16 by have := h.n_pos; omega)
      exact ⟨h1, hgk, h2, h3, by omega, by omega, h4⟩
  obtain ⟨hlaunch, hlastK⟩ := wmmaLastPass hk
  -- the first pass is as wide as a pass can be
  have hfirstK : wmmaValidK s.k 0 = wmmaSafeK s.k := by
    have hs := wmmaSafeK_bounds hk
    unfold wmmaValidK
    split <;> omega
  rw [wmmaExact, hscalars]
  constructor
  -- the first pass has the largest buffers; the last leaves the largest counter and reads the
  -- last elements
  · rintro ⟨⟨hpm, hpn⟩, hex⟩
    obtain ⟨-, hA, hB, hC⟩ := (hpass 0 hlaunch hpm hpn).mp (hex 0 hlaunch)
    have hlast : wmmaLaunches s.k - 1 < wmmaLaunches s.k := by omega
    obtain ⟨hloop, hA', hB', -⟩ := (hpass _ hlast hpm hpn).mp (hex _ hlast)
    rw [hlastK] at hA' hB'
    rw [Nat.sub_add_cancel hlaunch] at hloop
    rw [hfirstK] at hA hB
    exact ⟨hA.1, hB.1, hloop, hA'.2, hB'.2, hC⟩
  -- every pass is at most as wide as the first and ends no later than the last
  · rintro ⟨hA, hB, hloop, hlastA, hlastB, hC⟩
    have hg1 := (wmmaGemmK_bounds (wmmaSafeK s.k)).1
    have hA16 := Nat.mul_le_mul_left (roundUp s.m 16) hg1
    have hB16 := Nat.mul_le_mul_left (roundUp s.n 16) hg1
    have hpm : roundUp s.m 16 ≤ 2147483647 := by omega
    have hpn : roundUp s.n 16 ≤ 2147483647 := by omega
    refine ⟨⟨hpm, hpn⟩, fun i hi => (hpass i hi hpm hpn).mpr ?_⟩
    obtain ⟨hv, hvs, hoff⟩ := wmmaPass hk hi
    have hgemm := wmmaGemmK_mono hvs
    have h1 := Nat.mul_le_mul_right (wmmaSafeK s.k) (show i + 1 ≤ wmmaLaunches s.k from hi)
    have h2 := Nat.mul_le_mul_left (roundUp s.m 16) hgemm
    have h3 := Nat.mul_le_mul_left (roundUp s.n 16) hgemm
    have h4 := Nat.mul_le_mul_right s.ldb hoff
    exact ⟨by omega, ⟨by omega, by omega⟩, ⟨by omega, by omega⟩, hC⟩

/-- **The prepack of `B`** forms its offsets in 64 bits, so only the padded width has to fit. -/
theorem wmmaPrepackExact_iff {s : GemmShape} (hk : s.k ≤ wmmaSafeKBlock) :
    wmmaPrepackExact s ↔ roundUp s.n 16 ≤ 2147483647 := by
  obtain ⟨hg1, hg2, hg3, hg4⟩ := wmmaGemmK_bounds s.k
  unfold wmmaSafeKBlock at hk
  constructor
  · rintro ⟨h, -⟩
    exact fits_natCast.mp (h.fits (roundUp s.n 16 : ℕ) (by simp))
  · intro h
    refine ⟨(exact_iff_fits rfl).mpr fun z hz => ?_, fun col hcol kk hkk =>
      (exact_iff_fits rfl).mpr fun z hz => ?_⟩
    · simp only [lit_int, List.mem_cons, List.not_mem_nil, or_false] at hz
      rcases hz with rfl | rfl <;> exact fits_natCast.mpr (by omega)
    · simp only [wmmaPrepackIndices, lit_int, List.mem_cons, List.not_mem_nil, or_false] at hz
      rcases hz with rfl | rfl <;> exact fits_natCast.mpr (by omega)

/-- When the indices of a GEMM on a prepacked `B` fit. -/
def wmmaPrepackedFits (s : GemmShape) : Prop :=
  roundUp s.m 16 * wmmaGemmK s.k ≤ 2147483648 ∧
    (roundUp s.n 16 - 16) * wmmaGemmK s.k + (wmmaGemmK s.k - 16) ≤ 2147483647 ∧
    (s.m - 1) * s.lda + (s.k - 1) ≤ 2147483647 ∧ (s.m - 1) * s.ldc + (s.n - 1) ≤ 2147483647

/-- **rocWMMA on a prepacked `B`.** -/
theorem wmmaPrepackedExact_iff {s : GemmShape} (h : s.Valid) (hk : s.k ≤ wmmaSafeKBlock) :
    wmmaPrepackedExact s ↔ wmmaPrepackedFits s := by
  obtain ⟨hm1, hm2, hm3⟩ := roundUp_sixteen s.m
  obtain ⟨hn1, hn2, hn3⟩ := roundUp_sixteen s.n
  obtain ⟨hg1, hg2, hg3, hg4⟩ := wmmaGemmK_bounds s.k
  unfold wmmaSafeKBlock at hk
  -- one pass: the pack of `A` starts at the first position
  have hpackA : roundUp s.m 16 ≤ 2147483647 →
      ((∀ row < roundUp s.m 16, ∀ kk < wmmaGemmK s.k, Exact fun _ =>
          wmmaPackAIndices s.m s.k (wmmaGemmK s.k) s.lda (lit 0) row kk) ↔
        roundUp s.m 16 * wmmaGemmK s.k ≤ 2147483648 ∧
          (s.m - 1) * s.lda + (0 + (s.k - 1)) ≤ 2147483647) := fun hpm =>
    wmmaPackA_exact_iff (fun _ => lit 0) rfl rfl h.m_pos hm1 hpm h.k_pos hg2 (by omega)
  have hscalars : Exact (fun _ => [lit (roundUp s.m 16), lit (roundUp s.n 16), lit (wmmaGemmK s.k)]) ↔
      roundUp s.m 16 ≤ 2147483647 ∧ roundUp s.n 16 ≤ 2147483647 ∧ wmmaGemmK s.k ≤ 2147483647 := by
    rw [exact_iff_fits rfl]
    simp only [lit_int, List.mem_cons, List.not_mem_nil, or_false, forall_eq_or_imp, forall_eq,
      fits_natCast]
  rw [wmmaPrepackedExact, hscalars, wmmaGemmExact_iff h hg1 hg4]
  constructor
  · rintro ⟨⟨hpm, hpn, -⟩, hA, -, hB, hC⟩
    obtain ⟨hA1, hA2⟩ := (hpackA hpm).mp hA
    exact ⟨hA1, hB, by omega, hC⟩
  · rintro ⟨hA, hB, hlastA, hC⟩
    have hA16 := Nat.mul_le_mul_left (roundUp s.m 16) hg1
    have hB16 := Nat.mul_le_mul_left (roundUp s.n 16 - 16) hg1
    have hpm : roundUp s.m 16 ≤ 2147483647 := by omega
    have hsub := Nat.sub_mul (roundUp s.m 16) 16 (wmmaGemmK s.k)
    have hmul := Nat.mul_le_mul_right (wmmaGemmK s.k)
      (show 16 ≤ roundUp s.m 16 by have := h.m_pos; omega)
    refine ⟨⟨hpm, by omega, by omega⟩, (hpackA hpm).mpr ⟨hA, by omega⟩, by omega, hB, hC⟩

end Rns8
