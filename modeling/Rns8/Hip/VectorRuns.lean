import Rns8.Hip.VectorAlu
import Rns8.Lib.RowMajor

/-!
# Runs of the vector ALU kernels

Every kernel forms the exact dot product of each cell, whatever the order of its threads, and so all
three end in the same state `exactRun`: the status raised by the cells whose product is out of range,
and in each cell what the store makes of its product.
-/

namespace Rns8

open Finset TreeReduction LoopFold

variable {α σ : Type} {arith : VectorArith α σ} {value : α → ℤ} {total : σ → ℤ}
  {outcome : ℤ → Bool × α}

/-- The exact dot product of a cell. -/
def vectorDot (value : α → ℤ) (a b : ℕ → α) (n k row col : ℕ) : ℤ :=
  ∑ kk ∈ range k, value (a (row * k + kk)) * value (b (kk * n + col))

section Sums

variable (a b : ℕ → α) (n k row col : ℕ)

/-- The budget of a cell: no `int64_t` count of products reaches `2 ^ 192`. -/
theorem sum_abs_products_lt (h : arith.Exact value total outcome) (hk : k < 2 ^ 63) :
    ∑ kk ∈ range k, |value (a (row * k + kk)) * value (b (kk * n + col))| < 2 ^ 192 := by
  have hterms := sum_le_card_nsmul (range k)
    (fun kk => |value (a (row * k + kk)) * value (b (kk * n + col))|) (2 ^ 128)
    fun kk _ => h.abs_mul_le _ _
  rw [card_range, nsmul_eq_mul] at hterms
  calc _ ≤ (k : ℤ) * 2 ^ 128 := hterms
    _ ≤ 2 ^ 63 * 2 ^ 128 := by
        have : (k : ℤ) ≤ 2 ^ 63 := by exact_mod_cast hk.le
        exact mul_le_mul_of_nonneg_right this (by norm_num)
    _ < 2 ^ 192 := by norm_num

theorem list_sum_range (k : ℕ) (f : ℕ → ℤ) : ((List.range k).map f).sum = ∑ kk ∈ range k, f kk := by
  induction k with
  | zero => rfl
  | succ k ih => simp [List.range_succ, sum_range_succ, ih]

/-- **The serial sum is exact.** -/
theorem serialSum_total (h : arith.Exact value total outcome) (hk : k < 2 ^ 63) :
    total (serialSum arith a b n k row col) = vectorDot value a b n k row col := by
  have hbudget := sum_abs_products_lt a b n k row col h hk
  unfold serialSum vectorDot
  rw [foldl_val (2 ^ 192) (fun kk => value (a (row * k + kk)) * value (b (kk * n + col)))
    fun x kk => h.addProduct x _ _]
  · rw [h.zero, zero_add, list_sum_range]
  · rwa [h.zero, abs_zero, zero_add, list_sum_range]

/-- **The cooperative sum is exact**, for `2 ^ j` threads and any order of them in every pass. The
partial sum of a thread is `partials`. -/
theorem blockSum_total (h : arith.Exact value total outcome) (hk : k < 2 ^ 63) {j : ℕ}
    {passes : ℕ → List ℕ} (hpasses : ∀ stride : ℕ, (passes stride).Perm (List.range (2 ^ j)))
    {partials : ℕ → σ} (hpartials : ∀ thread, partials thread =
      (stridedIndices (2 ^ j) k thread).foldl
        (fun sum kk => arith.addProduct sum (a (row * k + kk)) (b (kk * n + col))) arith.zero) :
    total (treeReduce arith.merge (2 ^ j) passes partials 0) = vectorDot value a b n k row col := by
  have hbudget := sum_abs_products_lt a b n k row col h hk
  have hpos : 0 < 2 ^ j := by positivity
  rw [← sum_threads hpos] at hbudget
  -- one thread
  have hthread : ∀ t < 2 ^ j, total (partials t) = ((stridedIndices (2 ^ j) k t).map fun kk =>
      value (a (row * k + kk)) * value (b (kk * n + col))).sum := by
    intro t ht
    have hle := single_le_sum (f := fun t => ((stridedIndices (2 ^ j) k t).map fun kk =>
        |value (a (row * k + kk)) * value (b (kk * n + col))|).sum) (s := range (2 ^ j))
      (fun t _ => List.sum_nonneg fun y hy => by
        obtain ⟨kk, -, rfl⟩ := List.mem_map.1 hy
        exact abs_nonneg _) (mem_range.2 ht)
    rw [hpartials, foldl_val (2 ^ 192)
      (fun kk => value (a (row * k + kk)) * value (b (kk * n + col)))
      fun x kk => h.addProduct x _ _]
    · rw [h.zero, zero_add]
    · rw [h.zero, abs_zero, zero_add]
      exact hle.trans_lt hbudget
  rw [treeReduce_val (2 ^ 192) h.merge j _ partials
    (fun t => ((stridedIndices (2 ^ j) k t).map fun kk =>
      |value (a (row * k + kk)) * value (b (kk * n + col))|).sum) _ hbudget]
  · refine Eq.trans ?_ (sum_threads hpos k _)
    exact sum_congr rfl fun t ht => hthread t (mem_range.1 ht)
  · intro i hi
    refine ⟨(hpasses _).nodup_iff.2 List.nodup_range, fun t ht => (hpasses _).mem_iff.2 ?_⟩
    exact List.mem_range.2 (ht.trans (Nat.pow_lt_pow_right (by norm_num) hi))
  · intro t ht
    rw [hthread t ht]
    rw [sum_stridedIndices, sum_stridedIndices]
    exact abs_sum_le_sum_abs _ _

/-- A thread's columns: column `col` of the sums is the sum of column `col`. -/
theorem smallNPartial_apply (threads thread : ℕ) (hcol : col < n) :
    smallNPartial arith a b n k threads row thread col = (stridedIndices threads k thread).foldl
      (fun sum kk => arith.addProduct sum (a (row * k + kk)) (b (kk * n + col))) arith.zero := by
  unfold smallNPartial
  generalize stridedIndices threads k thread = indices
  suffices hrun : ∀ sums : ℕ → σ, indices.foldl _ sums col = indices.foldl
      (fun sum kk => arith.addProduct sum (a (row * k + kk)) (b (kk * n + col))) (sums col) from
    hrun fun _ => arith.zero
  induction indices with
  | nil => exact fun _ => rfl
  | cons kk indices ih =>
    intro sums
    have hpass := foldl_range_update
      (fun col sum => arith.addProduct sum (a (row * k + kk)) (b (kk * n + col))) n sums col
    rw [if_pos hcol] at hpass
    rw [List.foldl_cons, List.foldl_cons, ih, hpass]

/-- The merge of two rows merges each of the eight columns. -/
theorem mergeColumns_apply (arith : VectorArith α σ) (lhs rhs : ℕ → σ) (hcol : col < kGemvSmallNMaxN) :
    mergeColumns arith lhs rhs col = arith.merge (lhs col) (rhs col) :=
  (foldl_range_update (fun col sum => arith.merge sum (rhs col)) _ lhs col).trans (if_pos hcol)

/-- A block of the one-column kernel holds the exact product of its row. -/
theorem gemvN1Block_total (h : arith.Exact value total outcome) (hk : k < 2 ^ 63) {j : ℕ}
    {passes : ℕ → List ℕ} (hpasses : ∀ stride : ℕ, (passes stride).Perm (List.range (2 ^ j))) :
    total (gemvN1Block arith a b k (2 ^ j) passes row) = vectorDot value a b 1 k row 0 :=
  blockSum_total a b 1 k row 0 h hk hpasses fun thread => by
    simp only [gemvN1Partial, Nat.mul_one, Nat.add_zero]

/-- A block of the multi-column kernel holds the exact product of each column. -/
theorem smallNBlock_total (h : arith.Exact value total outcome) (hk : k < 2 ^ 63) {j : ℕ}
    {passes : ℕ → List ℕ} (hpasses : ∀ stride : ℕ, (passes stride).Perm (List.range (2 ^ j)))
    (hn : n ≤ kGemvSmallNMaxN) (hcol : col < n) :
    total (smallNBlock arith a b n k (2 ^ j) passes row col) = vectorDot value a b n k row col := by
  have hproj := treeReduce_map (fun sums : ℕ → σ => sums col)
    (fun lhs rhs => mergeColumns_apply col arith lhs rhs (by omega)) (2 ^ j) passes
    (smallNPartial arith a b n k (2 ^ j) row) 0
  refine (congrArg total hproj).trans ?_
  exact blockSum_total a b n k row col h hk hpasses fun thread =>
    smallNPartial_apply a b n k row col (2 ^ j) thread hcol

end Sums

/-! ### Whole launches -/

/-- The state after a launch, from the exact products alone. -/
def exactRun (outcome : ℤ → Bool × α) (dot : ℕ → ℕ → ℤ) (m n : ℕ) (out : VectorOut α) : VectorOut α where
  status := if ∃ row < m, ∃ col < n, (outcome (dot row col)).1 = true then out.status ||| 1 else out.status
  c index := if index < m * n then (outcome (dot (index / n) (index % n))).2 else out.c index

/-- The stores of a list of cells. -/
def storeDots (outcome : ℤ → Bool × α) (dot : ℕ → ℕ → ℤ) (n : ℕ) (out : VectorOut α)
    (cells : List (ℕ × ℕ)) : VectorOut α :=
  cells.foldl (fun out cell => storeCell out (cell.1 * n + cell.2) (outcome (dot cell.1 cell.2))) out

section Launches

variable (outcome) (dot : ℕ → ℕ → ℤ) {m n : ℕ} (out : VectorOut α)

theorem storeDots_status (cells : List (ℕ × ℕ)) : (storeDots outcome dot n out cells).status =
    if ∃ cell ∈ cells, (outcome (dot cell.1 cell.2)).1 = true then out.status ||| 1 else out.status := by
  induction cells generalizing out with
  | nil => simp [storeDots]
  | cons cell cells ih =>
    refine (ih _).trans ?_
    have hor : out.status ||| 1 ||| 1 = out.status ||| 1 := by
      rw [UInt32.or_assoc, UInt32.or_self]
    by_cases hcell : (outcome (dot cell.1 cell.2)).1 = true
    · simp [storeCell, hcell, hor]
    · have hrest : (∃ c ∈ cells, (outcome (dot c.1 c.2)).1 = true) ↔
          ∃ c ∈ cell :: cells, (outcome (dot c.1 c.2)).1 = true := by
        rw [List.exists_mem_cons_iff]
        exact (or_iff_right hcell).symm
      have hkeep : (storeCell out (cell.1 * n + cell.2) (outcome (dot cell.1 cell.2))).status =
          out.status := if_neg hcell
      rw [hkeep]
      exact if_congr hrest rfl rfl

/-- **Stores in any order** that cover exactly the matrix, repeated or not. -/
theorem storeDots_eq_exactRun {cells : List (ℕ × ℕ)}
    (hcells : ∀ row col : ℕ, (row, col) ∈ cells ↔ row < m ∧ col < n) :
    storeDots outcome dot n out cells = exactRun outcome dot m n out := by
  have hstatus : (∃ cell ∈ cells, (outcome (dot cell.1 cell.2)).1 = true) ↔
      ∃ row < m, ∃ col < n, (outcome (dot row col)).1 = true := by
    constructor
    · rintro ⟨⟨row, col⟩, hmem, h⟩
      obtain ⟨hrow, hcol⟩ := (hcells row col).1 hmem
      exact ⟨row, hrow, col, hcol, h⟩
    · rintro ⟨row, hrow, col, hcol, h⟩
      exact ⟨(row, col), (hcells row col).2 ⟨hrow, hcol⟩, h⟩
  -- a cell of the output is stored by its own dot product, whatever the order
  have hc : (storeDots outcome dot n out cells).c = (exactRun outcome dot m n out).c := by
    funext index
    by_cases hindex : index < m * n
    · obtain ⟨hrow, hcol⟩ := RowMajor.div_mod_lt hindex
      refine Eq.trans ?_ (if_pos hindex).symm
      refine foldl_read_of_touched (I := fun _ => True) (fun out : VectorOut α => out.c index)
        (fun cell => index = cell.1 * n + cell.2) (fun _ _ _ _ => trivial) ?_ ?_
        ⟨(index / n, index % n), (hcells _ _).2 ⟨hrow, hcol⟩, (Nat.div_add_mod' index n).symm⟩ trivial
      · rintro out ⟨row, col⟩ hmem - htouch
        have hparts := RowMajor.offset_parts row ((hcells row col).1 hmem).2
        rw [htouch, hparts.1, hparts.2]
        exact Function.update_self _ _ _
      · exact fun out cell _ _ htouch => Function.update_of_ne htouch _ _
    · refine Eq.trans ?_ (if_neg hindex).symm
      refine foldl_read_of_frame (fun out : VectorOut α => out.c index) ?_ out
      rintro out ⟨row, col⟩ hmem
      obtain ⟨hrow, hcol⟩ := (hcells row col).1 hmem
      have hlt := RowMajor.offset_lt hcol hrow
      exact Function.update_of_ne (show index ≠ row * n + col by omega) _ _
  -- the two fields of the outcome are all of it
  have hrun : ∀ x y : VectorOut α, x.status = y.status → x.c = y.c → x = y := by
    rintro ⟨_, _⟩ ⟨_, _⟩ rfl rfl
    rfl
  refine hrun _ _ ?_ hc
  rw [storeDots_status]
  exact if_congr hstatus rfl rfl

end Launches

/-- The threads of the serial grid hold every cell. -/
theorem mem_cellThreads {m n : ℕ} (hm : m ≤ intMax) (hn : n ≤ intMax) (row col : ℕ) :
    (∃ t ∈ cellThreads m n, t.row < m ∧ t.col < n ∧ row = t.row ∧ col = t.col) ↔ row < m ∧ col < n := by
  constructor
  · rintro ⟨t, -, hrow, hcol, rfl, rfl⟩
    exact ⟨hrow, hcol⟩
  · rintro ⟨hrow, hcol⟩
    have hmem : (⟨col / 16, row / 16, col % 16, row % 16⟩ : CellThread) ∈ cellThreads m n := by
      simp only [cellThreads, List.mem_flatMap, List.mem_map, List.mem_range]
      exact ⟨row / 16, by omega, col / 16, by omega, row % 16, by omega, col % 16, by omega, rfl⟩
    simp only [intMax] at hm hn
    have hr : CellThread.row ⟨col / 16, row / 16, col % 16, row % 16⟩ = row := by
      simp only [CellThread.row, Nat.div_add_mod']
      omega
    have hc : CellThread.col ⟨col / 16, row / 16, col % 16, row % 16⟩ = col := by
      simp only [CellThread.col, Nat.div_add_mod']
      omega
    exact ⟨_, hmem, by rwa [hr], by rwa [hc], hr.symm, hc.symm⟩

section Kernels

variable (a b : ℕ → α) {m n k : ℕ} (out : VectorOut α) (h : arith.Exact value total outcome)
  (hk : k < 2 ^ 63)

include h hk

/-- **The serial kernel** ends in the exact state. -/
theorem gemmKernel_eq (hm : m ≤ intMax) (hn : n ≤ intMax) {order : List CellThread}
    (horder : order.Perm (cellThreads m n)) : gemmKernel arith a b m n k order out =
      exactRun outcome (vectorDot value a b n k) m n out := by
  have hrun : gemmKernel arith a b m n k order out =
      storeDots outcome (vectorDot value a b n k) n out
        (order.flatMap fun t => if t.row < m ∧ t.col < n then [(t.row, t.col)] else []) := by
    unfold gemmKernel storeDots
    rw [List.foldl_flatMap]
    congr 1
    funext out t
    unfold gemmThread
    by_cases hin : t.row < m ∧ t.col < n
    · rw [if_neg (by omega), if_pos hin, h.store, serialSum_total a b n k _ _ h hk]
      rfl
    · rw [if_pos (by omega), if_neg hin]
      rfl
  rw [hrun]
  refine storeDots_eq_exactRun outcome _ out fun row col => ?_
  rw [← mem_cellThreads hm hn, List.mem_flatMap]
  constructor
  · rintro ⟨t, ht, hmem⟩
    split at hmem
    · next hin =>
      simp only [List.mem_singleton, Prod.mk.injEq] at hmem
      exact ⟨t, horder.mem_iff.1 ht, hin.1, hin.2, hmem.1, hmem.2⟩
    · cases hmem
  · rintro ⟨t, ht, hrow, hcol, rfl, rfl⟩
    exact ⟨t, horder.mem_iff.2 ht, by simp [hrow, hcol]⟩

variable {j : ℕ} {passes : ℕ → ℕ → List ℕ} {blocks : List ℕ}
  (hpasses : ∀ block stride : ℕ, (passes block stride).Perm (List.range (2 ^ j)))
  (hblocks : blocks.Perm (List.range m))

include hpasses hblocks

/-- **The cooperative kernel** of one column ends in the exact state. -/
theorem gemvN1Kernel_eq : gemvN1Kernel arith a b m k (2 ^ j) passes blocks out =
    exactRun outcome (vectorDot value a b 1 k) m 1 out := by
  have hrun : gemvN1Kernel arith a b m k (2 ^ j) passes blocks out =
      storeDots outcome (vectorDot value a b 1 k) 1 out
        (blocks.flatMap fun row => if row < m then [(row, 0)] else []) := by
    unfold gemvN1Kernel storeDots
    rw [List.foldl_flatMap]
    congr 1
    funext out row
    by_cases hrow : row < m
    · rw [if_neg (by omega), if_pos hrow, h.store, gemvN1Block_total a b k row h hk (hpasses row)]
      simp
    · rw [if_pos (by omega), if_neg hrow]
      rfl
  rw [hrun]
  refine storeDots_eq_exactRun outcome _ out fun row col => ?_
  rw [List.mem_flatMap]
  constructor
  · rintro ⟨r, -, hmem⟩
    split at hmem
    · next hr =>
      simp only [List.mem_singleton, Prod.mk.injEq] at hmem
      omega
    · cases hmem
  · rintro ⟨hrow, hcol⟩
    refine ⟨row, hblocks.mem_iff.2 (List.mem_range.2 hrow), ?_⟩
    rw [if_pos hrow, List.mem_singleton, Prod.mk.injEq]
    omega

/-- **The multi-column kernel** ends in the exact state. -/
theorem gemvSmallNKernel_eq (hn1 : 1 < n) (hn8 : n ≤ kGemvSmallNMaxN) :
    gemvSmallNKernel arith a b m n k (2 ^ j) passes blocks out =
      exactRun outcome (vectorDot value a b n k) m n out := by
  -- each block stores the columns of its row, and blocks past the last row nothing
  have hrun : gemvSmallNKernel arith a b m n k (2 ^ j) passes blocks out =
      storeDots outcome (vectorDot value a b n k) n out
        (blocks.flatMap fun row => if row < m then (List.range n).map fun col => (row, col) else []) := by
    unfold gemvSmallNKernel storeDots
    rw [List.foldl_flatMap]
    congr 1
    funext out row
    by_cases hrow : row < m
    · rw [if_neg (by omega), if_pos hrow, List.foldl_map]
      refine List.foldl_ext _ _ _ fun out col hcol => ?_
      rw [h.store, smallNBlock_total a b n k row col h hk (hpasses row) hn8 (List.mem_range.1 hcol)]
    · rw [if_pos (by omega), if_neg hrow]
      rfl
  rw [hrun]
  refine storeDots_eq_exactRun outcome _ out fun row col => ?_
  -- the blocks in any order list every cell
  rw [List.mem_flatMap]
  constructor
  · rintro ⟨r, -, hmem⟩
    split at hmem
    · next hr =>
      simp only [List.mem_map, List.mem_range, Prod.mk.injEq] at hmem
      obtain ⟨c, hc, rfl, rfl⟩ := hmem
      exact ⟨hr, hc⟩
    · cases hmem
  · rintro ⟨hrow, hcol⟩
    refine ⟨row, hblocks.mem_iff.2 (List.mem_range.2 hrow), ?_⟩
    rw [if_pos hrow]
    exact List.mem_map.2 ⟨col, List.mem_range.2 hcol, rfl⟩

end Kernels

end Rns8
