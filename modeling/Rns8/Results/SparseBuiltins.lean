import Rns8.Api.SparsePack
import Rns8.Lib.IndexedStores
import Rns8.Results.MatrixBuiltins
import Rns8.Results.SparseBounds

/-!
# Sparse left operands on the device

On the matrix-core backend a sparse GEMM multiplies the packed form itself. A launch of its kernel
leaves the same device memory as a launch of the dense kernel over the expansion
(`builtinOp_agree`), since each stores every cell of the output once, with the residue of the same
dot product.
-/

namespace Rns8

open Finset CenteredResidue

/-! ### What a launch leaves -/

/-- The residues of `C` after the stores of a launch. -/
def storeResidues (stores : List (ℕ × Int8)) (cell : ℕ → Int8) : ℕ → Int8 :=
  stores.foldl (fun cell s => Function.update cell s.1 s.2) cell

/-- **Two launches that store every cell once** leave the same memory, if their targets agree. -/
theorem CellsStoredOnce.storeResidues_eq {stores stores' : List (ℕ × Int8)} {planes m n ldc : ℕ}
    {target target' : ℕ → ℕ → ℕ → Int8} (h : CellsStoredOnce stores planes m n ldc target)
    (h' : CellsStoredOnce stores' planes m n ldc target')
    (heq : ∀ plane < planes, ∀ row < m, ∀ col < n, target plane row col = target' plane row col)
    (cell : ℕ → Int8) : storeResidues stores cell = storeResidues stores' cell := by
  have hnone : ∀ {stores : List (ℕ × Int8)} {target : ℕ → ℕ → ℕ → Int8} {o : ℕ},
      CellsStoredOnce stores planes m n ldc target →
      (¬ ∃ plane < planes, ∃ row < m, ∃ col < n, o = cellOffset m ldc plane row col) →
      stores.filter (fun s => decide (s.1 = o)) = [] := by
    intro stores target o h hout
    refine List.filter_eq_nil_iff.2 fun s hs => ?_
    simp only [decide_eq_true_eq]
    rintro rfl
    exact hout (h.inside s hs)
  funext o
  unfold storeResidues
  rw [IndexedStores.foldl_update_filter, IndexedStores.foldl_update_filter stores']
  by_cases hcell : ∃ plane < planes, ∃ row < m, ∃ col < n, o = cellOffset m ldc plane row col
  · obtain ⟨plane, hplane, row, hrow, col, hcol, rfl⟩ := hcell
    rw [h.once plane hplane row hrow col hcol, h'.once plane hplane row hrow col hcol,
      heq plane hplane row hrow col hcol]
  · rw [hnone h hcell, hnone h' hcell]

/-- A call of the AMDGPU builtin kernels as the device operation of a GEMM, which finds `cell` in its
output. -/
def builtinOp (call : Status × List (ℕ × Int8)) (cell : ℕ → Int8) : DeviceOp Int8 where
  failure := if h : call.1 = .success then none else some ⟨call.1, h⟩
  left := storeResidues call.2 cell

theorem builtinOp_failure_eq_none_iff {call : Status × List (ℕ × Int8)} {cell : ℕ → Int8} :
    (builtinOp call cell).failure = none ↔ call.1 = .success := by
  unfold builtinOp
  by_cases h : call.1 = .success <;> simp [h]

/-! ### The two products -/

/-- The entries that the sparse kernel multiplies are the source that was packed. -/
theorem expandedEntry_of_packed {A : SparseMatrix} {dense : ℕ → UInt8} {ld planes : ℕ}
    (hpacked : packSparseA4To2 A.desc dense ld = .ok (A.packedValues, A.packedIndices))
    (hvalid : sparseContractValid A.desc = some planes) (mode : BuiltinMode) {plane row kk : ℕ}
    (hplane : plane < planes) (hrow : row < A.desc.rows) (hkk : kk < A.desc.expandedK) :
    expandedEntry mode A.packedValues A.packedIndices A.desc.rows A.desc.expandedK plane row kk =
      rawValue mode (dense ((plane * A.desc.rows + row) * ld + kk)) := by
  obtain ⟨-, -, -, hK⟩ := sparseContractValid_spec hvalid
  have hin : plane * A.desc.rows + row < planes * A.desc.rows := RowMajor.offset_lt hrow hplane
  have hgroup := packSparseA4To2_ok hvalid (packSparseA4To2_valid hpacked).1 hpacked _
    (group_lt hvalid hin hkk)
  obtain ⟨hwell, hlanes⟩ := expandLane_packGroup hgroup
  have hoffset : groupOffset plane A.desc.rows (A.desc.expandedK / 4) row (kk / 4) =
      (plane * A.desc.rows + row) * A.desc.groupsPerRow + kk / 4 := rfl
  unfold expandedEntry
  simp only [hoffset]
  rw [groupEntry_eq_expandLane mode hwell, hlanes _ (Nat.mod_lt _ (by decide)),
    groupLanes_cell dense hK hkk]

/-- A dense operand whose residues are those of the expansion has the same targets. -/
theorem denseTarget_eq_sparseTarget {mode : BuiltinMode} {aValues aIndices : ℕ → UInt8}
    {a b : ℕ → Int8} {m k ldb plane row : ℕ}
    (h : ∀ kk < k, (a ((plane * m + row) * k + kk)).toInt ≡
      expandedEntry mode aValues aIndices m k plane row kk [ZMOD mode.cellModulus plane]) (col : ℕ) :
    denseTarget mode a b m k k ldb plane row col =
      sparseTarget mode aValues aIndices b m k ldb plane row col := by
  refine reduceToCentered_congr (sum_modEq fun kk hkk => Int.ModEq.mul_right _ ?_)
  have hoffset : plane * (m * k) + row * k + kk = (plane * m + row) * k + kk := by ring
  rw [denseEntry, hoffset]
  exact h kk (mem_range.1 hkk)

section Launches

variable {u : MatrixUnits} {dev : BuiltinDevice} {mode : BuiltinMode} {variant : DenseKernelVariant}
  {aValues aIndices : ℕ → UInt8} {a b : ℕ → Int8} {m n k ldb ldc : ℕ}
  {sparseOrder denseOrder : WaveOrder mode.planes m n}

/-- The dense call succeeds where the sparse one does. -/
theorem amdgpuBuiltinsGemmDevice_of_sparse
    (h : (amdgpuBuiltinsGemmSparseADevice u dev mode aValues aIndices b m n k ldb ldc sparseOrder).1 =
      .success) :
    (amdgpuBuiltinsGemmDevice u dev mode variant a b m n k k ldb ldc denseOrder).1 = .success := by
  obtain ⟨⟨hshape, hvalid, hsafe⟩, hsel, hok, hkind, -⟩ :=
    amdgpuBuiltinsGemmSparseADevice_success_iff.1 h
  refine amdgpuBuiltinsGemmDevice_success_iff.2 ⟨⟨?_, hvalid, hsafe⟩, hsel, hok, hkind⟩
  simp only [validSparseShape, validDenseShape, Bool.and_eq_true, decide_eq_true_eq] at hshape ⊢
  tauto

/-- The sparse call succeeds where the dense one does, unless the processor is an RDNA3 one, for which
there is no sparse kernel. -/
theorem amdgpuBuiltinsGemmSparseADevice_of_dense (hfour : k % 4 = 0)
    (hkind : detectArchKind dev.arch ≠ .rdna3)
    (h : (amdgpuBuiltinsGemmDevice u dev mode variant a b m n k k ldb ldc denseOrder).1 = .success) :
    (amdgpuBuiltinsGemmSparseADevice u dev mode aValues aIndices b m n k ldb ldc sparseOrder).1 =
      .success := by
  obtain ⟨⟨hshape, hvalid, hsafe⟩, hsel, hok, hsupported⟩ := amdgpuBuiltinsGemmDevice_success_iff.1 h
  refine amdgpuBuiltinsGemmSparseADevice_success_iff.2
    ⟨⟨?_, hvalid, hsafe⟩, hsel, hok, hsupported, hkind⟩
  have hfour' : (k : ℤ) % 4 = 0 := by omega
  simp only [validSparseShape, validDenseShape, Bool.and_eq_true, decide_eq_true_eq] at hshape ⊢
  tauto

/-- **The two kernels leave the same residues** on the processors they are built for. -/
theorem builtinOp_agree (hdoc : u.Documented) (hbuilt : builtFor dev.arch = true)
    (hentries : ∀ plane < mode.planes, ∀ row < m, ∀ kk < k, (a ((plane * m + row) * k + kk)).toInt ≡
      expandedEntry mode aValues aIndices m k plane row kk [ZMOD mode.cellModulus plane])
    (h : (amdgpuBuiltinsGemmSparseADevice u dev mode aValues aIndices b m n k ldb ldc sparseOrder).1 =
      .success) (cell : ℕ → Int8) :
    builtinOp (amdgpuBuiltinsGemmDevice u dev mode variant a b m n k k ldb ldc denseOrder) cell =
      builtinOp (amdgpuBuiltinsGemmSparseADevice u dev mode aValues aIndices b m n k ldb ldc
        sparseOrder) cell := by
  have hdense : (amdgpuBuiltinsGemmDevice u dev mode variant a b m n k k ldb ldc denseOrder).1 =
      .success := amdgpuBuiltinsGemmDevice_of_sparse h
  have hstores := (amdgpuBuiltinsGemmDevice_storedOnce_iff hdoc hdense).2 hbuilt
  have hstores' := (amdgpuBuiltinsGemmSparseADevice_storedOnce_iff hdoc h).2 hbuilt
  unfold builtinOp
  rw [hstores.storeResidues_eq hstores' fun plane hplane row hrow col _ =>
    denseTarget_eq_sparseTarget (hentries plane hplane row hrow) col]
  simp only [hdense, h]

end Launches

end Rns8
