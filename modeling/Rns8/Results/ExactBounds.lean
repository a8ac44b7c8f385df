import Rns8.Exact.Range

/-!
# Range proofs compose

The bound that `exact_axis_product_bound` derives from two true summaries bounds the dot product and
is never worse than the product of the maxima. What `exact_gemm_bound` computes for a product is
again a true proof, so that the proofs of a whole tree of GEMMs (`ProductTree`) are true.
-/

namespace Rns8

open Finset

/-! ### The scalar bound -/

/-- **The product bound only tightens** the bound from the two largest magnitudes. -/
theorem exactAxisProductBound_le_scalar (a b : AxisRange) (k : ℕ) :
    exactAxisProductBound a b k ≤ k * a.maxMagnitude * b.maxMagnitude := by
  unfold exactAxisProductBound
  simp only [tightenExactBound_eq_min]
  split
  · exact (min_le_left _ _).trans ((min_le_left _ _).trans (min_le_left _ _))
  · exact (min_le_left _ _).trans (min_le_left _ _)

/-- The largest magnitude in the summary of a packed axis is at most every bound of its cells. -/
theorem nativeExactAxis_maxMagnitude_le {n : ℕ} {value : ℕ → ℤ} {M : ℤ} (h0 : 0 ≤ M)
    (h : ∀ i < n, |value i| ≤ M) : (nativeExactAxis n value).maxMagnitude ≤ M := by
  change ((List.range n).foldl
    (fun axis i => addExactNativeValue axis (value i) (decide (i = 0))) {}).maxMagnitude ≤ M
  refine LoopFold.foldl_invariant (I := fun axis : AxisRange => axis.maxMagnitude ≤ M) ?_ h0
  intro axis i hi haxis
  exact max_le haxis (h i (List.mem_range.1 hi))

/-- Packed axes: the product bound is at most the bound from the true maxima. -/
theorem exactAxisProductBound_native_le {k : ℕ} {u v : ℕ → ℤ} {M N : ℤ} (hM0 : 0 ≤ M) (hN0 : 0 ≤ N)
    (hM : ∀ i < k, |u i| ≤ M) (hN : ∀ i < k, |v i| ≤ N) :
    exactAxisProductBound (nativeExactAxis k u) (nativeExactAxis k v) k ≤ k * M * N := by
  refine (exactAxisProductBound_le_scalar _ _ k).trans ?_
  have hk : (0 : ℤ) ≤ k := Int.natCast_nonneg k
  have ha := nativeExactAxis_maxMagnitude_le hM0 hM
  have hb := nativeExactAxis_maxMagnitude_le hN0 hN
  have hb0 := (nativeExactAxis_bounds k v).nonneg
  calc (k : ℤ) * (nativeExactAxis k u).maxMagnitude * (nativeExactAxis k v).maxMagnitude
      ≤ k * M * (nativeExactAxis k v).maxMagnitude :=
        mul_le_mul_of_nonneg_right (mul_le_mul_of_nonneg_left ha hk) hb0
    _ ≤ k * M * N := mul_le_mul_of_nonneg_left hb (mul_nonneg hk hM0)

/-! ### The proof of a product -/

/-- The maximum over the output cells starts at `0`. -/
theorem exactGemmBound_nonneg_of_scalar {plan : Plan} {A B : RnsMatrix}
    (hbase : 0 ≤ plan.desc.k * A.exactMaxMagnitude * B.exactMaxMagnitude) :
    0 ≤ (exactGemmBound plan A B).1 := by
  unfold exactGemmBound
  dsimp only
  split
  · refine le_tightenExactBound hbase ?_
    refine LoopFold.foldl_invariant (I := fun m : ℤ => 0 ≤ m) (fun m row _ hm => ?_) (le_refl 0)
    exact LoopFold.foldl_invariant (I := fun m : ℤ => 0 ≤ m)
      (fun m col _ hm => le_max_of_le_left hm) hm
  · exact hbase

theorem exactGemmBound_nonneg {plan : Plan} {A B : RnsMatrix} (hA : 0 ≤ A.exactMaxMagnitude)
    (hB : 0 ≤ B.exactMaxMagnitude) : 0 ≤ (exactGemmBound plan A B).1 :=
  exactGemmBound_nonneg_of_scalar (mul_nonneg (mul_nonneg (Int.natCast_nonneg _) hA) hB)

/-- The operands that a product takes under a plan. -/
structure ProductShape (plan : Plan) (A B C : RnsMatrix) : Prop where
  semantics : exactWideSemantics plan.desc.semantics = true
  a_rows : A.desc.rows = plan.desc.m
  a_cols : A.desc.cols = plan.desc.k
  b_rows : B.desc.rows = plan.desc.k
  b_cols : B.desc.cols = plan.desc.n
  c_rows : C.desc.rows = plan.desc.m
  c_cols : C.desc.cols = plan.desc.n

/-- The output `C` with the range that `exact_gemm_bound` computes for it. -/
def provenProduct (plan : Plan) (A B C : RnsMatrix) : RnsMatrix :=
  commitExactRange C plan (exactGemmBound plan A B).1 (exactGemmBound plan A B).2

@[simp] theorem provenProduct_desc (plan : Plan) (A B C : RnsMatrix) :
    (provenProduct plan A B C).desc = C.desc := commitExactRange_desc _ _ _ _

/-- **The committed range of a product is a true proof.** -/
theorem exactProof_provenProduct {plan : Plan} {A B C : RnsMatrix} {u v : ℕ → ℕ → ℤ}
    (hA : ExactProof A u) (hB : ExactProof B v) (hshape : ProductShape plan A B C) :
    ExactProof (provenProduct plan A B C) (matProduct plan.desc.k u v) := by
  obtain ⟨hbound, hranges⟩ := exactGemmBound_sound hA hB hshape.a_rows hshape.a_cols hshape.b_rows
    hshape.b_cols
  have hnonneg := @exactGemmBound_nonneg plan _ _ hA.nonneg hB.nonneg
  unfold provenProduct commitExactRange
  rw [if_pos hshape.semantics]
  refine ⟨hnonneg, fun r hr c hc => hbound r ?_ c ?_, ?_⟩
  · rw [← hshape.c_rows]
    exact hr
  · rw [← hshape.c_cols]
    exact hc
  · rw [← hshape.c_rows, ← hshape.c_cols] at hranges
    exact hranges

/-! ### Trees of products -/

/-- A tree of exact-wide products. -/
inductive ProductTree
  /-- A matrix with the integers it stands for. -/
  | operand (matrix : RnsMatrix) (value : ℕ → ℕ → ℤ)
  /-- A matrix whose range `native_exact_ranges` computes from the integers packed into it. -/
  | packed (matrix : RnsMatrix) (value : ℕ → ℕ → ℤ)
  /-- The product of two trees under a plan, written to `C`. -/
  | product (plan : Plan) (C : RnsMatrix) (a b : ProductTree)

namespace ProductTree

/-- The integers at the root. -/
def value : ProductTree → ℕ → ℕ → ℤ
  | operand _ value => value
  | packed _ value => value
  | product plan _ a b => matProduct plan.desc.k a.value b.value

/-- The matrix at the root, with the range the code computes for it. -/
def matrix : ProductTree → RnsMatrix
  | operand matrix _ => matrix
  | packed matrix value =>
    let ranges := nativeExactRanges matrix.desc.rows matrix.desc.cols value
    { matrix with exactMaxMagnitude := ranges.2, exactAxisRanges := ranges.1 }
  | product plan C a b => provenProduct plan a.matrix b.matrix C

/-- The operands at the leaves have true proofs, and the dimensions of every product agree. -/
def Valid : ProductTree → Prop
  | operand matrix value => ExactProof matrix value
  | packed _ _ => True
  | product plan C a b => ProductShape plan a.matrix b.matrix C ∧ a.Valid ∧ b.Valid

/-- **Proofs compose to any depth.** -/
theorem exactProof (tree : ProductTree) (h : tree.Valid) : ExactProof tree.matrix tree.value := by
  induction tree with
  | operand matrix value => exact h
  | packed matrix value =>
    obtain ⟨hranges, hmax⟩ := nativeExactRanges_bounds matrix.desc.rows matrix.desc.cols value
    exact ⟨nativeExactRanges_nonneg _ _ _, hmax, hranges⟩
  | product plan C a b iha ihb =>
    obtain ⟨hshape, ha, hb⟩ := h
    exact exactProof_provenProduct (iha ha) (ihb hb) hshape

end ProductTree

/-- **Exact product bounds are sound and compose.** -/
theorem exactBounds_sound_and_compose :
    (∀ (k : ℕ) (u v : ℕ → ℤ) (a b : AxisRange), a.Bounds k u → b.Bounds k v →
      |∑ i ∈ range k, u i * v i| ≤ exactAxisProductBound a b k ∧
        exactAxisProductBound a b k ≤ k * a.maxMagnitude * b.maxMagnitude) ∧
    (∀ (k : ℕ) (u v : ℕ → ℤ) (M N : ℤ), 0 ≤ M → 0 ≤ N → (∀ i < k, |u i| ≤ M) →
      (∀ i < k, |v i| ≤ N) →
      exactAxisProductBound (nativeExactAxis k u) (nativeExactAxis k v) k ≤ k * M * N) ∧
    (∀ (plan : Plan) (A B C : RnsMatrix) (u v : ℕ → ℕ → ℤ), ExactProof A u → ExactProof B v →
      ProductShape plan A B C →
      (∀ row < plan.desc.m, ∀ col < plan.desc.n,
        |matProduct plan.desc.k u v row col| ≤ (exactGemmBound plan A B).1) ∧
      (exactGemmBound plan A B).2.Bounds plan.desc.m plan.desc.n (matProduct plan.desc.k u v) ∧
      ExactProof (provenProduct plan A B C) (matProduct plan.desc.k u v)) ∧
    ∀ tree : ProductTree, tree.Valid → ExactProof tree.matrix tree.value := by
  refine ⟨fun k u v a b ha hb => ⟨exactAxisProductBound_sound ha hb,
    exactAxisProductBound_le_scalar a b k⟩, fun k u v M N hM0 hN0 hM hN =>
      exactAxisProductBound_native_le hM0 hN0 hM hN, fun plan A B C u v hA hB hshape => ?_,
    ProductTree.exactProof⟩
  obtain ⟨hbound, hranges⟩ := exactGemmBound_sound hA hB hshape.a_rows hshape.a_cols hshape.b_rows
    hshape.b_cols
  exact ⟨hbound, hranges, exactProof_provenProduct hA hB hshape⟩

/-- The axes `-3, 5` and `2, 7`: the dot product `29` against the bounds. -/
theorem exactBounds_of_two_cells :
    let u : ℕ → ℤ := fun i => if i = 0 then -3 else 5
    let v : ℕ → ℤ := fun i => if i = 0 then 2 else 7
    |∑ i ∈ range 2, u i * v i| ≤ exactAxisProductBound (nativeExactAxis 2 u) (nativeExactAxis 2 v) 2 ∧
      exactAxisProductBound (nativeExactAxis 2 u) (nativeExactAxis 2 v) 2 ≤ 2 * 5 * 7 :=
  exactBounds_sound_and_compose.1 2 _ _ _ _ (nativeExactAxis_bounds 2 _) (nativeExactAxis_bounds 2 _)

end Rns8
