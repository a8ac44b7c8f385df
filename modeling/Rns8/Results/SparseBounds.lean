import Rns8.Api.CpuCalls
import Rns8.Results.ExactBounds

/-!
# The range proofs of sparse and dense GEMMs

A sparse GEMM proves its range from the two magnitudes only, a dense one also from the summaries of
its operands. On operands with the same magnitudes the dense check accepts what the sparse one
accepts, with a bound that is not larger.
-/

namespace Rns8

/-- The two outputs differ at most in the recorded bound and the summaries; the sparse bound is not
the smaller one. -/
structure SparseOutput (plan : Plan) (sparse dense : RnsMatrix) : Prop where
  same : sparse = { dense with
    exactMaxMagnitude := sparse.exactMaxMagnitude
    exactAxisRanges := sparse.exactAxisRanges }
  bound_le : dense.exactMaxMagnitude ≤ sparse.exactMaxMagnitude
  bounded : exactWideSemantics plan.desc.semantics = false → sparse = dense

/-- What the sparse range check accepts. -/
theorem sparseGemmRange_ok {plan : Plan} {A : SparseMatrix} {b c : Handle} {B : RnsMatrix} {bound : ℤ}
    (h : sparseGemmRange plan A b c B = .ok bound)
    (hexact : exactWideSemantics plan.desc.semantics = true) :
    bound = plan.desc.k * A.exactMaxMagnitude * B.exactMaxMagnitude := by
  unfold sparseGemmRange at h
  rw [hexact, Bool.not_true, if_neg Bool.false_ne_true] at h
  split at h
  · cases h
  · split at h
    · cases h
    · dsimp only at h
      split at h
      · exact (Except.ok.inj h).symm
      · cases h

/-- The bound of the dense check is at most the product of the magnitudes. -/
theorem exactGemmBound_le (plan : Plan) (A B : RnsMatrix) :
    (exactGemmBound plan A B).1 ≤ plan.desc.k * A.exactMaxMagnitude * B.exactMaxMagnitude := by
  unfold exactGemmBound
  dsimp only
  split
  · rw [tightenExactBound_eq_min]
    exact min_le_left _ _
  · exact le_rfl

theorem exactGemmRange_ok {plan : Plan} {A B : RnsMatrix} {range : ℤ × MatrixRanges}
    (h : exactGemmRange plan A B = .ok range)
    (hexact : exactWideSemantics plan.desc.semantics = true) : range = exactGemmBound plan A B := by
  unfold exactGemmRange at h
  rw [hexact, Bool.not_true, if_neg Bool.false_ne_true] at h
  split at h
  · cases h
  · dsimp only at h
    split at h
    · exact (Except.ok.inj h).symm
    · cases h

/-- The sparse range check separates `B` from the output and compares the prefixes. -/
theorem sparseGemmRange_prefixes {plan : Plan} {A : SparseMatrix} {b c : Handle} {B : RnsMatrix}
    {bound : ℤ} (h : sparseGemmRange plan A b c B = .ok bound)
    (hexact : exactWideSemantics plan.desc.semantics = true) :
    b ≠ c ∧ ¬ (A.exactRangePrefix < plan.rnsPrefix ∨ B.exactRangePrefix < plan.rnsPrefix) := by
  unfold sparseGemmRange at h
  rw [hexact, Bool.not_true, if_neg Bool.false_ne_true] at h
  split at h
  · cases h
  · next hbc =>
    split at h
    · cases h
    · next hprefixes => exact ⟨hbc, hprefixes⟩

theorem sparseGemmRange_fits {plan : Plan} {A : SparseMatrix} {b c : Handle} {B : RnsMatrix}
    {bound : ℤ} (h : sparseGemmRange plan A b c B = .ok bound)
    (hexact : exactWideSemantics plan.desc.semantics = true) :
    exactRangeFits plan.desc.semantics bound plan.modulusProduct = true := by
  unfold sparseGemmRange at h
  rw [hexact, Bool.not_true, if_neg Bool.false_ne_true] at h
  split at h
  · cases h
  · split at h
    · cases h
    · dsimp only at h
      split at h
      · next hfits => exact Except.ok.inj h ▸ hfits
      · cases h

/-- **The dense check accepts what the sparse one accepts**, on a left operand with the same proof. -/
theorem exactGemmRange_of_sparse {plan : Plan} {A : SparseMatrix} {b c : Handle} {D B : RnsMatrix}
    {bound : ℤ} (h : sparseGemmRange plan A b c B = .ok bound)
    (hmagnitude : D.exactMaxMagnitude = A.exactMaxMagnitude)
    (hpre : D.exactRangePrefix = A.exactRangePrefix) :
    ∃ range, exactGemmRange plan D B = .ok range := by
  by_cases hexact : exactWideSemantics plan.desc.semantics = true
  · obtain ⟨hbound, hfits⟩ := exactRangeFits_iff.1 (sparseGemmRange_fits h hexact)
    have heq := sparseGemmRange_ok h hexact
    -- the dense call may take a sharper bound than the scalar one of the sparse call, never a
    -- wider one
    have hle := exactGemmBound_le plan D B
    rw [hmagnitude, ← heq] at hle
    have hnonneg : 0 ≤ (exactGemmBound plan D B).1 :=
      exactGemmBound_nonneg_of_scalar (by rw [hmagnitude, ← heq]; exact hbound)
    have hfits' : exactRangeFits plan.desc.semantics (exactGemmBound plan D B).1
        plan.modulusProduct = true := by
      refine exactRangeFits_iff.2 ⟨hnonneg, ?_⟩
      split at hfits
      · next hsigned =>
        rw [if_pos hsigned]
        omega
      · next hunsigned =>
        rw [if_neg hunsigned]
        omega
    have hprefixes : ¬ (D.exactRangePrefix < plan.rnsPrefix ∨
        B.exactRangePrefix < plan.rnsPrefix) := by
      rw [hpre]
      exact (sparseGemmRange_prefixes h hexact).2
    refine ⟨exactGemmBound plan D B, ?_⟩
    unfold exactGemmRange
    rw [hexact, Bool.not_true, if_neg Bool.false_ne_true, if_neg hprefixes]
    dsimp only
    rw [if_pos hfits']
  · refine ⟨(0, {}), ?_⟩
    rw [exactGemmRange, if_pos (by simpa using hexact)]

end Rns8
