import Rns8.Api.SparsePack
import Rns8.Cpu.Renaming
import Rns8.Results.SparseDeviceFinite

/-!
# Sparse left operands against dense ones

The sparse form of a matrix is another name for it: packing accepts exactly the matrices with two
nonzero residues in every group of four, expanding accepts exactly the canonical stored groups, and
each undoes the other. A sparse GEMM leaves what the dense GEMM leaves when its left operand is the
expanded matrix behind a handle of its own. Only the range proof differs: the sparse
call multiplies the two magnitudes and keeps no summaries, so that its bound is sound but may be
looser than the dense one, and a product that only the summaries prove is refused.
-/

namespace Rns8

/-! ### One kernel, two handles -/

section Kernel

variable {a a' b c : Handle} (hb : a ≠ b) (hc : a ≠ c) (hb' : a' ≠ b) (hc' : a' ≠ c)
  {mem mem' : Planes Handle} (hA : mem a = mem' a') (hB : mem b = mem' b) (hC : mem c = mem' c)
include hb hc hb' hc' hA hB hC

theorem cpuGemmRns_left_handle (env : CpuEnv) (plan : Plan) (A B C : RnsMatrix) :
    (cpuGemmRns env plan a b c A B C mem).1 = (cpuGemmRns env plan a' b c A B C mem').1 ∧
      (cpuGemmRns env plan a b c A B C mem).2 c = (cpuGemmRns env plan a' b c A B C mem').2 c := by
  unfold cpuGemmRns
  split
  · exact ⟨rfl, hC⟩
  · simp only
    split
    · exact ⟨rfl, hC⟩
    · exact kernelLoop_left_handle hb hc hb' hc' hA hB hC plan A B C modulusAt env 0 _

theorem cpuGemmFiniteU8_left_handle (env : CpuEnv) (plan : Plan) (modulus : ℕ) (A B C : RnsMatrix) :
    (cpuGemmFiniteU8 env plan modulus a b c A B C mem).1 =
        (cpuGemmFiniteU8 env plan modulus a' b c A B C mem').1 ∧
      (cpuGemmFiniteU8 env plan modulus a b c A B C mem).2 c =
        (cpuGemmFiniteU8 env plan modulus a' b c A B C mem').2 c := by
  unfold cpuGemmFiniteU8
  split
  · exact ⟨rfl, hC⟩
  · exact kernelLoop_left_handle hb hc hb' hc' hA hB hC plan A B C (fun _ => modulus) env 0 _

end Kernel

/-! ### Residue GEMMs -/

section Rns

variable {env : GemmEnv} {ctx : Context} {plan : Plan} {workspace : Workspace} {A : SparseMatrix}
  {a b c : Handle} {s : Store}

/-- The memory of the two calls agrees on the buffers they use. -/
private theorem planesWith_agree {dense : RnsMatrix} (ha : s a = some dense) :
    s.planes a = s.planesWith b c dense (temporary b c) ∧
      s.planes b = s.planesWith b c dense b ∧ s.planes c = s.planesWith b c dense c := by
  obtain ⟨hb, hc⟩ := temporary_ne b c
  refine ⟨?_, ?_, ?_⟩
  · rw [planes_of_some ha, Store.planesWith, Function.update_self]
  · rw [Store.planesWith, Function.update_of_ne hb.symm]
  · rw [Store.planesWith, Function.update_of_ne hc.symm]

/-- Validation looks at the handles only to see whether an operand is the output. -/
theorem validateRnsGemmOperands_left_handle {a' : Handle} (hc : a ≠ c) (hc' : a' ≠ c)
    (D B C : RnsMatrix) : validateRnsGemmOperands ctx plan a b c D B C =
      validateRnsGemmOperands ctx plan a' b c D B C := by
  simp only [validateRnsGemmOperands, hc, hc', false_or]

/-- Accepted operands of a residue GEMM on the CPU have a range proof. -/
theorem validateRnsGemmOperands_range (hcpu : plan.backend = .cpuReference) {D B C : RnsMatrix}
    (h : validateRnsGemmOperands ctx plan a b c D B C = .success) :
    ∃ range, exactGemmRange plan D B = .ok range := by
  cases hrange : exactGemmRange plan D B with
  | ok range => exact ⟨range, rfl⟩
  | error status =>
    have hexact : exactWideSemantics plan.desc.semantics = true := by
      by_contra hno
      rw [exactGemmRange, if_pos (by simpa using hno)] at hrange
      cases hrange
    have hsep := (validateRnsGemmOperands_cpu hcpu h).separate hexact
    unfold validateRnsGemmOperands at h
    rw [if_neg (by rw [hcpu]; decide : ¬ nativeVectorBackend plan.backend = true),
      if_neg (by simp [hcpu] : ¬ (plan.backend = .hipDirect ∧ planAllZeroOutputTiles plan = true)),
      if_pos hexact, if_neg (not_or.2 hsep), hrange] at h
    split at h
    · cases h
    · split at h
      · cases h
      · split at h
        · cases h
        · split at h
          · cases h
          · split at h
            · cases h
            · exact absurd h (exactGemmRange_error hrange)

/-- An accepted residue GEMM runs the CPU branch. -/
theorem rns8GemmRns_of_accepted (env : GemmEnv) (hcpu : plan.backend = .cpuReference)
    {D B C : RnsMatrix} {range : ℤ × MatrixRanges}
    (h : GemmRnsCall ctx plan workspace a b c s D B C range) :
    rns8GemmRns env ctx plan workspace a b c s =
      ((cpuBranchGemmRns env plan a b c D B (preparedOutput plan C) range s).1,
        s.set c (cpuBranchGemmRns env plan a b c D B (preparedOutput plan C) range s).2) := by
  have htrusted : (decide (plan.backend = .hipDirect) && planAllZeroOutputTiles plan) = false := by
    simp [hcpu]
  have hlive : ¬ (s a = none ∨ s b = none ∨ s c = none) := by simp [h.left, h.right, h.out]
  have hrun : gemmRnsOperands env ctx plan a b c D B C s =
      cpuBranchGemmRns env plan a b c D B (preparedOutput plan C) range s := by
    simp only [gemmRnsOperands, h.operands, h.range, ne_eq, not_true, if_false, dispatchGemmRns,
      hcpu, preparedOutput]
  unfold rns8GemmRns
  rw [if_neg hlive]
  simp only
  rw [h.workspace, onSuccess_success, htrusted, if_neg Bool.false_ne_true,
    ensureInputCurrent_cpu _ _ hcpu h.left, onSuccess_success,
    ensureInputCurrent_cpu _ _ hcpu h.right, onSuccess_success,
    withOperands_some h.left h.right h.out, hrun]

/-- The outputs of the two branches. -/
theorem sparseBranch_agrees (env : GemmEnv) {B : RnsMatrix} (C : RnsMatrix) (hb : a ≠ b)
    (hc : a ≠ c) (ha : s a = some (makeSparseExpandedRnsMatrix A plan)) {bound : ℤ}
    {range : ℤ × MatrixRanges} (hbound : sparseGemmRange plan A b c B = .ok bound)
    (hrange : exactGemmRange plan (makeSparseExpandedRnsMatrix A plan) B = .ok range) :
    (sparseBranch env plan A b c B C bound s).1 =
        (cpuBranchGemmRns env plan a b c (makeSparseExpandedRnsMatrix A plan) B C range s).1 ∧
      ((sparseBranch env plan A b c B C bound s).1 = .success →
        SparseOutput plan (sparseBranch env plan A b c B C bound s).2
          (cpuBranchGemmRns env plan a b c (makeSparseExpandedRnsMatrix A plan) B C range s).2) := by
  obtain ⟨htb, htc⟩ := temporary_ne b c
  obtain ⟨hA, hB, hC⟩ := planesWith_agree ha
  obtain ⟨hst, hcell⟩ := cpuGemmRns_left_handle hb hc htb htc hA hB hC env.cpu plan
    (makeSparseExpandedRnsMatrix A plan) B C
  unfold sparseBranch cpuBranchGemmRns
  generalize cpuGemmRns env.cpu plan a b c (makeSparseExpandedRnsMatrix A plan) B C s.planes = dense
    at hst hcell
  generalize cpuGemmRns env.cpu plan (temporary b c) b c (makeSparseExpandedRnsMatrix A plan) B C
    (s.planesWith b c (makeSparseExpandedRnsMatrix A plan)) = sparse at hst hcell
  obtain ⟨status, mem⟩ := dense
  obtain ⟨status', mem'⟩ := sparse
  obtain rfl : status = status' := hst
  cases status with
  | success =>
    refine ⟨rfl, fun _ => ?_⟩
    dsimp only
    rw [← show mem c = mem' c from hcell]
    by_cases hexact : exactWideSemantics plan.desc.semantics = true
    · refine ⟨?_, ?_, fun hno => by rw [hexact] at hno; cases hno⟩
      · simp only [commitExactRange, if_pos hexact]
        rfl
      · simp only [commitExactRange, if_pos hexact, sparseGemmRange_ok hbound hexact,
          exactGemmRange_ok hrange hexact]
        exact exactGemmBound_le plan (makeSparseExpandedRnsMatrix A plan) B
    · simp only [commitExactRange, if_neg hexact]
      exact ⟨rfl, le_rfl, fun _ => rfl⟩
  | _ => exact ⟨rfl, fun h => by cases h⟩

/-- **A sparse residue GEMM leaves what the dense one leaves** on the expanded operand. -/
theorem rns8GemmRnsSparseA_dense (hcpu : plan.backend = .cpuReference) (hb : a ≠ b) (hc : a ≠ c)
    (ha : s a = some (makeSparseExpandedRnsMatrix A plan))
    (h : (rns8GemmRnsSparseA env ctx plan workspace A b c s).1 = .success) :
    ∃ sparse dense, rns8GemmRnsSparseA env ctx plan workspace A b c s = (.success, s.set c sparse) ∧
      rns8GemmRns env ctx plan workspace a b c s = (.success, s.set c dense) ∧
      SparseOutput plan sparse dense := by
  rcases rns8GemmRnsSparseA_cpu env ctx workspace A b c s hcpu with ⟨hst, -⟩ |
    ⟨B, C, bound, hcall, heq⟩
  · exact absurd h hst
  have hops := hcall.operands
  rw [validateRnsGemmOperands_left_handle (temporary_ne b c).2 hc] at hops
  obtain ⟨range, hrange⟩ : ∃ range,
      exactGemmRange plan (makeSparseExpandedRnsMatrix A plan) B = .ok range :=
    validateRnsGemmOperands_range hcpu hops
  have hdense := rns8GemmRns_of_accepted env hcpu
    ⟨ha, hcall.right, hcall.out, hcall.workspace, hops, hrange⟩
  obtain ⟨hst, hout⟩ := sparseBranch_agrees env (preparedOutput plan C) hb hc ha
    hcall.range hrange
  rw [heq] at h
  refine ⟨_, _, by rw [heq, ← h], ?_, hout h⟩
  rw [hdense, ← hst, h]

/-- The left operand of an accepted call is not empty. -/
theorem validateRnsGemmOperands_size (hcpu : plan.backend = .cpuReference) {D B C : RnsMatrix}
    (h : validateRnsGemmOperands ctx plan a b c D B C = .success) : D.residues.size ≠ 0 := by
  have hstorage := (validateRnsGemmOperands_resident (by rw [hcpu]; rfl) h).2.2
  simp only [rnsStoragesMatch, Bool.and_eq_true] at hstorage
  have hleft := hstorage.1.1
  unfold rnsMatrixStorageMatches at hleft
  split at hleft
  · cases hleft
  · split at hleft
    · cases hleft
    · next expected hcount =>
      obtain ⟨hm, hk, hp, hexpected⟩ := rnsResidueCount_eq_some hcount
      simp only [Bool.and_eq_true, decide_eq_true_eq] at hleft
      rw [hleft.1.1, hexpected]
      exact (Nat.mul_pos (Nat.mul_pos hm hk) hp).ne'

/-- **Where the dense call succeeds so does the sparse one**, if the magnitudes prove the range. -/
theorem rns8GemmRnsSparseA_of_dense (hcpu : plan.backend = .cpuReference) (hb : a ≠ b) (hc : a ≠ c)
    (ha : s a = some (makeSparseExpandedRnsMatrix A plan)) (hAcpu : A.backend = .cpuReference)
    (hcurrent : A.hostCurrent = true) (hstaged : env.staged = true)
    (hmatch : sparseRnsMatchesPlan A plan = true)
    (hfits : ∀ B ∈ s b, ∃ bound, sparseGemmRange plan A b c B = .ok bound)
    (h : (rns8GemmRns env ctx plan workspace a b c s).1 = .success) :
    (rns8GemmRnsSparseA env ctx plan workspace A b c s).1 = .success := by
  rcases rns8GemmRns_cpu env ctx workspace a b c s hcpu with ⟨hst, -⟩ |
    ⟨D, B, C, range, hcall, heq⟩
  · exact absurd h hst
  obtain rfl : makeSparseExpandedRnsMatrix A plan = D := Option.some.inj (ha.symm.trans hcall.left)
  obtain ⟨bound, hbound⟩ := hfits B hcall.right
  have hops := hcall.operands
  rw [validateRnsGemmOperands_left_handle hc (temporary_ne b c).2] at hops
  obtain ⟨hst, -⟩ := sparseBranch_agrees env (preparedOutput plan C) hb hc ha hbound
    hcall.range
  have hrun : gemmRnsSparseAOperands env ctx plan A b c B C s =
      sparseBranch env plan A b c B (preparedOutput plan C) bound s := by
    unfold gemmRnsSparseAOperands cpuGemmRnsSparseA
    simp only [hmatch, hbound, hcpu, hAcpu, and_self, if_true, hcurrent, hstaged, hops, ne_eq,
      not_true, if_false, Bool.not_true, Bool.false_eq_true, reduceCtorEq,
      validateRnsGemmOperands_size hcpu hcall.operands]
    rfl
  have hlive : ¬ (s b = none ∨ s c = none) := by simp [hcall.right, hcall.out]
  unfold rns8GemmRnsSparseA
  rw [if_neg hlive, hcall.workspace, onSuccess_success,
    withOperands_some hcall.right hcall.right hcall.out, hrun, hst]
  rw [heq] at h
  exact h

end Rns

/-! ### Finite GEMMs -/

section Finite

variable {env : GemmEnv} {ctx : Context} {plan : Plan} {workspace : Workspace} {modulus : ℕ}
  {A : SparseMatrix} {a b c : Handle} {s : Store}

/-- The two branches leave the same output. -/
theorem sparseFiniteBranch_agrees (ctx : Context) (hcpu : plan.backend = .cpuReference) (hb : a ≠ b) (hc : a ≠ c)
    (ha : s a = some (makeSparseExpandedFiniteMatrix A plan modulus)) (B C : RnsMatrix) :
    sparseFiniteBranch env plan modulus A b c B C s = dispatchGemmFiniteU8 env ctx plan modulus a b c
      (makeSparseExpandedFiniteMatrix A plan modulus) B C s := by
  obtain ⟨htb, htc⟩ := temporary_ne b c
  obtain ⟨hA, hB, hC⟩ := planesWith_agree (b := b) (c := c) ha
  obtain ⟨hst, hcell⟩ := cpuGemmFiniteU8_left_handle hb hc htb htc hA hB hC env.cpu plan modulus
    (makeSparseExpandedFiniteMatrix A plan modulus) B C
  unfold sparseFiniteBranch dispatchGemmFiniteU8
  simp only [hcpu]
  generalize cpuGemmFiniteU8 env.cpu plan modulus a b c
    (makeSparseExpandedFiniteMatrix A plan modulus) B C s.planes = dense at hst hcell
  generalize cpuGemmFiniteU8 env.cpu plan modulus (temporary b c) b c
    (makeSparseExpandedFiniteMatrix A plan modulus) B C
    (s.planesWith b c (makeSparseExpandedFiniteMatrix A plan modulus)) = sparse at hst hcell
  obtain ⟨status, mem⟩ := dense
  obtain ⟨status', mem'⟩ := sparse
  obtain rfl : status = status' := hst
  have hout : mem c = mem' c := hcell
  cases status with
  | success =>
    dsimp only
    rw [hout]
    rfl
  | _ =>
    dsimp only
    rw [hout]

/-- The left operand of an accepted finite call is not empty. -/
theorem validateFiniteGemmOperands_size {D B C : RnsMatrix}
    (h : validateFiniteGemmOperands ctx plan modulus D B C = .success) : D.residues.size ≠ 0 := by
  have hleft : finiteMatrixStorageMatches D plan.backend plan.desc.m plan.desc.k = true := by
    unfold validateFiniteGemmOperands at h
    split at h
    · cases h
    · split at h
      · cases h
      · split at h
        · cases h
        · split at h
          · cases h
          · next hmatch =>
            simp only [Bool.or_eq_true, Bool.not_eq_true', not_or, Bool.not_eq_false] at hmatch
            exact hmatch.1.1
  unfold finiteMatrixStorageMatches at hleft
  split at hleft
  · cases hleft
  · next expected hcount =>
    obtain ⟨hm, hk, hexpected⟩ := matrixCellCount_eq_some hcount
    simp only [Bool.and_eq_true, decide_eq_true_eq] at hleft
    rw [hleft.1.1.2, hexpected]
    exact (Nat.mul_pos hm hk).ne'

/-- **A sparse finite GEMM is the dense one** on the expanded operand. -/
theorem rns8GemmFiniteU8SparseA_dense (hcpu : plan.backend = .cpuReference) (hb : a ≠ b) (hc : a ≠ c)
    (ha : s a = some (makeSparseExpandedFiniteMatrix A plan modulus))
    (h : (rns8GemmFiniteU8SparseA env ctx plan workspace modulus A b c s).1 = .success) :
    rns8GemmFiniteU8 env ctx plan workspace modulus a b c s =
      rns8GemmFiniteU8SparseA env ctx plan workspace modulus A b c s := by
  have hws := rns8GemmFiniteU8SparseA_workspace h
  rcases rns8GemmFiniteU8SparseA_cpu env ctx workspace modulus A b c s hcpu with ⟨hst, -⟩ |
    ⟨B, C, hcall, heq⟩
  · exact absurd h hst
  have hlive : ¬ (s a = none ∨ s b = none ∨ s c = none) := by simp [ha, hcall.right, hcall.out]
  rw [heq, sparseFiniteBranch_agrees ctx hcpu hb hc ha B C]
  unfold rns8GemmFiniteU8
  rw [if_neg hlive, hws, onSuccess_success, withOperands_some ha hcall.right hcall.out]
  simp only [hcall.operands, ne_eq, not_true, if_false]

/-- **Where the dense finite call succeeds so does the sparse one.** -/
theorem rns8GemmFiniteU8SparseA_of_dense (hcpu : plan.backend = .cpuReference) (hb : a ≠ b)
    (hc : a ≠ c) (ha : s a = some (makeSparseExpandedFiniteMatrix A plan modulus))
    (hAcpu : A.backend = .cpuReference) (hcurrent : A.hostCurrent = true)
    (hstaged : env.staged = true) (hmatch : sparseFiniteMatchesPlan A plan modulus = true)
    (h : (rns8GemmFiniteU8 env ctx plan workspace modulus a b c s).1 = .success) :
    (rns8GemmFiniteU8SparseA env ctx plan workspace modulus A b c s).1 = .success := by
  have hws := rns8GemmFiniteU8_workspace h
  rcases rns8GemmFiniteU8_cpu env ctx plan workspace modulus a b c s with ⟨hst, -⟩ |
    ⟨D, B, C, hcall, heq⟩
  · exact absurd h hst
  obtain rfl : makeSparseExpandedFiniteMatrix A plan modulus = D :=
    Option.some.inj (ha.symm.trans hcall.left)
  have hrun : gemmFiniteU8SparseAOperands env ctx plan modulus A b c B C s =
      sparseFiniteBranch env plan modulus A b c B C s := by
    unfold gemmFiniteU8SparseAOperands cpuGemmFiniteU8SparseA
    simp only [hmatch, hcpu, hAcpu, and_self, if_true, hcurrent, hstaged, hcall.operands, ne_eq,
      not_true, if_false, Bool.not_true, Bool.false_eq_true, reduceCtorEq,
      validateFiniteGemmOperands_size hcall.operands]
    rfl
  have hlive : ¬ (s b = none ∨ s c = none) := by simp [hcall.right, hcall.out]
  unfold rns8GemmFiniteU8SparseA
  rw [if_neg hlive, hws, onSuccess_success, withOperands_some hcall.right hcall.right hcall.out, hrun,
    sparseFiniteBranch_agrees ctx hcpu hb hc ha B C]
  rw [heq] at h
  exact h

end Finite

/-! ### The range proof -/

/-- The product of two magnitudes and the inner dimension bounds a product. -/
theorem abs_matProduct_le {k row col : ℕ} {u v : ℕ → ℕ → ℤ} {boundA boundB : ℤ}
    (hu : ∀ i < k, |u row i| ≤ boundA) (hv : ∀ i < k, |v i col| ≤ boundB) :
    |matProduct k u v row col| ≤ k * boundA * boundB := by
  calc |matProduct k u v row col|
      ≤ ∑ i ∈ Finset.range k, |u row i * v i col| := Finset.abs_sum_le_sum_abs _ _
    _ ≤ ∑ _i ∈ Finset.range k, boundA * boundB := by
        refine Finset.sum_le_sum fun i hi => ?_
        have hi := Finset.mem_range.1 hi
        rw [abs_mul]
        exact mul_le_mul (hu i hi) (hv i hi) (abs_nonneg _) ((abs_nonneg _).trans (hu i hi))
    _ = k * boundA * boundB := by
        rw [Finset.sum_const, Finset.card_range, nsmul_eq_mul, mul_assoc]

/-- The proof that a sparse GEMM records: the product of the magnitudes, which fits the plan. -/
structure SparseProof (plan : Plan) (A : SparseMatrix) (B C : RnsMatrix) : Prop where
  magnitude : C.exactMaxMagnitude = plan.desc.k * A.exactMaxMagnitude * B.exactMaxMagnitude
  rangePrefix : C.exactRangePrefix = plan.rnsPrefix
  ranges : C.exactAxisRanges = {}
  fits : exactRangeFits plan.desc.semantics C.exactMaxMagnitude plan.modulusProduct = true

theorem sparseProof_commit {plan : Plan} {A : SparseMatrix} {b c : Handle} {B : RnsMatrix} {bound : ℤ}
    (h : sparseGemmRange plan A b c B = .ok bound)
    (hexact : exactWideSemantics plan.desc.semantics = true) (C : RnsMatrix) :
    SparseProof plan A B (commitExactRange C plan bound {}) := by
  simp only [commitExactRange, if_pos hexact]
  exact ⟨sparseGemmRange_ok h hexact, rfl, rfl, sparseGemmRange_fits h hexact⟩

theorem cpuGemmRnsSparseA_proof {env : GemmEnv} {ctx : Context} {plan : Plan} {A : SparseMatrix}
    {b c : Handle} {s : Store} {B C : RnsMatrix} {bound : ℤ}
    (hbound : sparseGemmRange plan A b c B = .ok bound)
    (hexact : exactWideSemantics plan.desc.semantics = true)
    (h : (cpuGemmRnsSparseA env ctx plan A b c B C bound s).1 = .success) :
    SparseProof plan A B (cpuGemmRnsSparseA env ctx plan A b c B C bound s).2 := by
  unfold cpuGemmRnsSparseA at h ⊢
  dsimp only at h ⊢
  split at h
  · cases h
  next h1 =>
  rw [if_neg h1]
  split at h
  · cases h
  next h2 =>
  rw [if_neg h2]
  split at h
  · cases h
  next h3 =>
  rw [if_neg h3]
  split at h
  · next hops => exact absurd h hops
  next hops =>
  rw [if_neg hops]
  simp only [if_pos hexact] at h ⊢
  split at h
  · exact sparseProof_commit hbound hexact _
  · next status mem hne hrun => exact absurd h hne

theorem deviceGemmRnsSparseA_proof {env : GemmEnv} {ctx : Context} {plan : Plan} {A : SparseMatrix}
    {b c : Handle} {B C : RnsMatrix} {bound : ℤ}
    (hbound : sparseGemmRange plan A b c B = .ok bound)
    (hexact : exactWideSemantics plan.desc.semantics = true)
    (h : (deviceGemmRnsSparseA env ctx plan A B C bound).1 = .success) :
    SparseProof plan A B (deviceGemmRnsSparseA env ctx plan A B C bound).2 := by
  unfold deviceGemmRnsSparseA at h ⊢
  dsimp only at h ⊢
  split at h
  · cases h
  next h1 =>
  rw [if_neg h1]
  split at h
  · cases h
  next h2 =>
  rw [if_neg h2]
  simp only [if_pos hexact] at h ⊢
  split at h
  · exact sparseProof_commit hbound hexact _
  · next status cell hne hrun => exact absurd h hne

/-- **The proof of a sparse GEMM**, on every backend. -/
theorem rns8GemmRnsSparseA_proof {env : GemmEnv} {ctx : Context} {plan : Plan} {workspace : Workspace}
    {A : SparseMatrix} {b c : Handle} {s : Store}
    (hexact : exactWideSemantics plan.desc.semantics = true)
    (h : (rns8GemmRnsSparseA env ctx plan workspace A b c s).1 = .success) :
    ∃ B ∈ s b, ∃ C, (rns8GemmRnsSparseA env ctx plan workspace A b c s).2 = s.set c C ∧
      SparseProof plan A B C := by
  have hws := rns8GemmRnsSparseA_workspace h
  unfold rns8GemmRnsSparseA at h ⊢
  split at h
  · cases h
  next hlive =>
  obtain ⟨B, -, C, hB, -, hC⟩ := exists_operands (a := b) (b := b) (c := c) (s := s) (by tauto)
  rw [if_neg hlive]
  rw [hws, onSuccess_success, withOperands_some hB hB hC] at h ⊢
  refine ⟨B, hB, _, rfl, ?_⟩
  unfold gemmRnsSparseAOperands at h ⊢
  split at h
  · cases h
  next hmatch =>
  rw [if_neg hmatch]
  split at h
  · next hrange => exact absurd h (sparseGemmRange_error hrange)
  next bound hrange =>
  split at h
  · next hbackend =>
    rw [if_pos hbackend]
    exact cpuGemmRnsSparseA_proof hrange hexact h
  next hcpu =>
  split at h
  · next hbackend =>
    rw [if_neg hcpu, if_pos hbackend]
    exact deviceGemmRnsSparseA_proof hrange hexact h
  · cases h

/-! ### The result -/

/-- The groups of all planes, one by one. -/
theorem forall_group_iff (planes rows groups : ℕ) (P : ℕ → Prop) :
    (∀ g < planes * rows * groups, P g) ↔ ∀ plane < planes, ∀ row < rows, ∀ group < groups,
      P ((plane * rows + row) * groups + group) := by
  constructor
  · intro h plane hplane row hrow group hgroup
    exact h _ (RowMajor.offset_lt hgroup (RowMajor.offset_lt hrow hplane))
  · intro h g hg
    have hgroups : 0 < groups := Nat.pos_of_ne_zero fun h0 => by
      rw [h0, Nat.mul_zero] at hg
      exact Nat.not_lt_zero _ hg
    have hquot : g / groups < planes * rows := Nat.div_lt_of_lt_mul (by rwa [Nat.mul_comm] at hg)
    have hrows : 0 < rows := Nat.pos_of_ne_zero fun h0 => by
      rw [h0, Nat.mul_zero] at hquot
      exact Nat.not_lt_zero _ hquot
    have hplane : g / groups / rows < planes := Nat.div_lt_of_lt_mul (by
      rwa [Nat.mul_comm] at hquot)
    have hcell := h _ hplane _ (Nat.mod_lt (g / groups) hrows) _ (Nat.mod_lt g hgroups)
    have hrow : g / groups / rows * rows + g / groups % rows = g / groups := by
      rw [Nat.mul_comm]
      exact Nat.div_add_mod _ _
    rw [hrow, Nat.mul_comm, Nat.div_add_mod] at hcell
    exact hcell

/-- Packing accepts a source exactly when each aligned group of four has two nonzero residues in
every plane. -/
def PackAccepts : Prop := ∀ (desc : SparseMatrixDesc) (planes ld : ℕ) (dense : ℕ → UInt8),
  sparseContractValid desc = some planes → desc.expandedK ≤ ld →
    ((packSparseA4To2 desc dense ld).isOk = true ↔ ∀ plane < planes, ∀ row < desc.rows,
      ∀ group < desc.groupsPerRow, nonzeroLanes (fun lane =>
        dense ((plane * desc.rows + row) * ld + group * 4 + lane)) = 2)

/-- Expanding accepts stored groups exactly when every index byte names two lanes in increasing order
and nothing else, and both values are nonzero. -/
def ExpandAccepts : Prop := ∀ (desc : SparseMatrixDesc) (planes ld : ℕ)
  (values indices dense : ℕ → UInt8), sparseContractValid desc = some planes →
    desc.expandedK ≤ ld → ((expandSparseInto desc values indices ld dense).isOk = true ↔
      ∀ g < desc.groups planes, (∃ i j, i < j ∧ j < 4 ∧ indices g = laneIndex i j) ∧
        values (g * 2) ≠ 0 ∧ values (g * 2 + 1) ≠ 0)

/-- Packing and expanding undo each other, whatever the leading dimensions. -/
def RoundTrips : Prop := ∀ (desc : SparseMatrixDesc) (planes ld ld' : ℕ),
  sparseContractValid desc = some planes → desc.expandedK ≤ ld → desc.expandedK ≤ ld' →
    (∀ (dense buffer : ℕ → UInt8) packed, packSparseA4To2 desc dense ld = .ok packed →
      ∃ expanded, expandSparseInto desc packed.1 packed.2 ld' buffer = .ok expanded ∧
        ∀ row < planes * desc.rows, ∀ col < desc.expandedK,
          expanded (row * ld' + col) = dense (row * ld + col)) ∧
    ∀ values indices buffer expanded : ℕ → UInt8,
      expandSparseInto desc values indices ld buffer = .ok expanded →
        ∃ packed, packSparseA4To2 desc expanded ld = .ok packed ∧ ∀ g < desc.groups planes,
          packed.1 (g * 2) = values (g * 2) ∧ packed.1 (g * 2 + 1) = values (g * 2 + 1) ∧
            packed.2 g = indices g

/-- A pack that succeeds leaves a matrix with the packed source in it, current on the device of a
device backend, from which the source is expanded again. -/
def PackStores : Prop := ∀ (env : SparsePackEnv) (ctx : Context) (matrix : SparseMatrix)
  (dense : ℕ → UInt8) (ld : ℕ) (version : UInt64),
    (rns8PackSparseA4To2Matrix env ctx matrix dense ld version).1 = .success →
      ∃ packed, rns8PackSparseA4To2Matrix env ctx matrix dense ld version = (.success, packed) ∧
        packed.HoldsPacked dense ld ∧ packed.desc = matrix.desc ∧ packed.backend = matrix.backend ∧
        packed.sourceVersion = version ∧
        packed.deviceCurrent = sparseDeviceBackendSupported matrix.backend ∧
        ∀ (planes ld' : ℕ) (buffer : ℕ → UInt8), sparseContractValid matrix.desc = some planes →
          matrix.desc.expandedK ≤ ld' →
          ∃ expanded, rns8ExpandSparseA4To2Matrix packed buffer ld' = .ok expanded ∧
            ∀ row < planes * matrix.desc.rows, ∀ col < matrix.desc.expandedK,
              expanded (row * ld' + col) = dense (row * ld + col)

/-- A failing pack leaves the matrix as it was, unless it is the upload or the cache key that fails:
then the matrix holds the new source, and a failed upload leaves no current device copy. -/
def PackKeepsMatrix : Prop := ∀ (env : SparsePackEnv) (ctx : Context) (matrix : SparseMatrix)
  (dense : ℕ → UInt8) (ld : ℕ) (version : UInt64),
    (rns8PackSparseA4To2Matrix env ctx matrix dense ld version).1 ≠ .success →
      (ctx.backend ≠ matrix.backend ∨ env.staged = false ∨
          (packSparseA4To2 matrix.desc dense ld).isOk = false ∨
          (sparseDeviceBackendSupported matrix.backend = false ∧ env.keyed = true) →
        (rns8PackSparseA4To2Matrix env ctx matrix dense ld version).2 = matrix) ∧
      ((rns8PackSparseA4To2Matrix env ctx matrix dense ld version).2 = matrix ∨
        (rns8PackSparseA4To2Matrix env ctx matrix dense ld version).2.HoldsPacked dense ld ∧
          (rns8PackSparseA4To2Matrix env ctx matrix dense ld version).2.sourceVersion = version ∧
          ((sparseDeviceBackendSupported matrix.backend = true ∧
              (rns8PackSparseA4To2Matrix env ctx matrix dense ld version).2.deviceCurrent = false) ∨
            env.keyed = false))

/-- The operand that a residue GEMM expands holds the planes of the plan of the packed source, and the
one that a finite GEMM expands its centered residues. -/
def ExpandedHolds : Prop := ∀ (A : SparseMatrix) (plan : Plan) (ld : ℕ) (dense : ℕ → UInt8),
  A.HoldsPacked dense ld →
    (sparseRnsMatchesPlan A plan = true → ∀ p < rnsStoragePrefixForPlan plan,
      ∀ row < plan.desc.m, ∀ col < plan.desc.k,
        (makeSparseExpandedRnsMatrix A plan).residues.cell
            (residueIndex (makeSparseExpandedRnsMatrix A plan) p row col) =
          (dense ((p * plan.desc.m + row) * ld + col)).toInt8) ∧
    ∀ modulus, sparseFiniteMatchesPlan A plan modulus = true →
      ∀ row < plan.desc.m, ∀ col < plan.desc.k,
        (makeSparseExpandedFiniteMatrix A plan modulus).residues.cell
            (residueIndex (makeSparseExpandedFiniteMatrix A plan modulus) 0 row col) =
          centeredResidue (dense (row * ld + col)).toNat modulus

/-- The sparse residue GEMM and the dense one on the expanded operand, under a handle of its own:
where the sparse call succeeds the dense one leaves the same output up to the recorded bound, which
is not larger, and where the dense call succeeds the sparse one does if the product of the magnitudes
passes its range check. -/
def RnsAgrees : Prop := ∀ (env : GemmEnv) (ctx : Context) (plan : Plan) (workspace : Workspace)
  (A : SparseMatrix) (a b c : Handle) (s : Store), plan.backend = .cpuReference → a ≠ b → a ≠ c →
    s a = some (makeSparseExpandedRnsMatrix A plan) →
    ((rns8GemmRnsSparseA env ctx plan workspace A b c s).1 = .success →
      ∃ sparse dense,
        rns8GemmRnsSparseA env ctx plan workspace A b c s = (.success, s.set c sparse) ∧
        rns8GemmRns env ctx plan workspace a b c s = (.success, s.set c dense) ∧
        SparseOutput plan sparse dense) ∧
    (A.backend = .cpuReference → A.hostCurrent = true → env.staged = true →
      sparseRnsMatchesPlan A plan = true →
      (∀ B ∈ s b, ∃ bound, sparseGemmRange plan A b c B = .ok bound) →
      (rns8GemmRns env ctx plan workspace a b c s).1 = .success →
      (rns8GemmRnsSparseA env ctx plan workspace A b c s).1 = .success)

/-- The sparse finite GEMM is the dense one on the expanded operand. -/
def FiniteAgrees : Prop := ∀ (env : GemmEnv) (ctx : Context) (plan : Plan) (workspace : Workspace)
  (modulus : ℕ) (A : SparseMatrix) (a b c : Handle) (s : Store), plan.backend = .cpuReference →
    a ≠ b → a ≠ c → s a = some (makeSparseExpandedFiniteMatrix A plan modulus) →
    ((rns8GemmFiniteU8SparseA env ctx plan workspace modulus A b c s).1 = .success →
      rns8GemmFiniteU8 env ctx plan workspace modulus a b c s =
        rns8GemmFiniteU8SparseA env ctx plan workspace modulus A b c s) ∧
    (A.backend = .cpuReference → A.hostCurrent = true → env.staged = true →
      sparseFiniteMatchesPlan A plan modulus = true →
      (rns8GemmFiniteU8 env ctx plan workspace modulus a b c s).1 = .success →
      (rns8GemmFiniteU8SparseA env ctx plan workspace modulus A b c s).1 = .success)

/-- On the matrix-core backend, with a processor that its kernels are built for and an output in a
buffer of its own: where the sparse residue call succeeds the dense one on the expansion of the packed
source leaves the same output up to the recorded bound, which is not larger, and where the dense call
succeeds the sparse one does if the product of the magnitudes passes its range check and the processor
has a sparse kernel. -/
def DeviceRnsAgrees : Prop := ∀ (u : MatrixUnits) (dev : BuiltinDevice) (variant : DenseKernelVariant)
  (env : GemmEnv) (ctx : Context) (plan : Plan) (workspace : Workspace) (A : SparseMatrix)
  (dense : ℕ → UInt8) (ld : ℕ) (a b c : Handle) (s : Store) (B C : RnsMatrix)
  (sparseOrder denseOrder : WaveOrder plan.rnsPrefix plan.desc.m plan.desc.n),
    u.Documented → builtFor dev.arch = true → plan.backend = .amdgpuBuiltins → a ≠ c → b ≠ c →
    A.HoldsPacked dense ld →
    s a = some ((makeSparseExpandedRnsMatrix A plan).onBuiltins A.hipDeviceId) → s b = some B →
    s c = some C →
    let sparseEnv := env.withSparseBuiltins u dev (.rns plan.rnsPrefix) plan A B C sparseOrder
    let denseEnv := env.withDenseBuiltins u dev (.rns plan.rnsPrefix) variant plan
      ((makeSparseExpandedRnsMatrix A plan).onBuiltins A.hipDeviceId) B C denseOrder
    ((rns8GemmRnsSparseA sparseEnv ctx plan workspace A b c s).1 = .success →
      ∃ sparse dense,
        rns8GemmRnsSparseA sparseEnv ctx plan workspace A b c s = (.success, s.set c sparse) ∧
        rns8GemmRns denseEnv ctx plan workspace a b c s = (.success, s.set c dense) ∧
        SparseOutput plan sparse dense) ∧
    (B.deviceResiduesCurrent = true → A.backend = .amdgpuBuiltins → A.deviceCurrent = true →
      A.hipDeviceId = ctx.deviceId → A.hipPacked = true → sparseRnsMatchesPlan A plan = true →
      (∃ bound, sparseGemmRange plan A b c B = .ok bound) → detectArchKind dev.arch ≠ .rdna3 →
      (rns8GemmRns denseEnv ctx plan workspace a b c s).1 = .success →
      (rns8GemmRnsSparseA sparseEnv ctx plan workspace A b c s).1 = .success)

/-- The same for the finite calls, under a plan of their modulus. -/
def DeviceFiniteAgrees : Prop := ∀ (u : MatrixUnits) (dev : BuiltinDevice)
  (variant : DenseKernelVariant) (env : GemmEnv) (ctx : Context) (plan : Plan) (workspace : Workspace)
  (modulus : ℕ) (A : SparseMatrix) (dense : ℕ → UInt8) (ld : ℕ) (a b c : Handle) (s : Store)
  (B C : RnsMatrix) (sparseOrder denseOrder : WaveOrder 1 plan.desc.m plan.desc.n),
    u.Documented → builtFor dev.arch = true → plan.backend = .amdgpuBuiltins → a ≠ c → b ≠ c →
    A.HoldsPacked dense ld → plan.desc.finiteModulus = modulus →
    s a = some ((makeSparseExpandedFiniteMatrix A plan modulus).onBuiltins A.hipDeviceId) →
    s b = some B → s c = some C →
    let sparseEnv :=
      env.withSparseBuiltins u dev (.finite (UInt32.ofNat modulus)) plan A B C sparseOrder
    let denseEnv := env.withDenseBuiltins u dev (.finite (UInt32.ofNat modulus)) variant plan
      ((makeSparseExpandedFiniteMatrix A plan modulus).onBuiltins A.hipDeviceId) B C denseOrder
    ((rns8GemmFiniteU8SparseA sparseEnv ctx plan workspace modulus A b c s).1 = .success →
      rns8GemmFiniteU8 denseEnv ctx plan workspace modulus a b c s =
        rns8GemmFiniteU8SparseA sparseEnv ctx plan workspace modulus A b c s) ∧
    (A.backend = .amdgpuBuiltins → A.deviceCurrent = true → A.hipDeviceId = ctx.deviceId →
      A.hipPacked = true → sparseFiniteMatchesPlan A plan modulus = true →
      detectArchKind dev.arch ≠ .rdna3 →
      (rns8GemmFiniteU8 denseEnv ctx plan workspace modulus a b c s).1 = .success →
      (rns8GemmFiniteU8SparseA sparseEnv ctx plan workspace modulus A b c s).1 = .success)

/-- The range proof of an exact-wide sparse GEMM: packing records a magnitude above every cell, and
on every backend a succeeding GEMM records a bound of every product of integers within the magnitudes
of its operands, which the prefix of the plan carries. -/
def ProofSound : Prop :=
  (∀ (env : SparsePackEnv) (ctx : Context) (matrix : SparseMatrix) (dense : ℕ → UInt8) (ld : ℕ)
    (version : UInt64), exactWideSemantics matrix.desc.semantics = true →
      (rns8PackSparseA4To2Matrix env ctx matrix dense ld version).1 = .success →
      ∀ row < matrix.desc.rows, ∀ col < matrix.desc.expandedK,
        |sparseCellValue matrix.desc dense ld row col| ≤
          (rns8PackSparseA4To2Matrix env ctx matrix dense ld version).2.exactMaxMagnitude) ∧
  ∀ (env : GemmEnv) (ctx : Context) (plan : Plan) (workspace : Workspace) (A : SparseMatrix)
    (b c : Handle) (s : Store), exactWideSemantics plan.desc.semantics = true →
      (rns8GemmRnsSparseA env ctx plan workspace A b c s).1 = .success →
      ∃ B ∈ s b, ∃ C, (rns8GemmRnsSparseA env ctx plan workspace A b c s).2 = s.set c C ∧
        C.exactRangePrefix = plan.rnsPrefix ∧
        exactRangeFits plan.desc.semantics C.exactMaxMagnitude plan.modulusProduct = true ∧
        ∀ (u v : ℕ → ℕ → ℤ) (row col : ℕ),
          (∀ i < plan.desc.k, |u row i| ≤ A.exactMaxMagnitude) →
          (∀ i < plan.desc.k, |v i col| ≤ B.exactMaxMagnitude) →
          |matProduct plan.desc.k u v row col| ≤ C.exactMaxMagnitude

theorem packAccepts : PackAccepts := by
  intro desc planes ld dense hvalid hld
  rw [packSparseA4To2_isOk_iff hvalid hld, SparseMatrixDesc.groups, forall_group_iff]
  refine forall₂_congr fun plane _ => forall₂_congr fun row _ => forall₂_congr fun group hgroup => ?_
  have hpos : 0 < desc.groupsPerRow := Nat.zero_lt_of_lt hgroup
  have hdiv : ((plane * desc.rows + row) * desc.groupsPerRow + group) / desc.groupsPerRow =
      plane * desc.rows + row := by
    rw [Nat.mul_comm, Nat.mul_add_div hpos, Nat.div_eq_of_lt hgroup, Nat.add_zero]
  have hmod : ((plane * desc.rows + row) * desc.groupsPerRow + group) % desc.groupsPerRow = group := by
    rw [Nat.mul_comm, Nat.mul_add_mod, Nat.mod_eq_of_lt hgroup]
  have hlanes : groupLanes desc.groupsPerRow ld dense
      ((plane * desc.rows + row) * desc.groupsPerRow + group) =
        fun lane => dense ((plane * desc.rows + row) * ld + group * 4 + lane) := by
    funext lane
    unfold groupLanes
    rw [hdiv, hmod]
  rw [hlanes]

/-- The index bytes that name two lanes in increasing order and nothing else. -/
theorem canonicalIndex_iff {index : UInt8} : (∃ i j, i < j ∧ j < 4 ∧ index = laneIndex i j) ↔
    (index &&& 3).toNat < ((index >>> 2) &&& 3).toNat ∧ index &&& 0xf0 = 0 := by
  constructor
  · rintro ⟨i, j, hij, hj, rfl⟩
    have key : ∀ j < 4, ∀ i < j, (laneIndex i j &&& 3).toNat < ((laneIndex i j >>> 2) &&& 3).toNat ∧
        laneIndex i j &&& 0xf0 = 0 := by
      decide +kernel
    exact key j hj i hij
  · rintro ⟨hlt, hbits⟩
    have hthree : ((index >>> 2) &&& 3).toNat ≤ 3 := by
      rw [UInt8.toNat_and]
      exact Nat.and_le_right
    exact ⟨_, _, hlt, by omega, (laneIndex_of_canonical hbits).symm⟩

theorem expandAccepts : ExpandAccepts := by
  intro desc planes ld values indices dense hvalid hld
  rw [expandSparseInto_isOk_iff hvalid hld]
  refine forall₂_congr fun g _ => ?_
  rw [groupWellFormed_iff, canonicalIndex_iff]
  tauto

theorem roundTrips : RoundTrips := by
  intro desc planes ld ld' hvalid hld hld'
  exact ⟨fun dense buffer packed h => expandSparse_pack hvalid hld hld' h buffer,
    fun values indices buffer expanded h => packSparse_expand hvalid hld h⟩

theorem packStores : PackStores := by
  intro env ctx matrix dense ld version hst
  rcases rns8PackSparseA4To2Matrix_cases env ctx matrix dense ld version with ⟨-, hno, -⟩ |
    ⟨hreaches, packed, -, current, hip, device, hmatrix, -, hok, -⟩
  · exact absurd hst hno
  have hholds := @rns8PackSparseA4To2Matrix_holds env ctx matrix dense ld version hreaches
  have hdesc : (rns8PackSparseA4To2Matrix env ctx matrix dense ld version).2.desc = matrix.desc := by
    rw [hmatrix]
  refine ⟨(rns8PackSparseA4To2Matrix env ctx matrix dense ld version).2, Prod.ext hst rfl, hholds,
    hdesc, by rw [hmatrix], by rw [hmatrix], ?_, ?_⟩
  · rw [hmatrix]
    exact hok hst
  · intro planes ld' buffer hvalid hld'
    rw [← hdesc] at hvalid hld' ⊢
    exact hholds.expand hvalid hld' buffer

theorem packKeepsMatrix : PackKeepsMatrix := by
  intro env ctx matrix dense ld version hst
  rcases rns8PackSparseA4To2Matrix_cases env ctx matrix dense ld version with ⟨-, -, h⟩ |
    ⟨hreaches, packed, -, current, hip, device, hmatrix, -, -, hfail⟩
  · exact ⟨fun _ => h, Or.inl h⟩
  have hcase := hfail hst
  refine ⟨fun hkeep => ?_, Or.inr ⟨rns8PackSparseA4To2Matrix_holds hreaches, by rw [hmatrix], ?_⟩⟩
  · simp only [packReachesSwaps, Bool.and_eq_true, decide_eq_true_eq] at hreaches
    rcases hkeep with hbackend | hstaged | hno | ⟨hdev, hkeyed⟩
    · exact absurd hreaches.1.1 hbackend
    · simp [hreaches.1.2] at hstaged
    · simp [hreaches.2] at hno
    · simp [hdev, hkeyed] at hcase
  · rw [hmatrix]
    exact hcase

theorem expandedHolds : ExpandedHolds := by
  intro A plan ld dense h
  exact ⟨fun hmatch p hp row hrow col hcol =>
      makeSparseExpandedRnsMatrix_cell h.packed hmatch hp hrow hcol,
    fun modulus hmatch row hrow col hcol =>
      makeSparseExpandedFiniteMatrix_cell h.packed hmatch hrow hcol⟩

theorem proofSound : ProofSound := by
  constructor
  · intro env ctx matrix dense ld version hexact hst row hrow col hcol
    rcases rns8PackSparseA4To2Matrix_cases env ctx matrix dense ld version with ⟨-, hno, -⟩ |
      ⟨-, packed, -, current, hip, device, hmatrix, -⟩
    · exact absurd hst hno
    · rw [hmatrix]
      dsimp only
      rw [if_pos hexact]
      exact le_sparseMaximum dense ld hrow hcol
  · intro env ctx plan workspace A b c s hexact hst
    obtain ⟨B, hB, C, hstore, hproof⟩ := rns8GemmRnsSparseA_proof hexact hst
    refine ⟨B, hB, C, hstore, hproof.rangePrefix, hproof.fits, fun u v row col hu hv => ?_⟩
    rw [hproof.magnitude]
    exact abs_matProduct_le hu hv

theorem deviceRnsAgrees : DeviceRnsAgrees := by
  intro u dev variant env ctx plan workspace A dense ld a b c s B C sparseOrder denseOrder hdoc hbuilt
    hdev hac _ hheld ha hb hc
  exact ⟨rns8GemmRnsSparseA_device_dense hdoc hbuilt hdev hac hheld ha hb hc,
    fun hB hA hcurrent hplace hloaded hmatch hrange hkind h =>
      rns8GemmRnsSparseA_device_of_dense hdev hheld ha hb hc hkind hB hA hcurrent hplace hloaded hmatch
        hrange h⟩

theorem deviceFiniteAgrees : DeviceFiniteAgrees := by
  intro u dev variant env ctx plan workspace modulus A dense ld a b c s B C sparseOrder denseOrder hdoc
    hbuilt hdev _ _ hheld hmodulus ha hb hc
  exact ⟨rns8GemmFiniteU8SparseA_device_dense hdoc hbuilt hdev hheld hmodulus ha hb hc,
    fun hA hcurrent hplace hloaded hmatch hkind h =>
      rns8GemmFiniteU8SparseA_device_of_dense hdev hheld ha hb hc hkind hA hcurrent hplace hloaded
        hmatch h⟩

/-- **Sparse-A agrees with dense.** Packing and expanding accept exactly their valid domains and undo
each other, a pack stores the packed source or leaves the matrix alone, and the sparse GEMMs are the
dense ones on the expanded operand, on the CPU and on the device, with a sound range proof. -/
theorem sparseA_agrees_with_dense :
    PackAccepts ∧ ExpandAccepts ∧ RoundTrips ∧ PackStores ∧ PackKeepsMatrix ∧ ExpandedHolds ∧
      RnsAgrees ∧ FiniteAgrees ∧ DeviceRnsAgrees ∧ DeviceFiniteAgrees ∧ ProofSound := by
  refine ⟨packAccepts, expandAccepts, roundTrips, packStores, packKeepsMatrix, expandedHolds, ?_, ?_,
    deviceRnsAgrees, deviceFiniteAgrees, proofSound⟩
  · intro env ctx plan workspace A a b c s hcpu hb hc ha
    exact ⟨rns8GemmRnsSparseA_dense hcpu hb hc ha, rns8GemmRnsSparseA_of_dense hcpu hb hc ha⟩
  · intro env ctx plan workspace modulus A a b c s hcpu hb hc ha
    exact ⟨rns8GemmFiniteU8SparseA_dense hcpu hb hc ha,
      rns8GemmFiniteU8SparseA_of_dense hcpu hb hc ha⟩

/-- One group of a single residue plane. -/
def oneGroupDesc : SparseMatrixDesc :=
  { semantics := .boundedI64, boundKind := .globalMaxAbs, rows := 1, expandedK := 4, maxPrefix := 1
    valueSignedness := .signedI8 }

/-- A sparse matrix of one group on the matrix-core backend. -/
def oneGroupMatrix : SparseMatrix :=
  { desc := oneGroupDesc, backend := .amdgpuBuiltins, matrixInstanceId := 1, valuePlaneCount := 1
    groupCount := 1 }

/-- The same matrix on the CPU. -/
def oneGroupHostMatrix : SparseMatrix := { oneGroupMatrix with backend := .cpuReference }

/-- Canonical metadata with a zero value is not expanded, and a pack whose upload or cache key fails
leaves the matrix with the new source version. -/
theorem canonical_zero_value_and_failed_upload :
    (∃ (desc : SparseMatrixDesc) (values indices dense : ℕ → UInt8),
      sparseContractValid desc = some 1 ∧ desc.groups 1 = 1 ∧ indices 0 = laneIndex 0 1 ∧
        (expandSparseInto desc values indices 4 dense).isOk = false) ∧
    (∃ (env : SparsePackEnv) (ctx : Context) (matrix : SparseMatrix) (dense : ℕ → UInt8),
      (rns8PackSparseA4To2Matrix env ctx matrix dense 4 7).1 ≠ .success ∧
        (rns8PackSparseA4To2Matrix env ctx matrix dense 4 7).2 ≠ matrix) ∧
    ∃ (env : SparsePackEnv) (ctx : Context) (matrix : SparseMatrix) (dense : ℕ → UInt8),
      matrix.backend = .cpuReference ∧
        (rns8PackSparseA4To2Matrix env ctx matrix dense 4 7).1 ≠ .success ∧
        (rns8PackSparseA4To2Matrix env ctx matrix dense 4 7).2 ≠ matrix := by
  refine ⟨⟨oneGroupDesc, fun _ => 0, fun _ => 4, fun _ => 0, by decide +kernel, by decide,
    by decide +kernel, by decide +kernel⟩, ⟨⟨true, some ⟨.internalError, by decide⟩, false,
    (fun _ => 0, fun _ => 0), true⟩, { backend := .amdgpuBuiltins }, oneGroupMatrix,
    fun o => if o < 2 then 1 else 0, by decide +kernel, fun h => ?_⟩,
    ⟨true, none, true, (fun _ => 0, fun _ => 0), false⟩, { backend := .cpuReference },
    oneGroupHostMatrix, fun o => if o < 2 then 1 else 0, rfl, by decide +kernel, fun h => ?_⟩
  · have hversion := congrArg SparseMatrix.sourceVersion h
    revert hversion
    decide +kernel
  · have hversion := congrArg SparseMatrix.sourceVersion h
    revert hversion
    decide +kernel

end Rns8
