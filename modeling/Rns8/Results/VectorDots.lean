import Rns8.Hip.VectorRuns

/-!
# Vector ALU products are exact

The sums of the three kernels of each element type, what the API's device call leaves in the output
and the status word, and that the kernels end in the same state.
-/

namespace Rns8

open TreeReduction

variable {α σ : Type}

/-- The sum that every kernel forms for a cell is the cell's exact dot product: on one thread, and on
`2 ^ j` threads in any order, with one column or several. -/
structure VectorSumsExact (arith : VectorArith α σ) (value : α → ℤ) (total : σ → ℤ) : Prop where
  serial : ∀ (a b : ℕ → α) (n k row col : ℕ), k < 2 ^ 63 →
    total (serialSum arith a b n k row col) = vectorDot value a b n k row col
  cooperative : ∀ (a b : ℕ → α) (k row j : ℕ) (passes : ℕ → List ℕ), k < 2 ^ 63 →
    (∀ stride : ℕ, (passes stride).Perm (List.range (2 ^ j))) →
    total (gemvN1Block arith a b k (2 ^ j) passes row) = vectorDot value a b 1 k row 0
  columns : ∀ (a b : ℕ → α) (n k row col j : ℕ) (passes : ℕ → List ℕ), k < 2 ^ 63 →
    n ≤ kGemvSmallNMaxN → col < n → (∀ stride : ℕ, (passes stride).Perm (List.range (2 ^ j))) →
    total (smallNBlock arith a b n k (2 ^ j) passes row col) = vectorDot value a b n k row col

/-- The kernels of one element type end in the same state, on every input that more than one of them
takes and for every order of their threads. -/
structure VectorKernelsAgree (arith : VectorArith α σ) : Prop where
  cooperative : ∀ (a b : ℕ → α) (m k j : ℕ) (order : List CellThread) (passes : ℕ → ℕ → List ℕ)
    (blocks : List ℕ) (out : VectorOut α), m ≤ intMax → k < 2 ^ 63 →
    order.Perm (cellThreads m 1) → blocks.Perm (List.range m) →
    (∀ block stride : ℕ, (passes block stride).Perm (List.range (2 ^ j))) →
    gemvN1Kernel arith a b m k (2 ^ j) passes blocks out = gemmKernel arith a b m 1 k order out
  columns : ∀ (a b : ℕ → α) (m n k j : ℕ) (order : List CellThread) (passes : ℕ → ℕ → List ℕ)
    (blocks : List ℕ) (out : VectorOut α), m ≤ intMax → k < 2 ^ 63 → 1 < n → n ≤ kGemvSmallNMaxN →
    order.Perm (cellThreads m n) → blocks.Perm (List.range m) →
    (∀ block stride : ℕ, (passes block stride).Perm (List.range (2 ^ j))) →
    gemvSmallNKernel arith a b m n k (2 ^ j) passes blocks out = gemmKernel arith a b m n k order out

/-- The device call on an admitted shape: the status is raised exactly when some product is not
`inRange`, every other cell holds its exact product, and nothing else is written. -/
def VectorCallExact (device : (ℕ → α) → (ℕ → α) → (m n : ℤ) → ℤ →
    VectorSchedule m.toNat n.toNat kGemvN1BlockSize → VectorOut α → Status × VectorOut α)
    (value : α → ℤ) (inRange : ℤ → Prop) : Prop :=
  ∀ (a b : ℕ → α) (m n k : ℤ) (s : VectorSchedule m.toNat n.toNat kGemvN1BlockSize) (out : VectorOut α),
    checkedVectorShape m n k = true →
    ∃ r, device a b m n k s out = (.success, r) ∧
      ((∃ row < m.toNat, ∃ col < n.toNat, ¬ inRange (vectorDot value a b n.toNat k.toNat row col)) →
        r.status = out.status ||| 1) ∧
      ((∀ row < m.toNat, ∀ col < n.toNat, inRange (vectorDot value a b n.toNat k.toNat row col)) →
        r.status = out.status) ∧
      (∀ row < m.toNat, ∀ col < n.toNat, inRange (vectorDot value a b n.toNat k.toNat row col) →
        value (r.c (row * n.toNat + col)) = vectorDot value a b n.toNat k.toNat row col) ∧
      ∀ index, m.toNat * n.toNat ≤ index → r.c index = out.c index

section

variable {arith : VectorArith α σ} {value : α → ℤ} {total : σ → ℤ} {outcome : ℤ → Bool × α}
  (h : arith.Exact value total outcome)

include h

theorem VectorArith.Exact.sums : VectorSumsExact arith value total where
  serial a b n k row col hk := serialSum_total a b n k row col h hk
  cooperative a b k row _ _ hk hpasses := gemvN1Block_total a b k row h hk hpasses
  columns a b n k row col _ _ hk hn hcol hpasses :=
    smallNBlock_total a b n k row col h hk hpasses hn hcol

theorem VectorArith.Exact.agree : VectorKernelsAgree arith where
  cooperative a b m k j order passes blocks out hm hk horder hblocks hpasses := by
    rw [gemvN1Kernel_eq a b out h hk hpasses hblocks,
      gemmKernel_eq a b out h hk hm (by decide) horder]
  columns a b m n k j order passes blocks out hm hk hn1 hn8 horder hblocks hpasses := by
    rw [gemvSmallNKernel_eq a b out h hk hpasses hblocks hn1 hn8,
      gemmKernel_eq a b out h hk hm (hn8.trans (by decide)) horder]

/-- The launch ends in the exact state, whichever kernel it picks. -/
theorem launchVectorGemm_eq {m n k : ℕ} (a b : ℕ → α) (s : VectorSchedule m n kGemvN1BlockSize)
    (out : VectorOut α) (hm : m ≤ intMax) (hn : n ≤ intMax) (hk : k ≤ intMax) :
    launchVectorGemm arith a b m n k s out =
      exactRun outcome (vectorDot value a b n k) m n out := by
  have hk63 : k < 2 ^ 63 := by
    simp only [intMax] at hk
    omega
  have hpasses : ∀ block stride : ℕ, (s.passes block stride).Perm (List.range (2 ^ 8)) := s.passes_perm
  unfold launchVectorGemm
  split
  · next hn1 =>
    obtain ⟨rfl, -⟩ := hn1
    exact gemvN1Kernel_eq a b out h hk63 hpasses s.blocks_perm
  · split
    · next hn8 =>
      exact gemvSmallNKernel_eq a b out h hk63 hpasses s.blocks_perm hn8.1 hn8.2.1
    · exact gemmKernel_eq a b out h hk63 hm hn s.cells_perm

theorem VectorArith.Exact.call {inRange : ℤ → Prop}
    (hflag : ∀ a b : ℕ → α, ∀ n k row col : ℕ,
      (outcome (vectorDot value a b n k row col)).1 = true ↔ ¬ inRange (vectorDot value a b n k row col))
    (hvalue : ∀ a b : ℕ → α, ∀ n k row col : ℕ, inRange (vectorDot value a b n k row col) →
      value (outcome (vectorDot value a b n k row col)).2 = vectorDot value a b n k row col) :
    VectorCallExact (vectorAluGemmDevice arith) value inRange := by
  intro a b m n k s out hshape
  have hbounds : m.toNat ≤ intMax ∧ n.toNat ≤ intMax ∧ k.toNat ≤ intMax := by
    simp only [checkedVectorShape, Bool.and_eq_true, decide_eq_true_eq] at hshape
    omega
  refine ⟨exactRun outcome (vectorDot value a b n.toNat k.toNat) m.toNat n.toNat out, ?_, ?_, ?_, ?_,
    ?_⟩
  · simp only [vectorAluGemmDevice, hshape, Bool.not_true, Bool.false_eq_true, if_false]
    rw [launchVectorGemm_eq h a b s out hbounds.1 hbounds.2.1 hbounds.2.2]
  · rintro ⟨row, hrow, col, hcol, hout⟩
    exact if_pos ⟨row, hrow, col, hcol, (hflag ..).2 hout⟩
  · intro hall
    refine if_neg ?_
    rintro ⟨row, hrow, col, hcol, hout⟩
    exact (hflag ..).1 hout (hall row hrow col hcol)
  · intro row hrow col hcol hin
    have hparts := RowMajor.offset_parts row hcol
    have hcell : (exactRun outcome (vectorDot value a b n.toNat k.toNat) m.toNat n.toNat out).c
        (row * n.toNat + col) = (outcome (vectorDot value a b n.toNat k.toNat row col)).2 := by
      refine (if_pos (RowMajor.offset_lt hcol hrow)).trans ?_
      rw [hparts.1, hparts.2]
    rw [hcell]
    exact hvalue a b _ _ row col hin
  · exact fun index hindex => if_neg (by omega)

end

theorem i64_call :
    VectorCallExact vectorAluGemmI64Device Int64.toInt (fun d => -2 ^ 63 ≤ d ∧ d < 2 ^ 63) := by
  refine i64Arith_exact.call (fun a b n k row col => ?_) fun a b n k row col hin => ?_
  · unfold i64Outcome
    split
    · next hin => simpa using hin
    · next hout => simpa using hout
  · rw [i64Outcome, if_pos hin]
    exact Int64.toInt_ofInt_of_le (by omega) (by omega)

theorem u64_call :
    VectorCallExact vectorAluGemmU64Device (fun v => (v.toNat : ℤ)) (fun d => 0 ≤ d ∧ d < 2 ^ 64) := by
  have hnonneg : ∀ (a b : ℕ → UInt64) (n k row col : ℕ),
      0 ≤ vectorDot (fun v : UInt64 => (v.toNat : ℤ)) a b n k row col := fun a b n k row col =>
    Finset.sum_nonneg fun kk _ => by positivity
  refine u64Arith_exact.call (fun a b n k row col => ?_) fun a b n k row col hin => ?_
  · have h0 := hnonneg a b n k row col
    simp only [u64Outcome, decide_eq_true_eq]
    omega
  · change ((UInt64.ofNat _).toNat : ℤ) = _
    rw [UInt64.toNat_ofNat', Nat.mod_eq_of_lt (by omega), Int.toNat_of_nonneg hin.1]

/-- **Vector-ALU accumulation is exact.** The operands are functions that no store changes: `C` is a
buffer of its own. -/
theorem vectorAlu_exact :
    (VectorSumsExact i64Arith Int64.toInt SignedSum.toInt ∧
      VectorSumsExact u64Arith (fun v => (v.toNat : ℤ)) (fun x => (x.toNat : ℤ))) ∧
    (VectorCallExact vectorAluGemmI64Device Int64.toInt (fun d => -2 ^ 63 ≤ d ∧ d < 2 ^ 63) ∧
      VectorCallExact vectorAluGemmU64Device (fun v => (v.toNat : ℤ)) (fun d => 0 ≤ d ∧ d < 2 ^ 64)) ∧
    VectorKernelsAgree i64Arith ∧ VectorKernelsAgree u64Arith :=
  ⟨⟨i64Arith_exact.sums, u64Arith_exact.sums⟩, ⟨i64_call, u64_call⟩, i64Arith_exact.agree,
    u64Arith_exact.agree⟩

end Rns8
