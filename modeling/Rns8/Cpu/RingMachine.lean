import Rns8.Cpu.RingGemm
import Rns8.Cpu.RowTeam
import Rns8.Lib.RowMajor

/-!
# The accumulator machine of the modular GEMM

`ring_gemm_row` action by action, on operands that the call does not write: the `int32_t` accumulator
is filled, added to and reduced cell by cell, and belongs to a worker. A call splits its rows between
workers and runs their actions in any interleaving (`RingCall.Interleaves`). Whatever the output and
the accumulators held, no accumulator leaves `int32_t` (`RingCall.Interleaves.accFits`) and every
output cell ends as the residue of its dot product (`RingCall.Interleaves.rowHolds`).
-/

namespace Rns8

open Finset CenteredResidue LabelledRun

/-- The operands and the parameters of a call; the operands are only read. -/
structure RingCall where
  A : ℕ → Int8
  B : ℕ → Int8
  m : ℕ
  n : ℕ
  k : ℕ
  lda : ℕ
  ldb : ℕ
  ldc : ℕ
  modulus : ℕ

/-- The output and the accumulator of every worker. -/
structure RingState (W : Type) where
  C : ℕ → Int8
  acc : W → ℕ → Int32

variable {W : Type} [DecidableEq W] (g : RingCall)

/-- One action of a worker. -/
def RingCall.step (s : RingState W) : W × RingAction → RingState W
  | (_, .clearRow row) =>
    { s with C := fun o => if row * g.ldc ≤ o ∧ o < row * g.ldc + g.n then 0 else s.C o }
  | (w, .clearAcc) => { s with acc := Function.update s.acc w fun _ => 0 }
  | (w, .accumulate row kk col) =>
    { s with
      acc := Function.update s.acc w (Function.update (s.acc w) col
        (s.acc w col + (g.A (row * g.lda + kk)).toInt32 * (g.B (kk * g.ldb + col)).toInt32)) }
  | (w, .reduce row col) =>
    { s with
      C := Function.update s.C (row * g.ldc + col) (reduceToCentered
        ((s.C (row * g.ldc + col)).toInt + (s.acc w col).toInt) g.modulus) }

/-- A run of the call: the workers' actions, each in the order of its own rows, in any interleaving. -/
def RingCall.Interleaves (split : WorkSplit W g.m) (evs : List (W × RingAction)) : Prop :=
  ∀ w, Interleave.own w evs = (split.rows w).flatMap (ringRowActions g.n g.k)

/-- The product added at a position of the inner dimension. -/
def RingCall.term (row kk col : ℕ) : ℤ :=
  (g.A (row * g.lda + kk)).toInt * (g.B (kk * g.ldb + col)).toInt

/-- The exact sum that an action adds up in its accumulator is an `int32_t`. -/
def RingCall.AccFits (s : RingState W) : W × RingAction → Prop
  | (w, .accumulate row kk col) => -2 ^ 31 ≤ (s.acc w col).toInt + g.term row kk col ∧
      (s.acc w col).toInt + g.term row kk col < 2 ^ 31
  | _ => True

/-- The dot product over the first `kk` positions. -/
def RingCall.dot (row col kk : ℕ) : ℤ := ∑ i ∈ range kk, g.term row i col

/-! ### One worker by itself -/

section Worker

variable (w : W)

/-- The actions of one worker. -/
abbrev RingCall.own (s : RingState W) (a : RingAction) : RingState W := g.step s (w, a)

/-- Every action of a worker's run fits. -/
abbrev RingCall.OwnFits (s : RingState W) (as : List RingAction) : Prop :=
  Meets (g.own w) (fun s a => g.AccFits s (w, a)) s as

/-- The 32-bit sum is the exact one when that fits. -/
theorem toInt_add_mul {x : Int32} {a b : Int8} (hlo : -2 ^ 31 ≤ x.toInt + a.toInt * b.toInt)
    (hhi : x.toInt + a.toInt * b.toInt < 2 ^ 31) :
    (x + a.toInt32 * b.toInt32).toInt = x.toInt + a.toInt * b.toInt := by
  obtain ⟨h1, h2⟩ := abs_le.1 (int8_mul_bound a b)
  rw [Int32.toInt_add, Int32.toInt_mul, Int8.toInt_toInt32, Int8.toInt_toInt32]
  have hmul : (a.toInt * b.toInt).bmod (2 ^ 32) = a.toInt * b.toInt :=
    Int.bmod_eq_of_le_mul_two (by push_cast; omega) (by push_cast; omega)
  rw [hmul]
  exact Int.bmod_eq_of_le_mul_two (by push_cast; omega) (by push_cast; omega)

/-- One pass over the columns adds its product to every accumulator. -/
theorem RingCall.accumulate_cols (row kk : ℕ) {s : RingState W}
    (hfit : ∀ col < g.n, |(s.acc w col).toInt| ≤ 2 ^ 30 - 2 ^ 14) :
    ∀ j ≤ g.n,
      g.OwnFits w s ((List.range j).map (.accumulate row kk)) ∧
      (exec (g.own w) s ((List.range j).map (.accumulate row kk))).C = s.C ∧
      (∀ col < j, ((exec (g.own w) s ((List.range j).map (.accumulate row kk))).acc w col).toInt =
        (s.acc w col).toInt + g.term row kk col) ∧
      ∀ col, j ≤ col →
        (exec (g.own w) s ((List.range j).map (.accumulate row kk))).acc w col = s.acc w col := by
  intro j hj
  -- the columns before `j` have their product, the others what they had
  induction j with
  | zero => simp [exec]
  | succ j ih =>
    obtain ⟨hfits, hC, hdone, hrest⟩ := ih (by omega)
    have hj' := hfit j (by omega)
    obtain ⟨h1, h2⟩ := abs_le.1 hj'
    obtain ⟨h3, h4⟩ := abs_le.1 (int8_mul_bound (g.A (row * g.lda + kk)) (g.B (kk * g.ldb + j)))
    have hold := hrest j (le_refl j)
    simp only [List.range_succ, List.map_append, List.map_cons, List.map_nil, exec_append,
      meets_append, exec_cons, exec_nil, meets_cons, meets_nil, and_true, RingCall.OwnFits]
    set t := exec (g.own w) s ((List.range j).map (.accumulate row kk)) with ht
    -- one product on top of a partial sum below the block's bound
    have hsum : -2 ^ 31 ≤ (t.acc w j).toInt + g.term row kk j ∧
        (t.acc w j).toInt + g.term row kk j < 2 ^ 31 := by
      rw [hold]
      unfold RingCall.term
      omega
    refine ⟨⟨hfits, hsum⟩, hC, fun col hcol => ?_, fun col hcol => ?_⟩
    · simp only [RingCall.own, RingCall.step, Function.update_self]
      rcases Nat.lt_or_ge col j with hlt | hge
      · rw [Function.update_of_ne (by omega)]
        exact hdone col hlt
      · obtain rfl : col = j := by omega
        rw [Function.update_self, toInt_add_mul hsum.1 hsum.2, hold]
        rfl
    · simp only [RingCall.own, RingCall.step, Function.update_self]
      rw [Function.update_of_ne (by omega)]
      exact hrest col (by omega)

/-- A sum of `b` products. -/
theorem RingCall.abs_sum_term_le (row offset col b : ℕ) :
    |∑ i ∈ range b, g.term row (offset + i) col| ≤ b * 2 ^ 14 := by
  calc |∑ i ∈ range b, g.term row (offset + i) col|
      ≤ ∑ i ∈ range b, |g.term row (offset + i) col| := abs_sum_le_sum_abs _ _
    _ ≤ ∑ _i ∈ range b, (2 : ℤ) ^ 14 := sum_le_sum fun _ _ => int8_mul_bound _ _
    _ = b * 2 ^ 14 := by simp

/-- **A K block.** From a cleared accumulator the block leaves its partial dot products; the
induction is on the positions done. -/
theorem RingCall.accumulate_block (row offset : ℕ) {s : RingState W}
    (hclear : ∀ col < g.n, (s.acc w col).toInt = 0) :
    ∀ b ≤ safeInt32KBlock,
      g.OwnFits w s ((List.range b).flatMap fun kk =>
        (List.range g.n).map (.accumulate row (offset + kk))) ∧
      (exec (g.own w) s ((List.range b).flatMap fun kk =>
        (List.range g.n).map (.accumulate row (offset + kk)))).C = s.C ∧
      ∀ col < g.n, ((exec (g.own w) s ((List.range b).flatMap fun kk =>
        (List.range g.n).map (.accumulate row (offset + kk)))).acc w col).toInt =
          ∑ i ∈ range b, g.term row (offset + i) col := by
  intro b hb
  induction b with
  | zero => simpa [exec] using hclear
  | succ b ih =>
    obtain ⟨hfits, hC, hacc⟩ := ih (by omega)
    simp only [List.range_succ, List.flatMap_append, List.flatMap_cons, List.flatMap_nil,
      List.append_nil, exec_append, meets_append, RingCall.OwnFits]
    set t := exec (g.own w) s ((List.range b).flatMap fun kk =>
      (List.range g.n).map (.accumulate row (offset + kk))) with ht
    have hbound : ∀ col < g.n, |(t.acc w col).toInt| ≤ 2 ^ 30 - 2 ^ 14 := by
      intro col hcol
      rw [hacc col hcol]
      have hle : (b : ℤ) + 1 ≤ 65536 := by exact_mod_cast hb
      have := g.abs_sum_term_le row offset col b
      omega
    obtain ⟨hfits', hC', hacc', -⟩ := g.accumulate_cols w row (offset + b) hbound g.n (le_refl _)
    refine ⟨⟨hfits, hfits'⟩, hC'.trans hC, fun col hcol => ?_⟩
    rw [hacc' col hcol, hacc col hcol, sum_range_succ]

/-- Reducing the columns of a row writes the row and nothing else. -/
theorem RingCall.reduce_cols (row : ℕ) (s : RingState W) :
    ∀ j ≤ g.n,
      g.OwnFits w s ((List.range j).map (.reduce row)) ∧
      (exec (g.own w) s ((List.range j).map (.reduce row))).acc = s.acc ∧
      (∀ col < j, (exec (g.own w) s ((List.range j).map (.reduce row))).C (row * g.ldc + col) =
        reduceToCentered ((s.C (row * g.ldc + col)).toInt + (s.acc w col).toInt) g.modulus) ∧
      ∀ o, (∀ col < j, o ≠ row * g.ldc + col) →
        (exec (g.own w) s ((List.range j).map (.reduce row))).C o = s.C o := by
  intro j hj
  induction j with
  | zero => simp [exec]
  | succ j ih =>
    obtain ⟨hfits, hacc, hdone, hrest⟩ := ih (by omega)
    simp only [List.range_succ, List.map_append, List.map_cons, List.map_nil, exec_append,
      meets_append, exec_cons, exec_nil, meets_cons, meets_nil, and_true, RingCall.OwnFits]
    set t := exec (g.own w) s ((List.range j).map (.reduce row)) with ht
    refine ⟨⟨hfits, trivial⟩, hacc, fun col hcol => ?_, fun o ho => ?_⟩
    · simp only [RingCall.own, RingCall.step]
      rcases Nat.lt_or_ge col j with hlt | hge
      · rw [Function.update_of_ne (by omega)]
        exact hdone col hlt
      · obtain rfl : col = j := by omega
        rw [Function.update_self, hacc, hrest _ fun c hc => by omega]
    · simp only [RingCall.own, RingCall.step]
      rw [Function.update_of_ne (ho j (by omega))]
      exact hrest o fun col hcol => ho col (by omega)

/-- The cells of an output row hold the residues of the dot products over `kk` positions. -/
def RingCall.RowHolds (C : ℕ → Int8) (row kk : ℕ) : Prop :=
  ∀ col < g.n, C (row * g.ldc + col) = centeredResidue (g.dot row col kk) g.modulus

/-- **The K blocks of a row.** With the residues up to `offset` in the row, the remaining blocks
complete them; the induction is on the passes left. -/
theorem RingCall.exec_blockActions (hm : 0 < g.modulus) (hm' : g.modulus ≤ 256) (row fuel offset : ℕ)
    (s : RingState W) (hfuel : g.k ≤ offset + fuel) (hoff : offset ≤ g.k)
    (hpart : g.RowHolds s.C row offset) :
    g.OwnFits w s (ringBlockActions g.n g.k row fuel offset) ∧
      g.RowHolds (exec (g.own w) s (ringBlockActions g.n g.k row fuel offset)).C row g.k ∧
      ∀ o, (∀ col < g.n, o ≠ row * g.ldc + col) →
        (exec (g.own w) s (ringBlockActions g.n g.k row fuel offset)).C o = s.C o := by
  -- the row holds the residue of the positions before `offset`; the induction is on the passes
  -- left
  induction fuel generalizing offset s with
  | zero =>
    obtain rfl : offset = g.k := by omega
    exact ⟨trivial, hpart, fun _ _ => rfl⟩
  | succ fuel ih =>
    unfold ringBlockActions
    split
    swap
    · obtain rfl : offset = g.k := by omega
      exact ⟨trivial, hpart, fun _ _ => rfl⟩
    next hlt =>
    set block := min safeInt32KBlock (g.k - offset) with hblock
    have hpos : 0 < block := by
      rw [hblock]
      exact lt_min (by decide) (by omega)
    have hle : offset + block ≤ g.k := by
      have : block ≤ g.k - offset := min_le_right _ _
      omega
    simp only [List.cons_append, exec_cons, exec_append, meets_cons, meets_append,
      RingCall.OwnFits, List.append_assoc]
    set s₁ := g.own w s .clearAcc with hs₁
    have hclear : ∀ col < g.n, (s₁.acc w col).toInt = 0 := by
      intro col _
      simp [hs₁, RingCall.own, RingCall.step]
    obtain ⟨hfit₂, hC₂, hacc₂⟩ := g.accumulate_block w row offset hclear block (min_le_left _ _)
    set s₂ := exec (g.own w) s₁ ((List.range block).flatMap fun kk =>
      (List.range g.n).map (.accumulate row (offset + kk))) with hs₂
    obtain ⟨hfit₃, -, hC₃, hframe₃⟩ := g.reduce_cols w row s₂ g.n (le_refl _)
    set s₃ := exec (g.own w) s₂ ((List.range g.n).map (.reduce row)) with hs₃
    -- the block's exact sum is added to the residue of the positions before it
    have hholds : g.RowHolds s₃.C row (offset + block) := by
      intro col hcol
      have hdot : g.dot row col (offset + block) =
          g.dot row col offset + ∑ i ∈ range block, g.term row (offset + i) col := by
        simp [RingCall.dot, sum_range_add]
      rw [hC₃ col hcol, hC₂, hacc₂ col hcol, hdot, reduceToCentered_eq]
      change centeredResidue ((s.C (row * g.ldc + col)).toInt + _) g.modulus = _
      rw [hpart col hcol]
      exact centeredResidue_congr hm hm' ((centeredResidue_modEq _ hm hm').add_right _)
    obtain ⟨hfit₄, hrow, hframe₄⟩ := ih (offset + block) s₃ (by omega) hle hholds
    refine ⟨⟨trivial, hfit₂, hfit₃, hfit₄⟩, hrow, fun o ho => ?_⟩
    rw [hframe₄ o ho, hframe₃ o ho, hC₂]
    rfl

/-- **One row**, from any output and any accumulator. -/
theorem RingCall.exec_rowActions (hm : 0 < g.modulus) (hm' : g.modulus ≤ 256) (row : ℕ) (s : RingState W) :
    g.OwnFits w s (ringRowActions g.n g.k row) ∧
      g.RowHolds (exec (g.own w) s (ringRowActions g.n g.k row)).C row g.k ∧
      ∀ o, (∀ col < g.n, o ≠ row * g.ldc + col) →
        (exec (g.own w) s (ringRowActions g.n g.k row)).C o = s.C o := by
  have hzero : g.RowHolds (g.own w s (.clearRow row)).C row 0 := by
    intro col hcol
    have hin : row * g.ldc ≤ row * g.ldc + col ∧ row * g.ldc + col < row * g.ldc + g.n := by omega
    simp only [RingCall.own, RingCall.step, if_pos hin, RingCall.dot, range_zero, sum_empty,
      centeredResidue_zero hm]
  obtain ⟨hfits, hrow, hframe⟩ := g.exec_blockActions w hm hm' row g.k 0 _ (by omega)
    (Nat.zero_le _) hzero
  refine ⟨⟨trivial, hfits⟩, hrow, fun o ho => (hframe o ho).trans ?_⟩
  simp only [RingCall.own, RingCall.step]
  rw [if_neg]
  rintro ⟨hlo, hhi⟩
  exact ho (o - row * g.ldc) (by omega) (by omega)

/-- Cells of different rows are different cells. -/
theorem RingCall.cell_ne (hld : g.n ≤ g.ldc) {row row' col col' : ℕ} (hrow : row ≠ row')
    (hcol : col < g.n) (hcol' : col' < g.n) : row * g.ldc + col ≠ row' * g.ldc + col' :=
  fun h => hrow (RowMajor.eq_of_offset_eq (by omega) (by omega) h).1

/-- **The rows of one worker**, in any order. -/
theorem RingCall.exec_rows (hm : 0 < g.modulus) (hm' : g.modulus ≤ 256) (hld : g.n ≤ g.ldc) (rows : List ℕ)
    (s : RingState W) :
    g.OwnFits w s (rows.flatMap (ringRowActions g.n g.k)) ∧
      (∀ row ∈ rows, g.RowHolds (exec (g.own w) s (rows.flatMap (ringRowActions g.n g.k))).C row g.k) ∧
      ∀ row, row ∉ rows → ∀ col < g.n,
        (exec (g.own w) s (rows.flatMap (ringRowActions g.n g.k))).C (row * g.ldc + col) =
          s.C (row * g.ldc + col) := by
  induction rows generalizing s with
  | nil => exact ⟨trivial, fun _ h => (List.not_mem_nil h).elim, fun _ _ _ _ => rfl⟩
  | cons r rows ih =>
    rw [List.flatMap_cons]
    simp only [exec_append, meets_append, RingCall.OwnFits]
    obtain ⟨hfits, hrow, hframe⟩ := g.exec_rowActions w hm hm' r s
    obtain ⟨hfits', hrows, hframe'⟩ := ih (exec (g.own w) s (ringRowActions g.n g.k r))
    refine ⟨⟨hfits, hfits'⟩, fun row hmem => ?_, fun row hmem col hcol => ?_⟩
    · by_cases hin : row ∈ rows
      · exact hrows row hin
      · -- the row is done and no later row of the worker touches it
        obtain rfl : row = r := (List.mem_cons.1 hmem).resolve_right hin
        intro col hcol
        rw [hframe' row hin col hcol]
        exact hrow col hcol
    · rw [List.mem_cons, not_or] at hmem
      rw [hframe' row hmem.2 col hcol]
      exact hframe _ fun col' hcol' => g.cell_ne hld hmem.1 hcol hcol'

end Worker

/-! ### All workers -/

section Split

variable (split : WorkSplit W g.m)

/-- The actions of the rows of a worker. -/
def RingCall.Allowed : W × RingAction → Prop
  | (w, .clearRow row) => row ∈ split.rows w
  | (w, .reduce row col) => row ∈ split.rows w ∧ col < g.n
  | _ => True

/-- The states agree on the accumulator and the output rows of a worker. -/
def RingCall.Same (w : W) (s t : RingState W) : Prop :=
  s.acc w = t.acc w ∧
    ∀ row ∈ split.rows w, ∀ col < g.n, s.C (row * g.ldc + col) = t.C (row * g.ldc + col)

theorem RingCall.Interleaves.allowed {g : RingCall} {split : WorkSplit W g.m}
    {evs : List (W × RingAction)} (h : g.Interleaves split evs) :
    ∀ e ∈ evs, g.Allowed split e := by
  rintro ⟨w, a⟩ he
  have hown := Interleave.mem_own.2 he
  rw [h w, List.mem_flatMap] at hown
  obtain ⟨row, hrow, ha⟩ := hown
  have hon := onRow_of_mem_ringRowActions a ha
  cases a with
  | clearRow r => exact hon.symm ▸ hrow
  | clearAcc => trivial
  | accumulate r kk col => trivial
  | reduce r col => exact ⟨hon.1.symm ▸ hrow, hon.2⟩

/-- The workers' parts are disjoint: rows of one worker only, cells of one row only. -/
theorem RingCall.step_local (hld : g.n ≤ g.ldc) :
    Interleave.Local g.step (g.Allowed split) (g.Same split) where
  refl w s := ⟨rfl, fun _ _ _ _ => rfl⟩
  self := by
    rintro w a s t hallowed ⟨hacc, hC⟩
    cases a with
    | clearRow row =>
      refine ⟨hacc, fun r hr col hcol => ?_⟩
      simp only [RingCall.step]
      split
      · rfl
      · exact hC r hr col hcol
    | clearAcc => exact ⟨by simp [RingCall.step], hC⟩
    | accumulate row kk col => exact ⟨by simp [RingCall.step, hacc], hC⟩
    | reduce row col =>
      obtain ⟨hrow, hcol⟩ := hallowed
      refine ⟨hacc, fun r hr c hc => ?_⟩
      simp only [RingCall.step, hacc, hC row hrow col hcol]
      by_cases heq : r * g.ldc + c = row * g.ldc + col
      -- the stored cell is computed from the worker's own row and accumulator
      · rw [heq, Function.update_self, Function.update_self]
      · rw [Function.update_of_ne heq, Function.update_of_ne heq]
        exact hC r hr c hc
  other := by
    rintro w v a s t hne hallowed ⟨hacc, hC⟩
    -- the other worker's rows are not this one's, and its accumulator neither
    have hrow_ne : ∀ row ∈ split.rows v, ∀ r ∈ split.rows w, r ≠ row := by
      rintro row hv r hw rfl
      exact hne (split.unique v w r hv hw)
    cases a with
    | clearRow row =>
      refine ⟨hacc, fun r hr col hcol => ?_⟩
      have hout : ¬ (row * g.ldc ≤ r * g.ldc + col ∧ r * g.ldc + col < row * g.ldc + g.n) := by
        rintro ⟨hlo, hhi⟩
        exact g.cell_ne hld (hrow_ne row hallowed r hr) hcol
          (show r * g.ldc + col - row * g.ldc < g.n by omega) (by omega)
      simp only [RingCall.step, if_neg hout]
      exact hC r hr col hcol
    | clearAcc =>
      refine ⟨?_, hC⟩
      simp only [RingCall.step, Function.update_of_ne (Ne.symm hne)]
      exact hacc
    | accumulate row kk col =>
      refine ⟨?_, hC⟩
      simp only [RingCall.step, Function.update_of_ne (Ne.symm hne)]
      exact hacc
    | reduce row col =>
      obtain ⟨hrow, hcol⟩ := hallowed
      refine ⟨hacc, fun r hr c hc => ?_⟩
      simp only [RingCall.step]
      rw [Function.update_of_ne (g.cell_ne hld (hrow_ne row hrow r hr) hc hcol)]
      exact hC r hr c hc

omit [DecidableEq W] in
/-- Whether a sum fits is a matter of the worker's accumulator. -/
theorem RingCall.accFits_same (w : W) (a : RingAction) (s t : RingState W)
    (h : g.Same split w s t) (ht : g.AccFits t (w, a)) : g.AccFits s (w, a) := by
  cases a with
  | accumulate row kk col =>
    simp only [RingCall.AccFits, h.1] at ht ⊢
    exact ht
  | _ => trivial

variable {split} {evs : List (W × RingAction)}

/-- **No accumulator leaves `int32_t`**, at any step of any run. -/
theorem RingCall.Interleaves.accFits {g : RingCall} {split : WorkSplit W g.m}
    (h : g.Interleaves split evs) (hm : 0 < g.modulus) (hm' : g.modulus ≤ 256) (hld : g.n ≤ g.ldc)
    (s : RingState W) : Meets g.step g.AccFits s evs := by
  refine (g.step_local split hld).meets (g.accFits_same split) h.allowed s fun w => ?_
  rw [h w]
  exact (g.exec_rows w hm hm' hld (split.rows w) s).1

/-- **Every output cell** ends as the residue of its dot product. -/
theorem RingCall.Interleaves.rowHolds {g : RingCall} {split : WorkSplit W g.m}
    (h : g.Interleaves split evs) (hm : 0 < g.modulus) (hm' : g.modulus ≤ 256) (hld : g.n ≤ g.ldc)
    (s : RingState W) {row : ℕ} (hrow : row < g.m) : g.RowHolds (exec g.step s evs).C row g.k := by
  obtain ⟨w, hw⟩ := split.covers row hrow
  obtain ⟨-, hsame⟩ := (g.step_local split hld).exec h.allowed w s
  intro col hcol
  rw [hsame row hw col hcol, h w]
  exact (g.exec_rows w hm hm' hld (split.rows w) s).2.1 row hw col hcol

/-- **Nothing else is written.** -/
theorem RingCall.Interleaves.frame {g : RingCall} {split : WorkSplit W g.m}
    (h : g.Interleaves split evs) (s : RingState W) {o : ℕ}
    (ho : ∀ row < g.m, ∀ col < g.n, o ≠ row * g.ldc + col) : (exec g.step s evs).C o = s.C o := by
  refine LoopFold.foldl_read_of_frame (fun s : RingState W => s.C o) (fun s e he => ?_) s
  have hallowed := h.allowed e he
  obtain ⟨w, a⟩ := e
  cases a with
  | clearRow row =>
    simp only [RingCall.step]
    rw [if_neg]
    rintro ⟨hlo, hhi⟩
    exact ho row (split.lt w row hallowed) (o - row * g.ldc) (by omega) (by omega)
  | clearAcc => rfl
  | accumulate row kk col => rfl
  | reduce row col =>
    simp only [RingCall.step]
    exact Function.update_of_ne (ho row (split.lt w row hallowed.1) col hallowed.2) _ _

end Split

end Rns8
