import Rns8.Cpu.RingOverlap

/-!
# Runs that do harm

The converse of `ringRun_undisturbed` for an inner dimension of one K block: when every team stores
the target, the overwriting leaves the operands undisturbed (`undisturbed_of_all_teams`). Three kinds
of runs show it, each with a worker for every row. A row that runs while all others are cleared gets
the kept terms alone. One other row that is still as it was, or is already done, adds its term. So
that term has to vanish.
-/

namespace Rns8

open Finset CenteredResidue LabelledRun

variable {ι : Type} [DecidableEq ι] {A B C : PlanePtr ι} {Row : ℕ → Prop} {m n k modulus : ℕ}
  {left : ℕ → Bool} {right : ℕ → Option ℕ} {mem : Planes ι} {T : ℕ → ℕ → Int8} {s : TeamState ι}
  {evs : List (ℕ × RingAction)}

/-! ### What a run leaves alone -/

/-- A row that no action stores in. -/
theorem exec_read_of_other (hld : n ≤ C.ld) {r : ℕ} (hevs : ∀ e ∈ evs, ∃ row, row ≠ r ∧ e.2.OnRow n row)
    {col : ℕ} (hcol : col < n) :
    C.read (exec (ringStep A B C n modulus) s evs).mem r col = C.read s.mem r col := by
  refine LoopFold.foldl_read_of_frame (fun s : TeamState ι => C.read s.mem r col)
    (fun s e he => ?_) s
  obtain ⟨row, hne, hon⟩ := hevs e he
  obtain ⟨w, a⟩ := e
  cases a with
  | clearRow r' =>
    obtain rfl : r' = row := hon
    exact (PlanePtr.read_storeRow_row hld (fun _ => 0) s.mem hcol).trans (if_neg (Ne.symm hne))
  | clearAcc => rfl
  | accumulate r' kk c => rfl
  | reduce r' c =>
    obtain ⟨rfl, hc⟩ := hon
    exact (PlanePtr.read_store hld _ s.mem hc hcol).trans (if_neg fun h => hne h.1.symm)

variable (Row) in
/-- An offset in no row of the actions. -/
theorem exec_read_of_out (hevs : ∀ e ∈ evs, ∃ row, Row row ∧ e.2.OnRow n row) {b : ι} {o : ℕ}
    (ho : ∀ r, Row r → ¬ C.InRow n r b o) :
    (exec (ringStep A B C n modulus) s evs).mem b o = s.mem b o := by
  refine LoopFold.foldl_read_of_frame (fun s : TeamState ι => s.mem b o) (fun s e he => ?_) s
  obtain ⟨row, hrow, hon⟩ := hevs e he
  obtain ⟨w, a⟩ := e
  cases a with
  | clearRow r' =>
    obtain rfl : r' = row := hon
    exact if_neg (ho r' hrow)
  | clearAcc => rfl
  | accumulate r' kk c => rfl
  | reduce r' c =>
    obtain ⟨rfl, hc⟩ := hon
    refine if_neg fun h => ho r' hrow ?_
    rw [h.1, h.2]
    exact C.inRow_addr hc r'

/-! ### A row by itself -/

omit [DecidableEq ι] in
/-- The overlap as one row sees it: the other rows are operands like any others. -/
theorem RingOverlap.single (hover : RingOverlap A B C Row n k left right) {i : ℕ} (hi : Row i) :
    RingOverlap A B C (· = i) n k left fun kk => if right kk = some i then some i else none where
  ld _ _ := hover.ld i hi
  left_cell := hover.left_cell
  left_out := by
    rintro kk hkk hleft row rfl r rfl
    exact hover.left_out kk hkk hleft _ hi _ hi
  right_cell := by
    intro kk r h
    split at h
    · next heq =>
      obtain rfl : i = r := Option.some.inj h
      exact ⟨rfl, (hover.right_cell kk i heq).2⟩
    · cases h
  right_out := by
    rintro kk hkk h col hcol r rfl ⟨hbuf, hmem⟩
    split at h
    · cases h
    -- a position in another row is not in this one
    next hne =>
    rcases hright : right kk with _ | r'
    · exact hover.right_out kk hkk hright col hcol _ hi ⟨hbuf, hmem⟩
    · -- a cell of another row
      rw [(hover.right_cell kk r' hright).2.2 col hcol] at hmem
      rw [hright] at hne
      exact hne (congrArg some (row_eq_of_mem (hover.ld _ hi) hcol hmem).symm)
  right_inj := by
    intro kk kk' r h h'
    split at h
    · next heq =>
      split at h'
      · next heq' => exact hover.right_inj kk kk' i heq heq'
      · cases h'
    · cases h

/-- **A row that runs without interruption** stores the residues of what it finds outside itself. -/
theorem exec_row (hover : RingOverlap A B C Row n k left right) (hk : k ≤ safeInt32KBlock)
    (hm : 0 < modulus) (hm' : modulus ≤ 256) {i : ℕ} (hi : Row i) (w : ℕ) {col : ℕ} (hcol : col < n) :
    C.read (exec (ringStep A B C n modulus) s ((ringRowActions n k i).map (Prod.mk w))).mem i col =
      centeredResidue (∑ kk ∈ range k, keptTerm A B left
        (fun kk => if right kk = some i then some i else none) s.mem i kk col) modulus := by
  have hun : RingUndisturbed A B C (· = i) n k modulus left
      (fun kk => if right kk = some i then some i else none) s.mem fun row col =>
        centeredResidue (∑ kk ∈ range k, keptTerm A B left
          (fun kk => if right kk = some i then some i else none) s.mem row kk col) modulus :=
    { kept := fun _ _ _ _ => rfl
      raced := by
        rintro row rfl kk _ _ r h hne
        split at h
        · exact absurd (Option.some.inj h).symm hne
        · cases h
      settled := by
        intro row _ c _ j hj hlt
        have := Nat.le_mul_of_pos_left safeInt32KBlock hj
        omega }
  refine ringRun_undisturbed (oneRow w i) (hover.single hi) hun (oneRow_unique w i)
    (fun v row hv => (mem_oneRow.1 hv).2) hm hm' (fun v => ?_) s.acc (mem_oneRow.2 ⟨rfl, rfl⟩) hcol
  exact own_oneRow (ringRowActions n k) w i v

/-- The contribution of the other rows, when row `r` holds `V r`. -/
def racedTerm (A : PlanePtr ι) (left : ℕ → Bool) (right : ℕ → Option ℕ) (mem : Planes ι) (i : ℕ)
    (V : ℕ → Int8) (kk : ℕ) : ℤ :=
  if left kk = true then 0
  else (right kk).elim 0 fun r => if r = i then 0 else (A.read mem i kk).toInt * (V r).toInt

/-- A row that finds the others with `V` stores the residues of the kept and of the raced terms. -/
theorem exec_row_of_others (hover : RingOverlap A B C Row n k left right) (hk : k ≤ safeInt32KBlock)
    (hm : 0 < modulus) (hm' : modulus ≤ 256) {i : ℕ} (hi : Row i) (w : ℕ) {col : ℕ} (hcol : col < n)
    {V : ℕ → Int8} (hout : ∀ b o, (∀ r, Row r → ¬ C.InRow n r b o) → s.mem b o = mem b o)
    (hV : ∀ r, Row r → r ≠ i → C.read s.mem r col = V r)
    (hzero : ∀ c < n, C.read s.mem i c = 0) :
    C.read (exec (ringStep A B C n modulus) s
        ((ringBlockActions n k i k 0).map (Prod.mk w))).mem i col =
      centeredResidue (∑ kk ∈ range k, (keptTerm A B left right mem i kk col +
        racedTerm A left right mem i V kk)) modulus := by
  -- the row is clear already
  have hclear : ringStep A B C n modulus s (w, .clearRow i) = s := by
    refine congrArg (fun mem => TeamState.mk mem s.acc) (funext fun b => funext fun o => ?_)
    unfold storeRow
    split
    · next h =>
      obtain ⟨rfl, hlo, hhi⟩ := h
      have hcell := hzero (o - C.addr i 0) (by omega)
      have haddr : C.addr i (o - C.addr i 0) = o := by
        simp only [PlanePtr.addr] at hlo hhi ⊢
        omega
      rw [PlanePtr.read, haddr] at hcell
      exact hcell.symm
    · rfl
  have hrun := exec_row (s := s) hover hk hm hm' hi w hcol
  rw [ringRowActions, List.map_cons, exec_cons, hclear] at hrun
  rw [hrun]
  refine congrArg (fun v => centeredResidue v modulus) (sum_congr rfl fun kk hkk => ?_)
  have hkk := mem_range.1 hkk
  unfold keptTerm racedTerm
  by_cases hleft : left kk = true
  · simp [hleft]
  have hleft' : left kk = false := by simpa using hleft
  have hA : A.read s.mem i kk = A.read mem i kk :=
    hout _ _ fun r hr => hover.left_out kk hkk hleft' i hi r hr
  rcases hright : right kk with _ | r
  · have hB : B.read s.mem kk col = B.read mem kk col :=
      hout _ _ fun r hr => hover.right_out kk hkk hright col hcol r hr
    simp [hleft', hright, hA, hB]
  · obtain ⟨hr, hbuf, haddr⟩ := hover.right_cell kk r hright
    have hB : B.read s.mem kk col = C.read s.mem r col := by
      rw [PlanePtr.read, PlanePtr.read, hbuf, haddr col hcol]
    by_cases hri : r = i
    · simp [hleft', hright, hri]
    · simp [hleft', hright, hri, hA, hB, hV r hr hri]

/-! ### Runs in two phases -/

theorem onRow_of_mem_segments {seg : ℕ → List RingAction} {l : List ℕ}
    (hseg : ∀ row, ∀ a ∈ seg row, a ∈ ringRowActions n k row) {e : ℕ × RingAction}
    (he : e ∈ l.flatMap fun row => (seg row).map (Prod.mk row)) :
    ∃ row ∈ l, e.2.OnRow n row := by
  obtain ⟨row, hrow, he⟩ := List.mem_flatMap.1 he
  obtain ⟨a, ha, rfl⟩ := List.mem_map.1 he
  exact ⟨row, hrow, onRow_of_mem_ringRowActions a (hseg row a ha)⟩

/-- The first phase clears the rows that are not held back. -/
theorem exec_clears (hld : n ≤ C.ld) (held : ℕ → Bool) (l : List ℕ) (s : TeamState ι) {r col : ℕ}
    (hcol : col < n) :
    C.read (exec (ringStep A B C n modulus) s (l.flatMap fun row =>
        ((ringRowActions n k row).take (if held row then 0 else 1)).map (Prod.mk row))).mem r col =
      if r ∈ l ∧ held r = false then 0 else C.read s.mem r col := by
  induction l generalizing s with
  | nil => simp
  | cons row l ih =>
    rw [List.flatMap_cons, exec_append, ih]
    by_cases hheld : held row = true
    · rw [if_pos hheld, List.take_zero, List.map_nil, exec_nil]
      refine if_congr (and_congr_left fun hr => ?_) rfl rfl
      rw [List.mem_cons, or_iff_right]
      rintro rfl
      rw [hheld] at hr
      cases hr
    · have hclear : C.read (ringStep A B C n modulus s (row, .clearRow row)).mem r col =
          if r = row then 0 else C.read s.mem r col :=
        PlanePtr.read_storeRow_row hld (fun _ => 0) s.mem hcol
      have hheld' : held row = false := by simpa using hheld
      rw [if_neg hheld, ringRowActions, List.take_succ_cons, List.take_zero, List.map_cons,
        List.map_nil, exec_cons, exec_nil, hclear]
      by_cases hr : r = row
      · subst hr
        simp [hheld']
      · simp [hr]

/-- The team whose rows clear themselves first, those held back excepted, and then run in order. -/
def clearedTeam (held : ℕ → Bool) (order : RowSchedule) : RowTeam RingAction :=
  phasedTeam (fun row => if held row then 0 else 1) order

variable (A B C m n k modulus mem) in
/-- The state after the first phase. -/
def clearedState (held : ℕ → Bool) : TeamState ι :=
  exec (ringStep A B C n modulus) ⟨mem, fun _ _ => 0⟩ ((List.range m).flatMap fun row =>
    ((ringRowActions n k row).take (if held row then 0 else 1)).map (Prod.mk row))

theorem clearedState_read (hld : n ≤ C.ld) (held : ℕ → Bool) {r col : ℕ} (hr : r < m)
    (hcol : col < n) : C.read (clearedState A B C m n k modulus mem held).mem r col =
      if held r then C.read mem r col else 0 := by
  refine (exec_clears hld held (List.range m) _ hcol).trans ?_
  cases hheld : held r <;> simp [hr]

theorem clearedState_out (held : ℕ → Bool) {b : ι} {o : ℕ} (ho : ∀ r < m, ¬ C.InRow n r b o) :
    (clearedState A B C m n k modulus mem held).mem b o = mem b o := by
  refine exec_read_of_out (· < m) (fun e he => ?_) ho
  obtain ⟨row, hrow, hon⟩ := onRow_of_mem_segments (k := k)
    (fun row a ha => List.mem_of_mem_take ha) he
  exact ⟨row, List.mem_range.1 hrow, hon⟩

/-- What is left of a row that was not held back. -/
theorem drop_ringRowActions {held : ℕ → Bool} {row : ℕ} (hheld : held row = false) :
    (ringRowActions n k row).drop (if held row then 0 else 1) = ringBlockActions n k row k 0 := by
  rw [if_neg (by simp [hheld])]
  rfl

variable (mem) in
/-- **A row that runs first after the clearing.** -/
theorem clearedTeam_read (hover : RingOverlap A B C (· < m) n k left right)
    (hk : k ≤ safeInt32KBlock) (hm : 0 < modulus) (hm' : modulus ≤ 256) (held : ℕ → Bool) {i : ℕ}
    (hi : i < m) (hheld : held i = false) {col : ℕ} (hcol : col < n) :
    C.read (ringGemmModulus (clearedTeam held (rowsFirst [i] (List.nodup_singleton i))) A B C m n k
        modulus mem) i col =
      centeredResidue (∑ kk ∈ range k, (keptTerm A B left right mem i kk col +
        racedTerm A left right mem i (fun r => if held r then C.read mem r col else 0) kk))
        modulus := by
  have horder : (rowsFirst [i] (List.nodup_singleton i)).order m =
      i :: (List.range m).filter (· ∉ [i]) := by
    simp [rowsFirst, hi]
  unfold ringGemmModulus clearedTeam phasedTeam
  simp only [horder]
  rw [exec_append, List.flatMap_cons, exec_append, drop_ringRowActions hheld]
  -- the rows after it do not touch it
  refine (exec_read_of_other (hover.ld i hi) (fun e he => ?_) hcol).trans ?_
  · obtain ⟨row, hrow, hon⟩ := onRow_of_mem_segments (k := k)
      (fun row a ha => List.mem_of_mem_drop ha) he
    exact ⟨row, by simpa using (List.mem_filter.1 hrow).2, hon⟩
  · exact exec_row_of_others (s := clearedState A B C m n k modulus mem held) hover hk hm hm' hi i
      hcol (fun b o => clearedState_out held)
      (fun r hr _ => clearedState_read (hover.ld i hi) held hr hcol)
      fun c hc => (clearedState_read (hover.ld i hi) held hi hc).trans (by rw [hheld]; rfl)

variable (mem) in
/-- **A row that runs second after the clearing**, when the first one is done with `v`. -/
theorem clearedTeam_read_second (hover : RingOverlap A B C (· < m) n k left right)
    (hk : k ≤ safeInt32KBlock) (hm : 0 < modulus) (hm' : modulus ≤ 256) {r₀ i : ℕ} (hr₀ : r₀ < m)
    (hi : i < m) (hne : r₀ ≠ i) {order : RowSchedule} {others : List ℕ}
    (horder : order.order m = r₀ :: i :: others) (hothers : r₀ ∉ others ∧ i ∉ others) {col : ℕ}
    (hcol : col < n) {v : Int8} (hv : C.read (ringGemmModulus (clearedTeam (fun _ => false) order)
      A B C m n k modulus mem) r₀ col = v) :
    C.read (ringGemmModulus (clearedTeam (fun _ => false) order) A B C m n k modulus mem) i col =
      centeredResidue (∑ kk ∈ range k, (keptTerm A B left right mem i kk col +
        racedTerm A left right mem i (fun r => if r = r₀ then v else 0) kk)) modulus := by
  set t := exec (ringStep A B C n modulus) (clearedState A B C m n k modulus mem fun _ => false)
    ((ringBlockActions n k r₀ k 0).map (Prod.mk r₀)) with ht
  have hrun : ringGemmModulus (clearedTeam (fun _ => false) order) A B C m n k modulus mem =
      (exec (ringStep A B C n modulus) (exec (ringStep A B C n modulus) t
        ((ringBlockActions n k i k 0).map (Prod.mk i))) (others.flatMap fun row =>
          ((ringRowActions n k row).drop 1).map (Prod.mk row))).mem := by
    unfold ringGemmModulus clearedTeam phasedTeam
    simp only [horder]
    rw [exec_append, List.flatMap_cons, exec_append, List.flatMap_cons, exec_append]
    rfl
  have hrest : ∀ r, ∀ e ∈ (ringBlockActions n k r k 0).map (Prod.mk r), e.2.OnRow n r := by
    intro r e he
    obtain ⟨a, ha, rfl⟩ := List.mem_map.1 he
    exact onRow_of_mem_ringBlockActions a ha
  -- the other rows touch neither
  have hkeep : ∀ r, r ∉ others → ∀ u : TeamState ι, C.read (exec (ringStep A B C n modulus) u
      (others.flatMap fun row => ((ringRowActions n k row).drop 1).map (Prod.mk row))).mem r col =
        C.read u.mem r col := by
    intro r hr u
    refine exec_read_of_other (hover.ld i hi) (fun e he => ?_) hcol
    obtain ⟨row, hrow, hon⟩ := onRow_of_mem_segments (k := k)
      (fun row a ha => List.mem_of_mem_drop ha) he
    exact ⟨row, fun h => hr (h ▸ hrow), hon⟩
  have hfirst : C.read (exec (ringStep A B C n modulus) t
      ((ringBlockActions n k i k 0).map (Prod.mk i))).mem r₀ col = C.read t.mem r₀ col :=
    exec_read_of_other (hover.ld i hi) (fun e he => ⟨i, Ne.symm hne, hrest i e he⟩) hcol
  rw [hrun, hkeep r₀ hothers.1, hfirst] at hv
  rw [hrun, hkeep i hothers.2]
  refine exec_row_of_others (s := t) hover hk hm hm' hi i hcol (fun b o ho => ?_)
    (fun r hr hri => ?_) fun c hc => ?_
  · exact (exec_read_of_out (· < m) (fun e he => ⟨r₀, hr₀, hrest r₀ e he⟩) ho).trans
      (clearedState_out _ ho)
  · by_cases hr' : r = r₀
    · rw [hr', if_pos rfl, hv]
    · rw [if_neg hr']
      exact (exec_read_of_other (hover.ld i hi) (fun e he => ⟨r₀, Ne.symm hr', hrest r₀ e he⟩) hcol).trans
        (clearedState_read (hover.ld i hi) _ hr hcol)
  · exact (exec_read_of_other (hover.ld i hi) (fun e he => ⟨r₀, hne, hrest r₀ e he⟩) hc).trans
      (clearedState_read (hover.ld i hi) _ hi hc)

/-! ### What every team's storing the target says -/

omit [DecidableEq ι] in
/-- Only the row that differs from zero contributes. -/
theorem sum_racedTerm (hover : RingOverlap A B C Row n k left right) {i r kk : ℕ} (hkk : kk < k)
    (hleft : left kk = false) (hright : right kk = some r) (hne : r ≠ i) {V : ℕ → Int8}
    (hV : ∀ r', r' ≠ r → V r' = 0) :
    ∑ kk ∈ range k, racedTerm A left right mem i V kk =
      (A.read mem i kk).toInt * (V r).toInt := by
  rw [sum_eq_single kk]
  · simp [racedTerm, hleft, hright, hne]
  · intro kk' _ hne'
    unfold racedTerm
    split
    · rfl
    rcases hright' : right kk' with _ | r'
    · rfl
    · have hr' : r' ≠ r := fun h => hne' (hover.right_inj kk' kk r (h ▸ hright') hright)
      simp [hV r' hr']
  · intro h
    exact absurd (mem_range.2 hkk) h

/-- What may be added to a residue without changing it. -/
theorem dvd_of_modEq_add {x y : ℤ} {q : ℕ} (h : x ≡ x + y [ZMOD q]) : (q : ℤ) ∣ y := by
  have := h.dvd
  rwa [add_sub_cancel_left] at this

/-- **The operands are undisturbed** when every team stores the target. -/
theorem undisturbed_of_all_teams (hover : RingOverlap A B C (· < m) n k left right)
    (hk : k ≤ safeInt32KBlock) (hm : 0 < modulus) (hm' : modulus ≤ 256)
    (hall : ∀ team : RowTeam RingAction, ∀ row < m, ∀ col < n,
      C.read (ringGemmModulus team A B C m n k modulus mem) row col = T row col) :
    RingUndisturbed A B C (· < m) n k modulus left right mem T := by
  -- when no row is held back, all rows are clear before any is computed
  have hkept : ∀ row < m, ∀ col < n, T row col =
      centeredResidue (∑ kk ∈ range k, keptTerm A B left right mem row kk col) modulus := by
    intro row hrow col hcol
    rw [← hall _ row hrow col hcol,
      clearedTeam_read mem hover hk hm hm' (fun _ => false) hrow rfl hcol]
    refine congrArg (fun v => centeredResidue v modulus) (sum_congr rfl fun kk _ => ?_)
    rw [add_eq_left]
    unfold racedTerm
    rcases right kk with _ | r <;> simp
  refine ⟨hkept, fun row hrow kk hkk hleft r hright hne col hcol => ⟨?_, ?_⟩, ?_⟩
  · -- the other row is held back
    have hrun := clearedTeam_read mem hover hk hm hm' (fun r' => decide (r' = r)) hrow
      (decide_eq_false (Ne.symm hne)) hcol
    rw [hall _ row hrow col hcol, hkept row hrow col hcol, sum_add_distrib,
      sum_racedTerm hover hkk hleft hright hne (fun r' hr' => if_neg (by simpa using hr')),
      centeredResidue_eq_iff hm hm'] at hrun
    rw [if_pos (by simp)] at hrun
    exact dvd_of_modEq_add hrun
  · -- the other row is done
    have hr : r < m := (hover.right_cell kk r hright).1
    have horder : (rowsFirst [r, row] (by simpa using hne)).order m =
        r :: row :: (List.range m).filter (· ∉ [r, row]) := by
      simp [rowsFirst, hr, hrow]
    have hrun := clearedTeam_read_second mem hover hk hm hm' hr hrow hne horder
      ⟨by simp, by simp⟩ hcol (hall _ r hr col hcol)
    rw [hall _ row hrow col hcol, hkept row hrow col hcol, sum_add_distrib,
      sum_racedTerm hover hkk hleft hright hne (fun r' hr' => if_neg hr'),
      centeredResidue_eq_iff hm hm'] at hrun
    rw [if_pos rfl] at hrun
    exact dvd_of_modEq_add hrun
  -- there is one block only
  · intro row _ col _ j hj hlt
    have := Nat.le_mul_of_pos_left safeInt32KBlock hj
    omega

end Rns8
