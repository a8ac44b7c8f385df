import Rns8.Cpu.RingTeam
import Rns8.Lib.RelyGuarantee

/-!
# Operands that the call overwrites

A call of `ring_gemm_modulus` whose operands may lie in its output. `RingOverlap` says where: a
position of the inner dimension names a column of the output row in the left operand (`left`), a row
of the output in the right one (`right`). A row clears itself before it reads, and reads the cells of
other rows while their workers clear and store them; `RingUndisturbed` is what the operands have to
satisfy for that to do no harm: the terms that are lost do not count, and neither do the terms of rows
in any state their workers leave them in. Then every run of every team stores the target
(`ringRun_undisturbed`). The argument is one of rely and guarantee: at any moment a cell of the output
holds what it held before, zero or the target.
-/

namespace Rns8

open Finset CenteredResidue LabelledRun RelyGuarantee

variable {ι : Type} [DecidableEq ι]

/-- The offset lies in a row of the rectangle behind the pointer. -/
def PlanePtr.InRow (P : PlanePtr ι) (n row : ℕ) (b : ι) (o : ℕ) : Prop :=
  b = P.buf ∧ P.addr row 0 ≤ o ∧ o < P.addr row 0 + n

/-- Where the operands of a call with the output rows `Row` lie in its output. -/
structure RingOverlap (A B C : PlanePtr ι) (Row : ℕ → Prop) (n k : ℕ) (left : ℕ → Bool)
    (right : ℕ → Option ℕ) : Prop where
  ld : ∀ row, Row row → n ≤ C.ld
  left_cell : ∀ kk, left kk = true → A.buf = C.buf ∧ ∃ col < n, ∀ row, A.addr row kk = C.addr row col
  left_out : ∀ kk < k, left kk = false → ∀ row, Row row → ∀ r, Row r →
    ¬ C.InRow n r A.buf (A.addr row kk)
  right_cell : ∀ kk r, right kk = some r → Row r ∧ B.buf = C.buf ∧
    ∀ col < n, B.addr kk col = C.addr r col
  right_out : ∀ kk < k, right kk = none → ∀ col < n, ∀ r, Row r → ¬ C.InRow n r B.buf (B.addr kk col)
  right_inj : ∀ kk kk' r, right kk = some r → right kk' = some r → kk = kk'

/-- The term of a position of the inner dimension, which is lost when one of its cells lies in the
output. -/
def keptTerm (A B : PlanePtr ι) (left : ℕ → Bool) (right : ℕ → Option ℕ) (mem : Planes ι)
    (row kk col : ℕ) : ℤ :=
  if left kk = true ∨ (right kk).isSome = true then 0
  else (A.read mem row kk).toInt * (B.read mem kk col).toInt

/-- The overwriting does no harm: the terms that are not lost make up the target (`kept`); the cells
of other rows contribute nothing, neither as they were nor with their target (`raced`); and between
two blocks of the inner dimension nothing is left in the row (`settled`). -/
structure RingUndisturbed (A B C : PlanePtr ι) (Row : ℕ → Prop) (n k modulus : ℕ)
    (left : ℕ → Bool) (right : ℕ → Option ℕ) (mem : Planes ι) (T : ℕ → ℕ → Int8) : Prop where
  kept : ∀ row, Row row → ∀ col < n, T row col =
    centeredResidue (∑ kk ∈ range k, keptTerm A B left right mem row kk col) modulus
  raced : ∀ row, Row row → ∀ kk < k, left kk = false → ∀ r, right kk = some r → r ≠ row →
    ∀ col < n, (modulus : ℤ) ∣ (A.read mem row kk).toInt * (C.read mem r col).toInt ∧
      (modulus : ℤ) ∣ (A.read mem row kk).toInt * (T r col).toInt
  settled : ∀ row, Row row → ∀ col < n, ∀ j, 0 < j → j * safeInt32KBlock < k →
    (modulus : ℤ) ∣ ∑ kk ∈ range (j * safeInt32KBlock), keptTerm A B left right mem row kk col

omit [DecidableEq ι] in
/-- With no position kept, nothing is left of a product. -/
theorem sum_keptTerm_of_lost (A B : PlanePtr ι) {k : ℕ} {left : ℕ → Bool} {right : ℕ → Option ℕ}
    (hlost : ∀ kk < k, left kk = true ∨ (right kk).isSome = true) (mem : Planes ι) (row col : ℕ)
    {i : ℕ} (hi : i ≤ k) : ∑ kk ∈ range i, keptTerm A B left right mem row kk col = 0 :=
  sum_eq_zero fun kk hkk => if_pos (hlost kk (by have := mem_range.1 hkk; omega))

omit [DecidableEq ι] in
/-- **In place on the left.** Rows that overwrite all they read do no harm to the product zero only. -/
theorem ringUndisturbed_left_iff {A B C : PlanePtr ι} {Row : ℕ → Prop} {n k modulus : ℕ}
    {left : ℕ → Bool} {right : ℕ → Option ℕ} {mem : Planes ι} {T : ℕ → ℕ → Int8} (hm : 0 < modulus)
    (hleft : ∀ kk < k, left kk = true) :
    RingUndisturbed A B C Row n k modulus left right mem T ↔
      ∀ row, Row row → ∀ col < n, T row col = 0 := by
  have hlost : ∀ row col, ∀ i ≤ k,
      ∑ kk ∈ range i, keptTerm A B left right mem row kk col = 0 := fun row col _ hi =>
    sum_keptTerm_of_lost A B (fun kk hkk => Or.inl (hleft kk hkk)) mem row col hi
  constructor
  · intro h row hrow col hcol
    rw [h.kept row hrow col hcol, hlost row col k (le_refl k), centeredResidue_zero hm]
  · intro h
    refine ⟨fun row hrow col hcol => ?_, fun row _ kk hkk hno => ?_, fun row _ col _ j _ hlt => ?_⟩
    · rw [h row hrow col hcol, hlost row col k (le_refl k), centeredResidue_zero hm]
    · rw [hleft kk hkk] at hno
      cases hno
    · rw [hlost row col _ hlt.le]
      exact dvd_zero _

omit [DecidableEq ι] in
/-- **In place on the right.** When the rows overwrite the right operand, they do no harm if the
product is zero because every term of other rows is. -/
theorem ringUndisturbed_right_iff {A B C : PlanePtr ι} {Row : ℕ → Prop} {n k modulus : ℕ}
    {left : ℕ → Bool} {right : ℕ → Option ℕ} {mem : Planes ι} {T : ℕ → ℕ → Int8} (hm : 0 < modulus)
    (hleft : ∀ kk < k, left kk = false) (hright : ∀ kk < k, ∃ r, right kk = some r ∧ Row r) :
    RingUndisturbed A B C Row n k modulus left right mem T ↔
      (∀ row, Row row → ∀ col < n, T row col = 0) ∧
        ∀ row, Row row → ∀ kk < k, ∀ r, right kk = some r → r ≠ row → ∀ col < n,
          (modulus : ℤ) ∣ (A.read mem row kk).toInt * (C.read mem r col).toInt := by
  have hlost : ∀ row col, ∀ i ≤ k,
      ∑ kk ∈ range i, keptTerm A B left right mem row kk col = 0 := by
    intro row col i hi
    refine sum_keptTerm_of_lost A B (fun kk hkk => Or.inr ?_) mem row col hi
    obtain ⟨r, hr, -⟩ := hright kk hkk
    rw [hr]
    rfl
  constructor
  · intro h
    refine ⟨fun row hrow col hcol => ?_, fun row hrow kk hkk r hr hne col hcol =>
      (h.raced row hrow kk hkk (hleft kk hkk) r hr hne col hcol).1⟩
    rw [h.kept row hrow col hcol, hlost row col k (le_refl k), centeredResidue_zero hm]
  · rintro ⟨hzero, hterm⟩
    refine ⟨fun row hrow col hcol => ?_, fun row hrow kk hkk _ r hr hne col hcol =>
      ⟨hterm row hrow kk hkk r hr hne col hcol, ?_⟩, fun row _ col _ j _ hlt => ?_⟩
    · rw [hzero row hrow col hcol, hlost row col k (le_refl k), centeredResidue_zero hm]
    · obtain ⟨r', hr', hRow⟩ := hright kk hkk
      obtain rfl : r' = r := Option.some.inj (hr'.symm.trans hr)
      rw [hzero r' hRow col hcol]
      simp
    · rw [hlost row col _ hlt.le]
      exact dvd_zero _

/-! ### Cells of the output -/

omit [DecidableEq ι] in
theorem PlanePtr.inRow_addr (P : PlanePtr ι) {n col : ℕ} (hcol : col < n) (row : ℕ) :
    P.InRow n row P.buf (P.addr row col) := by
  refine ⟨rfl, ?_, ?_⟩ <;> simp only [PlanePtr.addr] <;> omega

omit [DecidableEq ι] in
theorem PlanePtr.addr_inj {P : PlanePtr ι} {n : ℕ} (hld : n ≤ P.ld) {r c row col : ℕ} (hc : c < n)
    (hcol : col < n) (h : P.addr r c = P.addr row col) : r = row ∧ c = col := by
  simp only [PlanePtr.addr, Nat.add_assoc, Nat.add_left_cancel_iff] at h
  exact RowMajor.eq_of_offset_eq (by omega) (by omega) h

theorem PlanePtr.read_store {P : PlanePtr ι} {n : ℕ} (hld : n ≤ P.ld) {row col r c : ℕ} (v : Int8)
    (mem : Planes ι) (hcol : col < n) (hc : c < n) :
    P.read (P.store row col v mem) r c = if r = row ∧ c = col then v else P.read mem r c := by
  refine if_congr ⟨fun h => P.addr_inj hld hc hcol h.2, ?_⟩ rfl rfl
  rintro ⟨rfl, rfl⟩
  exact ⟨rfl, rfl⟩

theorem PlanePtr.read_storeRow_row {P : PlanePtr ι} {n : ℕ} (hld : n ≤ P.ld) {row r c : ℕ}
    (f : ℕ → Int8) (mem : Planes ι) (hc : c < n) :
    P.read (storeRow P row n f mem) r c = if r = row then f c else P.read mem r c := by
  by_cases hr : r = row
  · subst hr
    rw [if_pos rfl, read_storeRow P r n f mem hc]
  · rw [if_neg hr]
    exact storeRow_of_not_mem P row n f mem fun h => hr (row_eq_of_mem hld hc h).symm

/-! ### The invariant -/

section Run

variable {A B C : PlanePtr ι} {Row : ℕ → Prop} {n k modulus : ℕ} {left : ℕ → Bool}
  {right : ℕ → Option ℕ} {mem : Planes ι} {T : ℕ → ℕ → Int8} {rows : ℕ → List ℕ}

variable (C Row n mem T) in
/-- A cell of the output holds what it held before, zero or the target; the others are untouched. -/
structure OverlapInv (s : TeamState ι) : Prop where
  out : ∀ b o, (∀ r, Row r → ¬ C.InRow n r b o) → s.mem b o = mem b o
  held : ∀ r, Row r → ∀ col < n, C.read s.mem r col = C.read mem r col ∨ C.read s.mem r col = 0 ∨
    C.read s.mem r col = T r col

variable (C Row n mem T rows) in
/-- What the others leave alone: the accumulator and the rows of the worker. -/
structure OverlapRely (w : ℕ) (s t : TeamState ι) : Prop where
  inv : OverlapInv C Row n mem T s → OverlapInv C Row n mem T t
  acc : t.acc w = s.acc w
  rows : ∀ r ∈ rows w, ∀ col < n, C.read t.mem r col = C.read s.mem r col

variable (C Row n mem T rows) in
/-- What a worker leaves alone: the accumulators and the rows of the others. -/
structure OverlapGuar (w : ℕ) (s t : TeamState ι) : Prop where
  inv : OverlapInv C Row n mem T s → OverlapInv C Row n mem T t
  acc : ∀ v, v ≠ w → t.acc v = s.acc v
  rows : ∀ r, r ∉ rows w → ∀ col < n, C.read t.mem r col = C.read s.mem r col

omit [DecidableEq ι] in
theorem overlap_compatible (hunique : ∀ w v row, row ∈ rows w → row ∈ rows v → w = v) :
    Compatible (OverlapRely C Row n mem T rows) (OverlapGuar C Row n mem T rows) where
  refl _ _ := ⟨id, rfl, fun _ _ _ _ => rfl⟩
  trans _ _ _ _ h h' := ⟨h'.inv ∘ h.inv, h'.acc.trans h.acc,
    fun r hr col hcol => (h'.rows r hr col hcol).trans (h.rows r hr col hcol)⟩
  guar w v _ _ hne h := ⟨h.inv, h.acc w (Ne.symm hne),
    fun r hr => h.rows r fun hv => hne (hunique v w r hv hr)⟩

variable (C Row n mem T) in
/-- A worker at one of its rows: the rows it has done hold the target, the cells of the row satisfy
`f` and the accumulators `a`. -/
structure RowPhase (w row : ℕ) (done : List ℕ) (f : ℕ → Int8 → Prop) (a : ℕ → Int32 → Prop)
    (s : TeamState ι) : Prop where
  inv : OverlapInv C Row n mem T s
  done : ∀ r ∈ done, r ≠ row → ∀ col < n, C.read s.mem r col = T r col
  cell : ∀ col < n, f col (C.read s.mem row col)
  acc : ∀ col < n, a col (s.acc w col)

variable {w row : ℕ} {done : List ℕ} {f : ℕ → Int8 → Prop} {a : ℕ → Int32 → Prop} {s : TeamState ι}

omit [DecidableEq ι] in
theorem RowPhase.stable (hrow : row ∈ rows w) (hdone : ∀ r ∈ done, r ∈ rows w) :
    Stable (OverlapRely C Row n mem T rows) w (RowPhase C Row n mem T w row done f a) :=
  fun s t hst hs =>
    { inv := hst.inv hs.inv
      done := fun r hr hne col hcol =>
        (hst.rows r (hdone r hr) col hcol).trans (hs.done r hr hne col hcol)
      cell := fun col hcol => by
        rw [hst.rows row hrow col hcol]
        exact hs.cell col hcol
      acc := fun col hcol => by
        rw [hst.acc]
        exact hs.acc col hcol }

omit [DecidableEq ι] in
theorem RowPhase.weaken {f' : ℕ → Int8 → Prop} {a' : ℕ → Int32 → Prop}
    (h : RowPhase C Row n mem T w row done f a s) (hf : ∀ col < n, ∀ v, f col v → f' col v)
    (ha : ∀ col < n, ∀ x, a col x → a' col x) : RowPhase C Row n mem T w row done f' a' s :=
  ⟨h.inv, h.done, fun col hcol => hf col hcol _ (h.cell col hcol),
    fun col hcol => ha col hcol _ (h.acc col hcol)⟩

/-! ### Actions -/

/-- Storing an allowed value in a cell of the row. -/
theorem RowPhase.store (hld : n ≤ C.ld) (hRow : Row row) (hrow : row ∈ rows w)
    (hs : RowPhase C Row n mem T w row done f a s) {col : ℕ} (hcol : col < n) {v : Int8}
    (hv : v = 0 ∨ v = T row col) {t : TeamState ι} (hmem : t.mem = C.store row col v s.mem)
    (hacc : t.acc = s.acc) :
    OverlapGuar C Row n mem T rows w s t ∧
      RowPhase C Row n mem T w row done (fun c x => if c = col then x = v else f c x) a t := by
  have hread : ∀ r, ∀ c < n, C.read t.mem r c = if r = row ∧ c = col then v else C.read s.mem r c :=
    fun r c hc => by rw [hmem, PlanePtr.read_store hld v s.mem hcol hc]
  -- a cell of the output may hold zero or the target
  have hinv : OverlapInv C Row n mem T s → OverlapInv C Row n mem T t := fun h =>
    { out := fun b o ho => by
        rw [hmem, ← h.out b o ho]
        refine if_neg fun heq => ho row hRow ?_
        rw [heq.1, heq.2]
        exact C.inRow_addr hcol row
      held := fun r hr c hc => by
        rw [hread r c hc]
        split
        · next heq =>
          obtain ⟨rfl, rfl⟩ := heq
          exact Or.inr hv
        · exact h.held r hr c hc }
  refine ⟨⟨hinv, fun v _ => by rw [hacc], fun r hr c hc => ?_⟩, hinv hs.inv, ?_, ?_, ?_⟩
  -- the rows of the others stay
  · rw [hread r c hc, if_neg]
    rintro ⟨rfl, -⟩
    exact hr hrow
  · intro r hr hne c hc
    rw [hread r c hc, if_neg fun h => hne h.1]
    exact hs.done r hr hne c hc
  · intro c hc
    by_cases heq : c = col
    · simp only [if_pos heq]
      rw [hread row c hc, if_pos ⟨rfl, heq⟩]
    · simp only [if_neg heq]
      rw [hread row c hc, if_neg fun h => heq h.2]
      exact hs.cell c hc
  · rw [hacc]
    exact hs.acc

variable (A B modulus) in
/-- Clearing the row. -/
theorem RowPhase.clearRow (hld : n ≤ C.ld) (hRow : Row row) (hrow : row ∈ rows w)
    (hs : RowPhase C Row n mem T w row done f a s) :
    OverlapGuar C Row n mem T rows w s (ringStep A B C n modulus s (w, .clearRow row)) ∧
      RowPhase C Row n mem T w row done (fun _ x => x = 0) a
        (ringStep A B C n modulus s (w, .clearRow row)) := by
  set t := ringStep A B C n modulus s (w, .clearRow row) with ht
  have hread : ∀ r, ∀ c < n, C.read t.mem r c = if r = row then 0 else C.read s.mem r c :=
    fun r c hc => PlanePtr.read_storeRow_row hld (fun _ => 0) s.mem hc
  have hinv : OverlapInv C Row n mem T s → OverlapInv C Row n mem T t := fun h =>
    { out := fun b o ho => by
        rw [← h.out b o ho]
        exact if_neg (ho row hRow)
      held := fun r hr c hc => by
        rw [hread r c hc]
        split
        · exact Or.inr (Or.inl rfl)
        · exact h.held r hr c hc }
  refine ⟨⟨hinv, fun v _ => rfl, fun r hr c hc => ?_⟩, hinv hs.inv, ?_, ?_, hs.acc⟩
  · rw [hread r c hc, if_neg]
    rintro rfl
    exact hr hrow
  · intro r hr hne c hc
    rw [hread r c hc, if_neg hne]
    exact hs.done r hr hne c hc
  · intro c hc
    rw [hread row c hc, if_pos rfl]

omit [DecidableEq ι] in
/-- An action that leaves the buffers alone and writes the accumulators of its worker. -/
theorem RowPhase.accumulators (hs : RowPhase C Row n mem T w row done f a s) {t : TeamState ι}
    {a' : ℕ → Int32 → Prop} (hmem : t.mem = s.mem) (hother : ∀ v, v ≠ w → t.acc v = s.acc v)
    (hacc : ∀ c < n, a' c (t.acc w c)) :
    OverlapGuar C Row n mem T rows w s t ∧ RowPhase C Row n mem T w row done f a' t := by
  have hinv : OverlapInv C Row n mem T s → OverlapInv C Row n mem T t := fun h =>
    ⟨by rw [hmem]; exact h.out, by rw [hmem]; exact h.held⟩
  refine ⟨⟨hinv, hother, fun r _ c _ => by rw [hmem]⟩, hinv hs.inv, ?_, ?_, hacc⟩
  · rw [hmem]
    exact hs.done
  · rw [hmem]
    exact hs.cell

omit [DecidableEq ι] in
/-- **What a row reads.** The product of the two cells at a position is the kept term, up to multiples
of the modulus: a cell of the row itself is zero, and the terms of the other rows do not count. -/
theorem reads_kept (hover : RingOverlap A B C Row n k left right)
    (hun : RingUndisturbed A B C Row n k modulus left right mem T) (hRow : Row row)
    (hinv : OverlapInv C Row n mem T s) (hzero : ∀ col < n, C.read s.mem row col = 0) {kk col : ℕ}
    (hkk : kk < k) (hcol : col < n) :
    (A.read s.mem row kk).toInt * (B.read s.mem kk col).toInt ≡
      keptTerm A B left right mem row kk col [ZMOD modulus] := by
  unfold keptTerm
  by_cases hleft : left kk = true
  · -- the left cell is in the row, which is clear
    obtain ⟨hbuf, c, hc, haddr⟩ := hover.left_cell kk hleft
    have hA : A.read s.mem row kk = C.read s.mem row c := by
      rw [PlanePtr.read, PlanePtr.read, hbuf, haddr row]
    rw [if_pos (Or.inl hleft), hA, hzero c hc]
    simp [Int.ModEq.refl]
  have hleft' : left kk = false := by simpa using hleft
  have hA : A.read s.mem row kk = A.read mem row kk :=
    hinv.out _ _ fun r hr => hover.left_out kk hkk hleft' row hRow r hr
  rcases hright : right kk with _ | r
  · have hB : B.read s.mem kk col = B.read mem kk col :=
      hinv.out _ _ fun r hr => hover.right_out kk hkk hright col hcol r hr
    rw [if_neg (by simp [hleft']), hA, hB]
  · obtain ⟨hr, hbuf, haddr⟩ := hover.right_cell kk r hright
    have hB : B.read s.mem kk col = C.read s.mem r col := by
      rw [PlanePtr.read, PlanePtr.read, hbuf, haddr col hcol]
    rw [if_pos (Or.inr Option.isSome_some), hA, hB]
    by_cases hne : r = row
    · subst hne
      rw [hzero col hcol]
      simp [Int.ModEq.refl]
    obtain ⟨hmem, hT⟩ := hun.raced row hRow kk hkk hleft' r hright hne col hcol
    -- the other row is as it was, cleared or done
    rcases hinv.held r hr col hcol with h | h | h
    · rw [h]
      exact (Int.modEq_zero_iff_dvd.2 hmem)
    · rw [h]
      simp [Int.ModEq.refl]
    · rw [h]
      exact (Int.modEq_zero_iff_dvd.2 hT)

/-! ### One row -/

section Row

variable (A B C Row n modulus mem T rows) in
/-- The obligation of a worker of the call. -/
abbrev RowTriple (w : ℕ) (P : TeamState ι → Prop) (as : List RingAction) (Q : TeamState ι → Prop) :
    Prop :=
  Triple (ringStep A B C n modulus) (OverlapRely C Row n mem T rows)
    (OverlapGuar C Row n mem T rows) w P as Q

variable (A B left right mem modulus) in
/-- The accumulator of a column after `i` positions of a block. -/
def PartialSum (row offset i col : ℕ) (x : Int32) : Prop :=
  x.toInt ≡ ∑ j ∈ range i, keptTerm A B left right mem row (offset + j) col [ZMOD modulus] ∧
    |x.toInt| ≤ i * 2 ^ 14

variable (hover : RingOverlap A B C Row n k left right)
  (hun : RingUndisturbed A B C Row n k modulus left right mem T)
  (hunique : ∀ w v row, row ∈ rows w → row ∈ rows v → w = v) (hRow : Row row) (hrow : row ∈ rows w)
  (hdone : ∀ r ∈ done, r ∈ rows w)

include hover hun hunique hRow hrow hdone

/-- One position of the inner dimension. -/
theorem accumulate_triple {offset i : ℕ} (hk : offset + i < k) (hi : i < safeInt32KBlock) :
    RowTriple A B C Row n modulus mem T rows w
      (RowPhase C Row n mem T w row done (fun _ x => x = 0)
        (PartialSum A B modulus left right mem row offset i))
      ((List.range n).map (.accumulate row (offset + i)))
      (RowPhase C Row n mem T w row done (fun _ x => x = 0)
        (PartialSum A B modulus left right mem row offset (i + 1))) := by
  -- the loop over the columns: those before `j` have the product of this position
  have hloop := Triple.range_map (ringStep A B C n modulus) (w := w)
    (I := fun j => RowPhase C Row n mem T w row done (fun _ x => x = 0) fun c x =>
      if c < j then PartialSum A B modulus left right mem row offset (i + 1) c x
      else PartialSum A B modulus left right mem row offset i c x)
    (f := RingAction.accumulate row (offset + i)) (overlap_compatible hunique) n
    (fun j _ => RowPhase.stable hrow hdone) fun col hcol s hs => ?_
  · refine hloop.imp (fun s hs => hs.weaken (fun _ _ _ h => h) fun c _ x h => ?_)
      fun s hs => hs.weaken (fun _ _ _ h => h) fun c hc x h => ?_
    · rwa [if_neg (by omega)]
    · rwa [if_pos hc] at h
  · -- the accumulator of `col` gets its product, the others stay
    refine hs.accumulators rfl (fun v hv => Function.update_of_ne hv _ _) fun c hc => ?_
    have hold := hs.acc c hc
    simp only [ringStep, Function.update_self]
    by_cases heq : c = col
    · subst heq
      rw [if_neg (lt_irrefl c)] at hold
      rw [if_pos (by omega), Function.update_self]
      obtain ⟨hmod, hbound⟩ := hold
      -- whatever the two cells hold by now, their product is the term modulo the modulus
      have hread := reads_kept hover hun hRow hs.inv hs.cell hk hc
      obtain ⟨hlo, hhi⟩ := abs_le.1 (int8_mul_bound (A.read s.mem row (offset + i))
        (B.read s.mem (offset + i) c))
      obtain ⟨hlo', hhi'⟩ := abs_le.1 hbound
      have hi' : (i : ℤ) < 65536 := by exact_mod_cast hi
      have hsum := toInt_add_mul (x := s.acc w c) (a := A.read s.mem row (offset + i))
        (b := B.read s.mem (offset + i) c) (by omega) (by omega)
      constructor
      · rw [hsum, sum_range_succ]
        exact hmod.add hread
      · rw [hsum, abs_le]
        push_cast
        omega
    · rw [Function.update_of_ne heq]
      by_cases hlt : c < col
      · rw [if_pos hlt] at hold
        rwa [if_pos (by omega)]
      · rw [if_neg hlt] at hold
        rwa [if_neg (by omega)]

/-- **A K block**, from a clear row: it leaves the residues of its own terms. -/
theorem block_triple (hm : 0 < modulus) (hm' : modulus ≤ 256) {offset block : ℕ} (hk : offset + block ≤ k)
    (hblock : block ≤ safeInt32KBlock) {F : ℕ → Int8} (hF : ∀ col < n, F col = centeredResidue
      (∑ j ∈ range block, keptTerm A B left right mem row (offset + j) col) modulus)
    (hgoal : ∀ col < n, F col = 0 ∨ F col = T row col) :
    RowTriple A B C Row n modulus mem T rows w
      (RowPhase C Row n mem T w row done (fun _ x => x = 0) fun _ _ => True)
      (.clearAcc ::
        ((List.range block).flatMap fun kk => (List.range n).map (.accumulate row (offset + kk))) ++
        (List.range n).map (.reduce row))
      (RowPhase C Row n mem T w row done (fun c x => x = F c) fun _ _ => True) := by
  have hcompat : Compatible (OverlapRely C Row n mem T rows) (OverlapGuar C Row n mem T rows) :=
    overlap_compatible hunique
  -- the cleared accumulators, the positions of the block, then the reductions
  refine Triple.append hcompat (R := RowPhase C Row n mem T w row done (fun _ x => x = 0)
    (PartialSum A B modulus left right mem row offset block)) ?_ ?_
  · refine Triple.cons (R := RowPhase C Row n mem T w row done (fun _ x => x = 0)
      (PartialSum A B modulus left right mem row offset 0)) (RowPhase.stable hrow hdone)
      (fun s hs => hs.accumulators rfl (fun v hv => Function.update_of_ne hv _ _) fun c _ => ?_) ?_
    · simp only [ringStep, Function.update_self]
      exact ⟨by simp [Int.ModEq.refl], by simp⟩
    · exact Triple.range_flatMap hcompat (I := fun i => RowPhase C Row n mem T w row done
        (fun _ x => x = 0) (PartialSum A B modulus left right mem row offset i)) block
        (RowPhase.stable hrow hdone) fun i hi =>
          accumulate_triple hover hun hunique hRow hrow hdone (by omega) (by omega)
  -- the reductions: the columns before `j` have left zero for their residue
  · have hloop := Triple.range_map (ringStep A B C n modulus) (w := w)
      (I := fun j => RowPhase C Row n mem T w row done
        (fun c x => if c < j then x = F c else x = 0)
        (PartialSum A B modulus left right mem row offset block))
      (f := RingAction.reduce row) hcompat n (fun j _ => RowPhase.stable hrow hdone)
      fun col hcol s hs => ?_
    · refine hloop.imp (fun s hs => hs.weaken (fun c _ x h => ?_) fun _ _ _ h => h)
        fun s hs => hs.weaken (fun c hc x h => ?_) fun _ _ _ _ => trivial
      · rwa [if_neg (by omega)]
      · rwa [if_pos hc] at h
    · have hcell := hs.cell col hcol
      rw [if_neg (lt_irrefl col)] at hcell
      -- the row is still clear in this column, so the block's sum is all there is
      have hv : reduceToCentered ((C.read s.mem row col).toInt + (s.acc w col).toInt) modulus =
          F col := by
        rw [hcell, hF col hcol, reduceToCentered_eq]
        have hzero : ((0 : Int8).toInt + (s.acc w col).toInt) = (s.acc w col).toInt := by simp
        rw [hzero]
        exact centeredResidue_congr hm hm' (hs.acc col hcol).1
      obtain ⟨hguar, hphase⟩ := hs.store (hover.ld row hRow) hRow hrow hcol
        (v := F col) (hgoal col hcol) (t := ringStep A B C n modulus s (w, .reduce row col))
        (by simp only [ringStep, hv]) rfl
      refine ⟨hguar, hphase.weaken (fun c _ x h => ?_) fun _ _ _ h => h⟩
      by_cases heq : c = col
      · subst heq
        rw [if_pos rfl] at h
        rwa [if_pos (by omega)]
      · rw [if_neg heq] at h
        by_cases hlt : c < col
        · rw [if_pos hlt] at h
          rwa [if_pos (by omega)]
        · rw [if_neg hlt] at h
          rwa [if_neg (by omega)]

/-- **The K blocks of a row.** Before each block the row is clear, after the last one it holds the
target; the induction is on the passes left. -/
theorem blocks_triple (hm : 0 < modulus) (hm' : modulus ≤ 256) (fuel offset : ℕ)
    (hfuel : k ≤ offset + fuel) (hoffset : offset = k ∨ offset < k ∧ ∃ j, offset = j * safeInt32KBlock) :
    RowTriple A B C Row n modulus mem T rows w
      (RowPhase C Row n mem T w row done (fun c x => x = centeredResidue
        (∑ kk ∈ range offset, keptTerm A B left right mem row kk c) modulus) fun _ _ => True)
      (ringBlockActions n k row fuel offset)
      (RowPhase C Row n mem T w row done (fun c x => x = T row c) fun _ _ => True) := by
  -- past the last block the kept terms are the target
  have hfinal : RowTriple A B C Row n modulus mem T rows w
      (RowPhase C Row n mem T w row done (fun c x => x = centeredResidue
        (∑ kk ∈ range k, keptTerm A B left right mem row kk c) modulus) fun _ _ => True) []
      (RowPhase C Row n mem T w row done (fun c x => x = T row c) fun _ _ => True) :=
    Triple.nil (RowPhase.stable hrow hdone) fun s hs =>
      hs.weaken (fun c hc x h => h.trans (hun.kept row hRow c hc).symm) fun _ _ _ h => h
  induction fuel generalizing offset with
  | zero =>
    obtain rfl : offset = k := by omega
    exact hfinal
  | succ fuel ih =>
    unfold ringBlockActions
    split
    swap
    · obtain rfl : offset = k := by omega
      exact hfinal
    next hlt =>
    have hstart : ∃ j, offset = j * safeInt32KBlock := (hoffset.resolve_left (by omega)).2
    obtain ⟨j, rfl⟩ := hstart
    set block := min safeInt32KBlock (k - j * safeInt32KBlock) with hblock
    have hsafe : safeInt32KBlock = 65536 := rfl
    have hsucc : (j + 1) * safeInt32KBlock = j * safeInt32KBlock + safeInt32KBlock :=
      Nat.succ_mul j safeInt32KBlock
    have hle : block ≤ safeInt32KBlock := min_le_left _ _
    have hle' : block ≤ k - j * safeInt32KBlock := min_le_right _ _
    have hnext : j * safeInt32KBlock + block = k ∨ j * safeInt32KBlock + block < k ∧
        j * safeInt32KBlock + block = (j + 1) * safeInt32KBlock := by
      omega
    -- nothing is left in the row by the blocks before
    have hbefore : ∀ col < n, (modulus : ℤ) ∣
        ∑ kk ∈ range (j * safeInt32KBlock), keptTerm A B left right mem row kk col := by
      intro col hcol
      rcases Nat.eq_zero_or_pos j with rfl | hj
      · simp
      · exact hun.settled row hRow col hcol j hj hlt
    have hF : ∀ col < n, centeredResidue
        (∑ kk ∈ range (j * safeInt32KBlock + block), keptTerm A B left right mem row kk col) modulus =
        centeredResidue
          (∑ i ∈ range block, keptTerm A B left right mem row (j * safeInt32KBlock + i) col) modulus := by
      intro col hcol
      rw [sum_range_add]
      refine centeredResidue_congr hm hm' ?_
      have := (Int.modEq_zero_iff_dvd.2 (hbefore col hcol)).add_right
        (∑ i ∈ range block, keptTerm A B left right mem row (j * safeInt32KBlock + i) col)
      rwa [zero_add] at this
    refine Triple.append (overlap_compatible hunique)
      (block_triple hover hun hunique hRow hrow hdone hm hm' (by omega) hle hF ?_ |>.imp
        (fun s hs => hs.weaken (fun col hcol x h => ?_) fun _ _ _ h => h) fun _ hs => hs)
      (ih _ (by omega) (hnext.imp id fun h => ⟨h.1, j + 1, h.2⟩))
    · intro col hcol
      -- the last block leaves the target, an earlier one zero
      rcases hnext with hk | ⟨hlt', heq⟩
      · exact Or.inr (by rw [hk]; exact (hun.kept row hRow col hcol).symm)
      · refine Or.inl ?_
        rw [heq]
        exact (centeredResidue_eq_zero_iff hm hm').2 (hun.settled row hRow col hcol (j + 1) (by omega)
          (by omega))
    · rw [h]
      exact (centeredResidue_eq_zero_iff hm hm').2 (hbefore col hcol)

/-- **One row**: it ends with the target, whatever it held. -/
theorem row_triple (hm : 0 < modulus) (hm' : modulus ≤ 256) :
    RowTriple A B C Row n modulus mem T rows w
      (RowPhase C Row n mem T w row done (fun _ _ => True) fun _ _ => True)
      (ringRowActions n k row)
      (RowPhase C Row n mem T w row done (fun c x => x = T row c) fun _ _ => True) := by
  refine Triple.cons (RowPhase.stable hrow hdone)
    (fun s hs => hs.clearRow A B modulus (hover.ld row hRow) hRow hrow)
    ((blocks_triple hover hun hunique hRow hrow hdone hm hm' k 0 (by omega) ?_).imp
      (fun s hs => hs.weaken (fun col _ x h => ?_) fun _ _ _ h => h) fun _ hs => hs)
  -- the first block starts at zero, if there is one
  · rcases Nat.eq_zero_or_pos k with h | h
    · exact Or.inl h.symm
    · exact Or.inr ⟨h, 0, (Nat.zero_mul _).symm⟩
  · rw [h, range_zero, sum_empty, centeredResidue_zero hm]

end Row

/-! ### All rows -/

variable (rows) in
/-- **A run that does no harm.** Operands that the overwriting leaves undisturbed: in every
interleaving each row ends with the target. -/
theorem ringRun_undisturbed (hover : RingOverlap A B C Row n k left right)
    (hun : RingUndisturbed A B C Row n k modulus left right mem T)
    (hunique : ∀ w v row, row ∈ rows w → row ∈ rows v → w = v)
    (hRow : ∀ w, ∀ row ∈ rows w, Row row) (hm : 0 < modulus) (hm' : modulus ≤ 256)
    {evs : List (ℕ × RingAction)}
    (hevs : ∀ w, Interleave.own w evs = (rows w).flatMap (ringRowActions n k))
    (acc : ℕ → ℕ → Int32) {w row col : ℕ} (hrow : row ∈ rows w) (hcol : col < n) :
    C.read (exec (ringStep A B C n modulus) ⟨mem, acc⟩ evs).mem row col = T row col := by
  have hcompat : Compatible (OverlapRely C Row n mem T rows) (OverlapGuar C Row n mem T rows) :=
    overlap_compatible hunique
  -- the rows of a worker, one after the other
  have hworker : ∀ w, RowTriple A B C Row n modulus mem T rows w (OverlapInv C Row n mem T)
      ((rows w).flatMap (ringRowActions n k)) fun s => OverlapInv C Row n mem T s ∧
        ∀ r ∈ rows w, ∀ col < n, C.read s.mem r col = T r col := by
    intro w
    have hloop := Triple.flatMap (ringStep A B C n modulus) (w := w) hcompat
      (I := fun done s => (∀ r ∈ done, r ∈ rows w) ∧ OverlapInv C Row n mem T s ∧
        ∀ r ∈ done, ∀ col < n, C.read s.mem r col = T r col) (f := ringRowActions n k) (rows w)
      (fun s t hst hs => ⟨hs.1, hst.inv hs.2.1, fun r hr => absurd hr List.not_mem_nil⟩)
      fun done r rest hrows => ?_
    · exact hloop.imp (fun s hs => ⟨fun r hr => absurd hr List.not_mem_nil, hs,
        fun r hr => absurd hr List.not_mem_nil⟩) fun s hs => hs.2
    · intro s hs
      obtain ⟨hdone, hinv, htarget⟩ := hs
      have hr : r ∈ rows w := by
        rw [hrows]
        simp
      refine ((row_triple hover hun hunique (hRow w r hr) hr hdone hm hm').imp
        (fun s hs => hs) fun t ht => ?_) s ⟨hinv, fun r hr _ => htarget r hr, fun _ _ => trivial,
          fun _ _ => trivial⟩
      refine ⟨fun r' hr' => ?_, ht.inv, fun r' hr' c hc => ?_⟩
      · rcases List.mem_append.1 hr' with h | h
        · exact hdone r' h
        · rwa [List.mem_singleton.1 h]
      · by_cases heq : r' = r
        · subst heq
          exact ht.cell c hc
        · have hmem := (List.mem_append.1 hr').resolve_right fun h => heq (List.mem_singleton.1 h)
          exact ht.done r' hmem heq c hc
  -- at the start nothing is overwritten; the triples of all workers compose
  have hstart : OverlapInv C Row n mem T ⟨mem, acc⟩ := ⟨fun _ _ _ => rfl, fun _ _ _ _ => Or.inl rfl⟩
  have hend := hcompat.exec (ringStep A B C n modulus) evs (fun w => by
    rw [hevs w]
    exact hworker w _ hstart) w
  exact hend.2 row hrow col hcol

end Run

end Rns8
