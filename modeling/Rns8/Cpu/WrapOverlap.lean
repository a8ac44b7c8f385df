import Rns8.Cpu.Wrap64
import Rns8.Lib.RelyGuarantee

/-!
# Wrapping products over an operand

The rows of `cpu_gemm_wrap_u64` when the output is an operand. The left operand is harmless: a row is
read by its own worker only, before it is stored. The right operand is not: another worker finds its
rows as they were, stored, or stored up to some byte. `WrapUndisturbed` asks that such a cell makes
the same product in all these states; then every run stores the products (`wrapRun_undisturbed`), and
if every team stores them, it holds (`wrapUndisturbed_of_all_teams`).
-/

namespace Rns8

open ByteLimbs LabelledRun RelyGuarantee

variable {ι : Type} [DecidableEq ι] (g : WrapArgs ι)

/-- The offset of byte `t` of an output row. -/
def WrapArgs.rowByte (row t : ℕ) : ℕ := g.C.limbIndex row (t / 8) (t % 8)

/-- The row holds the first `i` bytes of its products, and what it held in `mem` after them. -/
def RowBytes (mem cur : Limbs ι) (row i : ℕ) : Prop :=
  ∀ t < g.n * 8, cur g.C.buf (g.rowByte row t) =
    if t < i then limb (wrapRowAcc g mem row (t / 8)) (t % 8) else mem g.C.buf (g.rowByte row t)

/-- The cell with its first `j` limbs stored. -/
def tornCell (mem : Limbs ι) (row col j : ℕ) : UInt64 :=
  load fun l => if l < j then limb (wrapRowAcc g mem row col) l
    else mem g.C.buf (g.C.limbIndex row col l)

/-- The cells of the right operand that other rows store make the same products at every moment. -/
def WrapUndisturbed (Row : ℕ → Prop) (mem : Limbs ι) : Prop :=
  g.B.buf = g.C.buf → ∀ row, Row row → ∀ kk < g.k, Row kk → kk ≠ row → ∀ col < g.n, ∀ j ≤ 8,
    g.A.wrapCell mem row kk * tornCell g mem kk col j =
      g.A.wrapCell mem row kk * g.B.wrapCell mem kk col

/-- The dimensions of the loop, and operands in one buffer are one matrix. -/
structure WrapArgs.Shaped : Prop where
  cols : g.C.cols = g.n
  left : g.k ≤ g.A.cols
  left_eq : g.A.buf = g.C.buf → g.A.cols = g.C.cols
  right_eq : g.B.buf = g.C.buf → g.B.cols = g.C.cols

variable {g}

/-! ### Bytes of a row -/

omit [DecidableEq ι] in
theorem rowByte_cell {row col l : ℕ} (hl : l < 8) :
    g.rowByte row (col * 8 + l) = g.C.limbIndex row col l := by
  have hdiv : (col * 8 + l) / 8 = col := by omega
  have hmod : (col * 8 + l) % 8 = l := by omega
  rw [WrapArgs.rowByte, hdiv, hmod]

omit [DecidableEq ι] in
theorem rowByte_inj (hcols : g.C.cols = g.n) {row t row' t' : ℕ} (ht : t < g.n * 8)
    (ht' : t' < g.n * 8) (h : g.rowByte row t = g.rowByte row' t') : row = row' ∧ t = t' := by
  obtain ⟨hrow, hdiv, hmod⟩ := limbIndex_inj (by rw [hcols]; omega) (by rw [hcols]; omega)
    (Nat.mod_lt _ (by decide)) (Nat.mod_lt _ (by decide)) h
  exact ⟨hrow, by omega⟩

omit [DecidableEq ι] in
/-- A cell of a row that is stored in part. -/
theorem load_of_rowBytes {mem cur : Limbs ι} {row i col : ℕ} (h : RowBytes g mem cur row i)
    (hcol : col < g.n) : load (fun l => cur g.C.buf (g.C.limbIndex row col l)) =
      tornCell g mem row col (min 8 (i - col * 8)) := by
  refine load_congr fun l hl => ?_
  have hbyte := h (col * 8 + l) (by omega)
  have hdiv : (col * 8 + l) / 8 = col := by omega
  have hmod : (col * 8 + l) % 8 = l := by omega
  rw [rowByte_cell hl, hdiv, hmod] at hbyte
  rw [hbyte]
  exact if_congr (by omega) rfl rfl

omit [DecidableEq ι] in
theorem tornCell_zero (mem : Limbs ι) (row col : ℕ) :
    tornCell g mem row col 0 = g.C.wrapCell mem row col := by
  simp [tornCell, PlaneOperand.wrapCell]

omit [DecidableEq ι] in
theorem tornCell_eight (mem : Limbs ι) (row col : ℕ) :
    tornCell g mem row col 8 = wrapRowAcc g mem row col := by
  rw [← load_limb (wrapRowAcc g mem row col)]
  exact load_congr fun l hl => if_pos hl

/-! ### The invariant -/

section Run

variable {Row : ℕ → Prop} {mem : Limbs ι} {rows : ℕ → List ℕ}

variable (g Row mem) in
/-- Every row is stored up to some byte; the other bytes are untouched. -/
structure WrapInv (s : WrapState ι) : Prop where
  out : ∀ b o, (∀ r, Row r → ∀ t < g.n * 8, ¬ (b = g.C.buf ∧ o = g.rowByte r t)) →
    s.mem b o = mem b o
  held : ∀ r, Row r → ∃ i, RowBytes g mem s.mem r i

variable (g Row mem rows) in
/-- What the others leave alone: the accumulator and the rows of the worker. -/
structure WrapRely (w : ℕ) (s t : WrapState ι) : Prop where
  inv : WrapInv g Row mem s → WrapInv g Row mem t
  acc : t.acc w = s.acc w
  rows : ∀ r ∈ rows w, ∀ i < g.n * 8, t.mem g.C.buf (g.rowByte r i) = s.mem g.C.buf (g.rowByte r i)

variable (g Row mem rows) in
/-- What a worker leaves alone: the accumulators and the rows of the others. -/
structure WrapGuar (w : ℕ) (s t : WrapState ι) : Prop where
  inv : WrapInv g Row mem s → WrapInv g Row mem t
  acc : ∀ v, v ≠ w → t.acc v = s.acc v
  rows : ∀ r, r ∉ rows w → ∀ i < g.n * 8,
    t.mem g.C.buf (g.rowByte r i) = s.mem g.C.buf (g.rowByte r i)

omit [DecidableEq ι] in
theorem wrap_compatible (hunique : ∀ w v row, row ∈ rows w → row ∈ rows v → w = v) :
    Compatible (WrapRely g Row mem rows) (WrapGuar g Row mem rows) where
  refl _ _ := ⟨id, rfl, fun _ _ _ _ => rfl⟩
  trans _ _ _ _ h h' := ⟨h'.inv ∘ h.inv, h'.acc.trans h.acc,
    fun r hr i hi => (h'.rows r hr i hi).trans (h.rows r hr i hi)⟩
  guar w v _ _ hne h := ⟨h.inv, h.acc w (Ne.symm hne),
    fun r hr => h.rows r fun hv => hne (hunique v w r hv hr)⟩

variable (g Row mem rows) in
/-- A worker whose row `r` is stored up to byte `count r`, and whose accumulators satisfy `a`. -/
structure WrapPhase (w : ℕ) (count : ℕ → ℕ) (a : ℕ → UInt64 → Prop) (s : WrapState ι) : Prop where
  inv : WrapInv g Row mem s
  rows : ∀ r ∈ rows w, RowBytes g mem s.mem r (count r)
  acc : ∀ col < g.n, a col (s.acc w col)

variable {w row : ℕ} {count : ℕ → ℕ} {a : ℕ → UInt64 → Prop} {s : WrapState ι}

omit [DecidableEq ι] in
theorem WrapPhase.stable :
    Stable (WrapRely g Row mem rows) w (WrapPhase g Row mem rows w count a) :=
  fun s t hst hs =>
    { inv := hst.inv hs.inv
      rows := fun r hr i hi => by
        rw [hst.rows r hr i hi]
        exact hs.rows r hr i hi
      acc := fun col hcol => by
        rw [hst.acc]
        exact hs.acc col hcol }

omit [DecidableEq ι] in
theorem WrapPhase.weaken {count' : ℕ → ℕ} {a' : ℕ → UInt64 → Prop}
    (h : WrapPhase g Row mem rows w count a s) (hcount : ∀ r ∈ rows w, count r = count' r)
    (ha : ∀ col < g.n, ∀ x, a col x → a' col x) : WrapPhase g Row mem rows w count' a' s :=
  ⟨h.inv, fun r hr => hcount r hr ▸ h.rows r hr, fun col hcol => ha col hcol _ (h.acc col hcol)⟩

/-! ### Actions -/

omit [DecidableEq ι] in
/-- An action that leaves the buffers alone and writes the accumulators of its worker. -/
theorem WrapPhase.accumulators (hs : WrapPhase g Row mem rows w count a s) {t : WrapState ι}
    {a' : ℕ → UInt64 → Prop} (hmem : t.mem = s.mem) (hother : ∀ v, v ≠ w → t.acc v = s.acc v)
    (hacc : ∀ c < g.n, a' c (t.acc w c)) :
    WrapGuar g Row mem rows w s t ∧ WrapPhase g Row mem rows w count a' t := by
  have hinv : WrapInv g Row mem s → WrapInv g Row mem t := fun h =>
    ⟨by rw [hmem]; exact h.out, by rw [hmem]; exact h.held⟩
  refine ⟨⟨hinv, hother, fun r _ c _ => by rw [hmem]⟩, hinv hs.inv, ?_, hacc⟩
  rw [hmem]
  exact hs.rows

/-- The store of the next byte of a row. -/
theorem WrapPhase.store (hcols : g.C.cols = g.n) (hRow : Row row) (hrow : row ∈ rows w) {i : ℕ}
    (hi : i < g.n * 8) (hcount : count row = i)
    (hs : WrapPhase g Row mem rows w count (fun col x => x = wrapRowAcc g mem row col) s) :
    WrapGuar g Row mem rows w s (wrapStep g s (w, .store row i)) ∧
      WrapPhase g Row mem rows w (Function.update count row (i + 1))
        (fun col x => x = wrapRowAcc g mem row col) (wrapStep g s (w, .store row i)) := by
  set t := wrapStep g s (w, .store row i) with ht
  have hread : ∀ r, ∀ j < g.n * 8, t.mem g.C.buf (g.rowByte r j) =
      if r = row ∧ j = i then limb (wrapRowAcc g mem row (i / 8)) (i % 8)
      else s.mem g.C.buf (g.rowByte r j) := by
    intro r j hj
    rw [← hs.acc (i / 8) (by omega)]
    refine if_congr ⟨fun h => rowByte_inj hcols hj hi h.2, ?_⟩ rfl rfl
    rintro ⟨rfl, rfl⟩
    exact ⟨rfl, rfl⟩
  -- the row is stored one byte further
  have hown : RowBytes g mem t.mem row (i + 1) := by
    intro j hj
    rw [hread row j hj]
    by_cases hji : j = i
    · subst hji
      rw [if_pos ⟨rfl, rfl⟩, if_pos (by omega)]
    · rw [if_neg fun h => hji h.2, hs.rows row hrow j hj, hcount]
      exact if_congr (by omega) rfl rfl
  have hother : ∀ r, r ≠ row → ∀ n, RowBytes g mem s.mem r n → RowBytes g mem t.mem r n := by
    intro r hne n h j hj
    rw [hread r j hj, if_neg fun h => hne h.1]
    exact h j hj
  have hinv : WrapInv g Row mem s → WrapInv g Row mem t := fun h =>
    { out := fun b o ho => by
        rw [← h.out b o ho]
        exact if_neg (ho row hRow i hi)
      held := fun r hr => by
        by_cases hne : r = row
        · subst hne
          exact ⟨i + 1, hown⟩
        · obtain ⟨n, hn⟩ := h.held r hr
          exact ⟨n, hother r hne n hn⟩ }
  refine ⟨⟨hinv, fun v _ => rfl, fun r hr j hj => ?_⟩, hinv hs.inv, fun r hr => ?_, hs.acc⟩
  · rw [hread r j hj, if_neg]
    rintro ⟨rfl, -⟩
    exact hr hrow
  · by_cases hne : r = row
    · subst hne
      rwa [Function.update_self]
    · rw [Function.update_of_ne hne]
      exact hother r hne _ (hs.rows r hr)

/-- **What a row reads.** The product at a position is that of the cells before the call. -/
theorem wrap_reads (hshape : g.Shaped) (hun : WrapUndisturbed g Row mem) (hRow : Row row)
    (hinv : WrapInv g Row mem s) (hown : RowBytes g mem s.mem row 0) {kk col : ℕ} (hkk : kk < g.k)
    (hcol : col < g.n) :
    g.A.wrapCell s.mem row kk * g.B.wrapCell s.mem kk col =
      g.A.wrapCell mem row kk * g.B.wrapCell mem kk col := by
  have hA : g.A.wrapCell s.mem row kk = g.A.wrapCell mem row kk := by
    by_cases hbuf : g.A.buf = g.C.buf
    · -- the left operand is the output: the row is not stored yet
      have hcols := hshape.left_eq hbuf
      have hkn : kk < g.n := by
        have := hshape.left
        have := hshape.cols
        omega
      have hidx : ∀ l, g.A.limbIndex row kk l = g.C.limbIndex row kk l := fun l => by
        rw [PlaneOperand.limbIndex, PlaneOperand.limbIndex, hcols]
      have hload := load_of_rowBytes hown hkn
      rw [Nat.zero_sub, Nat.min_zero, tornCell_zero] at hload
      simp only [PlaneOperand.wrapCell, hbuf, hidx]
      exact hload
    · exact load_congr fun l _ => hinv.out _ _ fun r _ t _ h => hbuf h.1
  rw [hA]
  by_cases hbuf : g.B.buf = g.C.buf
  · have hcols := hshape.right_eq hbuf
    have hidx : ∀ l, g.B.limbIndex kk col l = g.C.limbIndex kk col l := fun l => by
      rw [PlaneOperand.limbIndex, PlaneOperand.limbIndex, hcols]
    by_cases hrow : Row kk
    · -- the row `kk` of the output is stored up to some byte
      obtain ⟨i, hi⟩ := hinv.held kk hrow
      have hload := load_of_rowBytes hi hcol
      -- its cell is torn between the old and the new limbs
      have hB : g.B.wrapCell s.mem kk col = tornCell g mem kk col (min 8 (i - col * 8)) := by
        simp only [PlaneOperand.wrapCell, hbuf, hidx]
        exact hload
      -- the own row is whole, another one may be anywhere
      by_cases hne : kk = row
      · subst hne
        have hload := load_of_rowBytes hown hcol
        rw [Nat.zero_sub, Nat.min_zero, tornCell_zero] at hload
        simp only [PlaneOperand.wrapCell, hbuf, hidx] at hload ⊢
        rw [hload]
      · rw [hB]
        exact hun hbuf row hRow kk hkk hrow hne col hcol _ (Nat.min_le_left _ _)
    · congr 1
      refine load_congr fun l hl => hinv.out _ _ fun r hr t ht h => hrow ?_
      rw [hidx, ← rowByte_cell hl] at h
      exact (rowByte_inj hshape.cols (by omega) ht h.2).1 ▸ hr
  · congr 1
    exact load_congr fun l _ => hinv.out _ _ fun r _ t _ h => hbuf h.1

/-! ### One row -/

variable (g Row mem rows) in
/-- The obligation of a worker of the loop. -/
abbrev WrapTriple (w : ℕ) (P : WrapState ι → Prop) (as : List WrapAction) (Q : WrapState ι → Prop) :
    Prop :=
  Triple (wrapStep g) (WrapRely g Row mem rows) (WrapGuar g Row mem rows) w P as Q

section Row

variable (hshape : g.Shaped) (hun : WrapUndisturbed g Row mem)
  (hunique : ∀ w v row, row ∈ rows w → row ∈ rows v → w = v) (hRow : Row row) (hrow : row ∈ rows w)
  (hcount : count row = 0)

include hunique

section Accumulate

include hshape hun hRow hrow hcount

/-- One position of the inner dimension. -/
theorem wrapAccumulate_triple {kk : ℕ} (hkk : kk < g.k) :
    WrapTriple g Row mem rows w
      (WrapPhase g Row mem rows w count fun col x => x = wrapPartial g mem row col kk)
      ((List.range g.n).map (.accumulate row kk))
      (WrapPhase g Row mem rows w count fun col x => x = wrapPartial g mem row col (kk + 1)) := by
  have hloop := Triple.range_map (wrapStep g) (w := w)
    (I := fun j => WrapPhase g Row mem rows w count fun c x =>
      x = wrapPartial g mem row c (if c < j then kk + 1 else kk))
    (f := WrapAction.accumulate row kk) (wrap_compatible hunique) g.n
    (fun j _ => WrapPhase.stable) fun col hcol s hs => ?_
  · refine hloop.imp (fun s hs => hs.weaken (fun _ _ => rfl) fun c _ x h => ?_)
      fun s hs => hs.weaken (fun _ _ => rfl) fun c hc x h => ?_
    · rwa [if_neg (by omega)]
    · rwa [if_pos hc] at h
  · -- the accumulator of `col` gets its product, the others stay
    refine hs.accumulators rfl (fun v hv => Function.update_of_ne hv _ _) fun c hc => ?_
    have hold := hs.acc c hc
    have hown := hs.rows row hrow
    rw [hcount] at hown
    simp only [wrapStep, Function.update_self]
    by_cases heq : c = col
    · subst heq
      rw [if_neg (lt_irrefl c)] at hold
      rw [if_pos (by omega), Function.update_self, hold, wrapPartial_succ,
        wrap_reads hshape hun hRow hs.inv hown hkk hc]
    · rw [Function.update_of_ne heq, hold]
      by_cases hlt : c < col
      · rw [if_pos hlt, if_pos (by omega)]
      · rw [if_neg hlt, if_neg (by omega)]

/-- The accumulation of a row. -/
theorem wrapDots_triple :
    WrapTriple g Row mem rows w (WrapPhase g Row mem rows w count fun _ _ => True)
      (.clearAcc :: ((List.range g.k).flatMap fun kk => (List.range g.n).map (.accumulate row kk)))
      (WrapPhase g Row mem rows w count fun col x => x = wrapRowAcc g mem row col) := by
  refine Triple.cons (R := WrapPhase g Row mem rows w count fun col x =>
    x = wrapPartial g mem row col 0) WrapPhase.stable
    (fun s hs => hs.accumulators rfl (fun v hv => Function.update_of_ne hv _ _) fun c _ => ?_) ?_
  · simp only [wrapStep, Function.update_self]
    rfl
  · exact Triple.range_flatMap (wrap_compatible hunique) (I := fun kk => WrapPhase g Row mem rows w
      count fun col x => x = wrapPartial g mem row col kk) g.k WrapPhase.stable fun kk hkk =>
        wrapAccumulate_triple hshape hun hunique hRow hrow hcount hkk

/-- **A row up to its byte `i`.** -/
theorem wrapRow_triple {i : ℕ} (hi : i ≤ g.n * 8) :
    WrapTriple g Row mem rows w (WrapPhase g Row mem rows w count fun _ _ => True)
      (wrapRowPrefix g.n g.k row i)
      (WrapPhase g Row mem rows w (Function.update count row i) fun _ _ => True) := by
  refine (wrapDots_triple hshape hun hunique hRow hrow hcount).append (wrap_compatible hunique) ?_
  have hloop := Triple.range_map (wrapStep g) (w := w)
    (I := fun j => WrapPhase g Row mem rows w (Function.update count row j) fun col x =>
      x = wrapRowAcc g mem row col) (f := WrapAction.store row) (wrap_compatible hunique) i
    (fun j _ => WrapPhase.stable) fun j hj s hs => ?_
  · refine hloop.imp (fun s hs => hs.weaken (fun r _ => ?_) fun _ _ _ h => h)
      fun s hs => hs.weaken (fun _ _ => rfl) fun _ _ _ _ => trivial
    rw [← hcount, Function.update_eq_self]
  · have hstore := hs.store hshape.cols hRow hrow (i := j) (by omega) (Function.update_self _ _ _)
    rwa [Function.update_idem] at hstore

end Accumulate

end Row

/-! ### All rows -/

/-- **A run that does no harm**: in every interleaving each row ends with its products. -/
theorem wrapRun_undisturbed (hshape : g.Shaped) (hun : WrapUndisturbed g Row mem)
    (hunique : ∀ w v row, row ∈ rows w → row ∈ rows v → w = v) (hnodup : ∀ w, (rows w).Nodup)
    (hRow : ∀ w, ∀ row ∈ rows w, Row row) {evs : List (ℕ × WrapAction)}
    (hevs : ∀ w, Interleave.own w evs = (rows w).flatMap (wrapRowActions g.n g.k))
    (acc : ℕ → ℕ → UInt64) {w row : ℕ} (hrow : row ∈ rows w) :
    RowBytes g mem (exec (wrapStep g) ⟨mem, acc⟩ evs).mem row (g.n * 8) := by
  have hcompat : Compatible (WrapRely g Row mem rows) (WrapGuar g Row mem rows) :=
    wrap_compatible hunique
  -- the rows of a worker, one after the other
  have hworker : ∀ w, WrapTriple g Row mem rows w (WrapPhase g Row mem rows w (fun _ => 0)
      fun _ _ => True) ((rows w).flatMap (wrapRowActions g.n g.k))
      (WrapPhase g Row mem rows w (fun r => if r ∈ rows w then g.n * 8 else 0) fun _ _ => True) := by
    intro w
    have hloop := Triple.flatMap (wrapStep g) (w := w) hcompat
      (I := fun done => WrapPhase g Row mem rows w (fun r => if r ∈ done then g.n * 8 else 0)
        fun _ _ => True) (f := wrapRowActions g.n g.k) (rows w) WrapPhase.stable
      fun done r rest hrows => ?_
    · exact hloop.imp (fun s hs => hs.weaken (fun r _ => by simp) fun _ _ _ h => h) fun s hs => hs
    · have hr : r ∈ rows w := by
        rw [hrows]
        simp
      have hnew : r ∉ done := by
        have := hnodup w
        rw [hrows] at this
        exact fun h => (List.disjoint_of_nodup_append this) h List.mem_cons_self
      refine (wrapRow_triple hshape hun hunique (hRow w r hr) hr (if_neg hnew) (le_refl _)).imp
        (fun s hs => hs) fun s hs => hs.weaken (fun r' _ => ?_) fun _ _ _ h => h
      by_cases hne : r' = r
      · subst hne
        simp
      · rw [Function.update_of_ne hne]
        simp [hne]
  have hstart : ∀ w, WrapPhase g Row mem rows w (fun _ => 0) (fun _ _ => True) ⟨mem, acc⟩ :=
    fun w => ⟨⟨fun _ _ _ => rfl, fun r _ => ⟨0, fun t _ => by simp⟩⟩, fun r _ t _ => by simp,
      fun _ _ => trivial⟩
  have hend := hcompat.exec (wrapStep g) evs (fun w => by
    rw [hevs w]
    exact hworker w _ (hstart w)) w
  have := hend.rows row hrow
  rwa [if_pos hrow] at this

omit [DecidableEq ι] in
/-- The cells of a row that is stored. -/
theorem wrapCell_of_rowBytes {cur : Limbs ι} (h : RowBytes g mem cur row (g.n * 8)) {col : ℕ}
    (hcol : col < g.n) : g.C.wrapCell cur row col = wrapRowAcc g mem row col := by
  have hmin : min 8 (g.n * 8 - col * 8) = 8 := by omega
  have hload := load_of_rowBytes h hcol
  rw [hmin, tornCell_eight] at hload
  exact hload

variable (Row) in
/-- The loop stores in its rows only. -/
theorem exec_wrapStep_out {evs : List (ℕ × WrapAction)}
    (hevs : ∀ e ∈ evs, ∃ row, Row row ∧ e.2.OnRow g.n row) {b : ι} {o : ℕ}
    (ho : ∀ r, Row r → ∀ t < g.n * 8, ¬ (b = g.C.buf ∧ o = g.rowByte r t)) :
    (exec (wrapStep g) s evs).mem b o = s.mem b o := by
  refine LoopFold.foldl_read_of_frame (fun s : WrapState ι => s.mem b o) (fun s e he => ?_) s
  obtain ⟨row, hrow, hon⟩ := hevs e he
  obtain ⟨w, a⟩ := e
  cases a with
  | clearAcc => rfl
  | accumulate r kk col => rfl
  | store r i =>
    obtain ⟨rfl, hi⟩ := hon
    exact if_neg (ho r hrow i hi)

end Run

/-! ### The loop -/

section Loop

variable {mem : Limbs ι}

theorem RowTeam.onRow_wrap (team : RowTeam WrapAction) {n k m : ℕ} :
    ∀ e ∈ team.events m (wrapRowActions n k), ∃ row, row < m ∧ e.2.OnRow n row := by
  rintro ⟨w, a⟩ he
  have hown := Interleave.mem_own.2 he
  rw [team.interleaves m _ w, List.mem_flatMap] at hown
  obtain ⟨row, hrow, ha⟩ := hown
  exact ⟨row, (team.split m).lt w row hrow, onRow_of_mem_wrapRowActions a ha⟩

/-- A byte in no output row keeps its value. -/
theorem wrapLoop_frame (team : RowTeam WrapAction) {b : ι} {o : ℕ}
    (ho : ∀ r < g.m, ∀ t < g.n * 8, ¬ (b = g.C.buf ∧ o = g.rowByte r t)) :
    wrapLoop g team mem b o = mem b o :=
  exec_wrapStep_out (· < g.m) team.onRow_wrap ho

variable (mem) in
/-- **Enough.** Operands that are left undisturbed: every team stores the products. -/
theorem wrapLoop_rowBytes (hshape : g.Shaped) (hun : WrapUndisturbed g (· < g.m) mem)
    (team : RowTeam WrapAction) {row : ℕ} (hrow : row < g.m) :
    RowBytes g mem (wrapLoop g team mem) row (g.n * 8) := by
  obtain ⟨w, hw⟩ := (team.split g.m).covers row hrow
  exact wrapRun_undisturbed hshape hun (team.split g.m).unique (team.nodup g.m)
    (team.split g.m).lt (team.interleaves g.m _) _ hw

/-! ### Runs that do harm -/

omit [DecidableEq ι] in
/-- One row by itself reads nothing that is stored meanwhile. -/
theorem wrapUndisturbed_single (row : ℕ) (mem : Limbs ι) : WrapUndisturbed g (· = row) mem := by
  rintro - i rfl kk - rfl hne
  exact absurd rfl hne

variable (mem) in
/-- A worker that runs one row up to byte `i`, by itself. -/
theorem exec_wrapRow_upTo (hshape : g.Shaped) (row w : ℕ) (acc : ℕ → ℕ → UInt64) {i : ℕ}
    (hi : i ≤ g.n * 8) :
    RowBytes g mem (exec (wrapStep g) ⟨mem, acc⟩
      ((wrapRowPrefix g.n g.k row i).map (Prod.mk w))).mem row i := by
  have hcompat : Compatible (WrapRely g (· = row) mem (oneRow w row))
      (WrapGuar g (· = row) mem (oneRow w row)) := wrap_compatible (oneRow_unique w row)
  have hmem : row ∈ oneRow w row w := mem_oneRow.2 ⟨rfl, rfl⟩
  have hstart : ∀ v, WrapPhase g (· = row) mem (oneRow w row) v (fun _ => 0) (fun _ _ => True)
      ⟨mem, acc⟩ :=
    fun v => ⟨⟨fun _ _ _ => rfl, fun r _ => ⟨0, fun t _ => by simp⟩⟩, fun r _ t _ => by simp,
      fun _ _ => trivial⟩
  have htriple : WrapTriple g (· = row) mem (oneRow w row) w
      (WrapPhase g (· = row) mem (oneRow w row) w (fun _ => 0) fun _ _ => True)
      (wrapRowPrefix g.n g.k row i)
      (WrapPhase g (· = row) mem (oneRow w row) w (Function.update (fun _ => 0) row i)
        fun _ _ => True) :=
    wrapRow_triple hshape (wrapUndisturbed_single row mem) (oneRow_unique w row) rfl hmem rfl hi
  -- the other workers do nothing
  have hend := hcompat.exec (wrapStep g) ((wrapRowPrefix g.n g.k row i).map (Prod.mk w))
    (s := ⟨mem, acc⟩) (Q := fun v s => v = w → RowBytes g mem s.mem row i) (fun v => ?_) w
  · exact hend rfl
  · by_cases hv : v = w
    · subst hv
      rw [Interleave.own_map_self]
      refine (htriple _ (hstart v)).imp fun s hs => ?_
      have hrow := hs.rows row hmem
      rw [Function.update_self] at hrow
      exact fun _ => hrow
    · rw [Interleave.own_map_of_ne (Ne.symm hv)]
      exact fun t _ h => absurd h hv

/-- Two sums that differ in one place only. -/
theorem foldl_add_replace (f f' : ℕ → UInt64) {k i : ℕ} (hi : i < k)
    (h : ∀ j < k, j ≠ i → f j = f' j) :
    (List.range k).foldl (fun acc j => acc + f j) 0 + f' i =
      (List.range k).foldl (fun acc j => acc + f' j) 0 + f i := by
  induction k with
  | zero => omega
  | succ k ih =>
    rw [List.range_succ, List.foldl_append, List.foldl_append]
    simp only [List.foldl_cons, List.foldl_nil]
    rcases Nat.lt_or_ge i k with hlt | hge
    · have := ih hlt fun j hj hne => h j (by omega) hne
      rw [h k (by omega) (by omega)]
      grind
    · obtain rfl : i = k := by omega
      have hsame : (List.range i).foldl (fun acc j => acc + f j) 0 =
          (List.range i).foldl (fun acc j => acc + f' j) 0 :=
        List.foldl_ext _ _ _ fun acc j hj => by
          have hj := List.mem_range.1 hj
          rw [h j (by omega) (by omega)]
      rw [hsame]
      grind

/-- A loop of which only one pass does something. -/
theorem flatMap_eq_single {α β : Type*} {l : List α} {f : α → List β} {x : α} (hl : l.Nodup)
    (hx : x ∈ l) (h : ∀ y, y ≠ x → f y = []) : l.flatMap f = f x := by
  induction l with
  | nil => cases hx
  | cons y l ih =>
    obtain ⟨hy, hl⟩ := List.nodup_cons.1 hl
    rw [List.flatMap_cons]
    rcases List.mem_cons.1 hx with rfl | hx
    · have hnil : l.flatMap f = [] :=
        List.flatMap_eq_nil_iff.2 fun z hz => h z fun hzx => hy (hzx ▸ hz)
      rw [hnil, List.append_nil]
    · rw [h y fun hyx => hy (hyx ▸ hx), List.nil_append, ih hl hx]

omit [DecidableEq ι] in
/-- A cell of another row lies in no byte of row `r`. -/
theorem limbIndex_not_in_row (hcols : g.C.cols = g.n) {row col l r t : ℕ} (hcol : col < g.n)
    (hl : l < 8) (hne : row ≠ r) (ht : t < g.n * 8) : g.C.limbIndex row col l ≠ g.rowByte r t := by
  rw [← rowByte_cell hl]
  exact fun h => hne (rowByte_inj hcols (by omega) ht h).1

variable (mem) in
/-- **A row that finds another one stored in part.** Row `r` has stored its first `pos` bytes when row
`i` runs. -/
theorem wrapLoop_interrupted (hshape : g.Shaped) {i r pos : ℕ} (hi : i < g.m) (hr : r < g.m)
    (hne : i ≠ r) (hpos : pos ≤ g.n * 8) : ∃ (team : RowTeam WrapAction) (mid : Limbs ι),
      RowBytes g mem mid r pos ∧
      (∀ b o, (∀ t < g.n * 8, ¬ (b = g.C.buf ∧ o = g.rowByte r t)) → mid b o = mem b o) ∧
      ∀ col < g.n, g.C.wrapCell (wrapLoop g team mem) i col = wrapRowAcc g mid i col := by
  set program := wrapRowActions g.n g.k with hprogram
  set start := wrapRowPrefix g.n g.k r pos with hstart
  have hsplit : ∃ rest, program r = start ++ rest := by
    refine ⟨((List.range (g.n * 8 - pos)).map (pos + ·)).map (.store r), ?_⟩
    have hrange : List.range (g.n * 8) =
        List.range pos ++ (List.range (g.n * 8 - pos)).map (pos + ·) := by
      rw [← List.range_add, Nat.add_sub_cancel' hpos]
    rw [hprogram, hstart, wrapRowActions, wrapRowPrefix, hrange, List.map_append, wrapRowPrefix,
      List.append_assoc]
  obtain ⟨rest, hrest⟩ := hsplit
  set cut := fun row => if row = r then start.length else 0 with hcut
  have horder : (rowsFirst [i] (List.nodup_singleton i)).order g.m =
      i :: (List.range g.m).filter (· ∉ [i]) := by
    simp [rowsFirst, hi]
  set s := exec (wrapStep g) ⟨mem, fun _ _ => 0⟩ (start.map (Prod.mk r)) with hs
  have hphase : (List.range g.m).flatMap
      (fun row => ((program row).take (cut row)).map (Prod.mk row)) = start.map (Prod.mk r) := by
    rw [flatMap_eq_single List.nodup_range (List.mem_range.2 hr) fun row hne => ?_]
    · simp only [hcut, if_pos, hrest, List.take_left]
    · simp [hcut, hne]
  refine ⟨phasedTeam cut (rowsFirst [i] (List.nodup_singleton i)), s.mem,
    exec_wrapRow_upTo mem hshape r r _ hpos, fun b o ho => ?_, fun col hcol => ?_⟩
  · refine exec_wrapStep_out (· = r) (fun e he => ?_) (by rintro r' rfl; exact ho)
    obtain ⟨a, ha, rfl⟩ := List.mem_map.1 he
    exact ⟨r, rfl, onRow_of_mem_wrapRowActions a (hrest ▸ List.mem_append_left _ ha)⟩
  · unfold wrapLoop phasedTeam
    simp only [horder]
    rw [exec_append, hphase, List.flatMap_cons, exec_append, ← hs]
    -- row `i` by itself, and then rows that do not touch it
    have hrow := exec_wrapRow_upTo s.mem hshape i i s.acc (le_refl (g.n * 8))
    have hcut_i : cut i = 0 := if_neg hne
    rw [hcut_i, List.drop_zero]
    set done := exec (wrapStep g) s ((program i).map (Prod.mk i)) with hdone
    have hcell : g.C.wrapCell done.mem i col = wrapRowAcc g s.mem i col :=
      wrapCell_of_rowBytes hrow hcol
    rw [← hcell]
    refine load_congr fun l hl => exec_wrapStep_out (· ≠ i) (fun e he => ?_)
      fun r' hr' t ht h => limbIndex_not_in_row hshape.cols hcol hl (Ne.symm hr') ht h.2
    obtain ⟨row, hmem, he⟩ := List.mem_flatMap.1 he
    obtain ⟨a, ha, rfl⟩ := List.mem_map.1 he
    refine ⟨row, fun h => ?_, onRow_of_mem_wrapRowActions a (List.mem_of_mem_drop ha)⟩
    subst h
    simp at hmem

omit [DecidableEq ι] in
/-- A cell of another row, when only the bytes of row `r` changed. -/
theorem wrapCell_of_frame (hshape : g.Shaped) {M : PlaneOperand ι} {mid : Limbs ι} {row col r : ℕ}
    (hM : M.buf = g.C.buf → M.cols = g.C.cols ∧ col < g.n) (hne : row ≠ r)
    (hout : ∀ b o, (∀ t < g.n * 8, ¬ (b = g.C.buf ∧ o = g.rowByte r t)) → mid b o = mem b o) :
    M.wrapCell mid row col = M.wrapCell mem row col := by
  refine load_congr fun l hl => hout _ _ fun t ht h => ?_
  obtain ⟨hcols, hcol⟩ := hM h.1
  have hidx : M.limbIndex row col l = g.C.limbIndex row col l := by
    rw [PlaneOperand.limbIndex, PlaneOperand.limbIndex, hcols]
  exact limbIndex_not_in_row hshape.cols hcol hl hne ht (hidx ▸ h.2)

/-- **Necessary.** If every team stores the products, the operands are left undisturbed. -/
theorem wrapUndisturbed_of_all_teams (hshape : g.Shaped)
    (hall : ∀ team, ∀ row < g.m, ∀ col < g.n,
      g.C.wrapCell (wrapLoop g team mem) row col = wrapRowAcc g mem row col) :
    WrapUndisturbed g (· < g.m) mem := by
  intro hbuf row hrow r hr hrm hne col hcol j hj
  -- row `r` is stored up to limb `j` of the column when the row runs
  obtain ⟨team, mid, hmid, hout, hcell⟩ := wrapLoop_interrupted mem hshape hrow hrm
    (Ne.symm hne) (by omega : col * 8 + j ≤ g.n * 8)
  have hsame : wrapRowAcc g mid row col = wrapRowAcc g mem row col := by
    rw [← hcell col hcol, hall team row hrow col hcol]
  have hA : ∀ kk < g.k, g.A.wrapCell mid row kk = g.A.wrapCell mem row kk := fun kk hkk =>
    wrapCell_of_frame hshape (fun h => ⟨hshape.left_eq h, by
      have := hshape.left
      have := hshape.left_eq h
      have := hshape.cols
      omega⟩) (Ne.symm hne) hout
  have hB : ∀ kk < g.k, kk ≠ r → g.B.wrapCell mid kk col = g.B.wrapCell mem kk col :=
    fun kk _ hkr => wrapCell_of_frame hshape (fun h => ⟨hshape.right_eq h, hcol⟩) hkr hout
  have htorn : g.B.wrapCell mid r col = tornCell g mem r col j := by
    have hload := load_of_rowBytes hmid hcol
    rw [Nat.add_sub_cancel_left, Nat.min_eq_right hj] at hload
    rw [← hload]
    refine load_congr fun l _ => ?_
    rw [hbuf, PlaneOperand.limbIndex, PlaneOperand.limbIndex, hshape.right_eq hbuf]
  -- the two sums differ in that product only
  have hsum := foldl_add_replace (fun kk => g.A.wrapCell mid row kk * g.B.wrapCell mid kk col)
    (fun kk => g.A.wrapCell mem row kk * g.B.wrapCell mem kk col) hr fun kk hkk hkr => by
      rw [hA kk hkk, hB kk hkk hkr]
  change wrapRowAcc g mid row col + _ = wrapRowAcc g mem row col + _ at hsum
  rw [hsame, UInt64.add_right_inj, hA r hr, htorn] at hsum
  exact hsum.symm

end Loop

end Rns8
