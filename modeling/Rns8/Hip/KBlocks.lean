import Rns8.Cpu.GemmRns

/-!
# The K blocks of the device GEMM launchers

Every launcher of the direct HIP backend runs `while (k_offset < k)` over blocks of at most
`safe_k_block` positions and launches its kernel once for each: the first launch stores the centered
residue of the block's dot product in each output cell, the later ones add the residue that the cell
holds. `kBlocks` is the list of launches, `blockCell` what one launch stores in a cell, and
`kBlocks_invariant` the induction over the launches.
-/

namespace Rns8

open CenteredResidue Finset

variable {ι : Type} (g : GemmArgs ι)

/-- The arguments of one launch: `k_offset`, `k_block` and `accumulate`. -/
structure KBlock where
  kOffset : ℕ
  kBlock : ℕ
  accumulate : Bool
  deriving DecidableEq, Repr

/-- The launches from `k_offset` on; every pass advances, so `k` passes are enough. -/
def kBlocksFrom (k : ℕ) : ℕ → ℕ → Bool → List KBlock
  | 0, _, _ => []
  | fuel + 1, kOffset, accumulate =>
    if kOffset < k then
      let kBlock := min safeInt32KBlock (k - kOffset)
      ⟨kOffset, kBlock, accumulate⟩ :: kBlocksFrom k fuel (kOffset + kBlock) true
    else []

/-- `while (k_offset < k)`. -/
def kBlocks (k : ℕ) : List KBlock := kBlocksFrom k k 0 false

/-- The `int32_t` accumulator of a cell after the block's products. -/
def blockDot (mem : Planes ι) (r : KBlock) (p row col : ℕ) : ℤ :=
  ∑ kk ∈ range r.kBlock, (mem g.A.buf (g.A.offset p row (r.kOffset + kk))).toInt *
    (mem g.B.buf (g.B.offset p (r.kOffset + kk) col)).toInt

/-- What one launch stores in an output cell that holds `previous`. -/
def blockCell (mem : Planes ι) (r : KBlock) (p row col : ℕ) (previous : Int8) : Int8 :=
  let acc := blockDot g mem r p row col
  reduceToCentered (if r.accumulate then acc + previous.toInt else acc) (g.modulus p)

/-! ### The launches -/

/-- A launch of the loop over `k`. -/
structure KBlock.Launched (k : ℕ) (r : KBlock) : Prop where
  pos : 0 < r.kBlock
  safe : r.kBlock ≤ safeInt32KBlock
  le : r.kOffset + r.kBlock ≤ k
  accumulate : r.accumulate = decide (0 < r.kOffset)

/-- **The induction over the launches.** A property of the positions done so far that every launch
advances holds for all `k` positions after the loop. -/
theorem kBlocks_invariant {σ : Type*} {step : σ → KBlock → σ} (P : ℕ → σ → Prop) {k : ℕ}
    (hstep : ∀ s r, r.Launched k → P r.kOffset s → P (r.kOffset + r.kBlock) (step s r)) {s : σ}
    (h0 : P 0 s) : P k ((kBlocks k).foldl step s) := by
  -- the induction is on the passes left, and `P` holds of the positions done
  have key : ∀ fuel kOffset s, k ≤ kOffset + fuel → kOffset ≤ k → P kOffset s →
      P k ((kBlocksFrom k fuel kOffset (decide (0 < kOffset))).foldl step s) := by
    intro fuel
    induction fuel with
    | zero =>
      intro kOffset s hfuel hle hP
      obtain rfl : kOffset = k := by omega
      exact hP
    | succ fuel ih =>
      intro kOffset s hfuel hle hP
      unfold kBlocksFrom
      split
      · next hlt =>
        have hsafe : 0 < safeInt32KBlock := by decide
        have hr : KBlock.Launched k
            ⟨kOffset, min safeInt32KBlock (k - kOffset), decide (0 < kOffset)⟩ := by
          constructor <;> simp only <;> omega
        have hpos := hr.pos
        have hle := hr.le
        simp only at hpos hle
        have htrue : true = decide (0 < kOffset + min safeInt32KBlock (k - kOffset)) := by
          rw [decide_eq_true (by omega)]
        rw [List.foldl_cons, htrue]
        exact ih _ _ (by omega) hle (hstep s _ hr hP)
      · next hge =>
        obtain rfl : kOffset = k := by omega
        exact hP
  exact key k 0 s (by omega) (Nat.zero_le k) h0

/-- No launch is longer than the safe block. -/
theorem kBlock_le_of_mem {k : ℕ} {r : KBlock} (hr : r ∈ kBlocks k) : r.kBlock ≤ safeInt32KBlock := by
  have key : ∀ fuel kOffset accumulate, r ∈ kBlocksFrom k fuel kOffset accumulate →
      r.kBlock ≤ safeInt32KBlock := by
    intro fuel
    induction fuel with
    | zero => intro _ _ h; cases h
    | succ fuel ih =>
      intro kOffset accumulate h
      unfold kBlocksFrom at h
      split at h
      · rcases List.mem_cons.1 h with rfl | h
        · exact min_le_left _ _
        · exact ih _ _ h
      · cases h
  exact key k 0 false hr

/-! ### One cell -/

/-- The dot product over the first `q` positions. -/
def partialDot (mem : Planes ι) (q p row col : ℕ) : ℤ :=
  ∑ kk ∈ range q, (mem g.A.buf (g.A.offset p row kk)).toInt *
    (mem g.B.buf (g.B.offset p kk col)).toInt

theorem partialDot_add (mem : Planes ι) (r : KBlock) (p row col : ℕ) :
    partialDot g mem (r.kOffset + r.kBlock) p row col =
      partialDot g mem r.kOffset p row col + blockDot g mem r p row col := by
  simp [partialDot, blockDot, sum_range_add]

theorem blockDot_congr {mem mem' : Planes ι} (hA : mem g.A.buf = mem' g.A.buf)
    (hB : mem g.B.buf = mem' g.B.buf) (r : KBlock) (p row col : ℕ) :
    blockDot g mem r p row col = blockDot g mem' r p row col := by
  simp [blockDot, hA, hB]

/-- **One launch advances a cell.** A cell that holds the residue of the dot product up to
`k_offset`, or is overwritten by the first launch, then holds it up to `k_offset + k_block`. -/
theorem blockCell_advances {mem : Planes ι} {r : KBlock} (hr : r.Launched g.k) {p row col : ℕ}
    (hm : 0 < g.modulus p) (hm' : g.modulus p ≤ 256) {previous : Int8}
    (h : 0 < r.kOffset →
      previous = centeredResidue (partialDot g mem r.kOffset p row col) (g.modulus p)) :
    blockCell g mem r p row col previous =
      centeredResidue (partialDot g mem (r.kOffset + r.kBlock) p row col) (g.modulus p) := by
  rw [blockCell, reduceToCentered_eq, partialDot_add, hr.accumulate]
  by_cases hpos : 0 < r.kOffset
  · rw [decide_eq_true hpos, if_pos rfl, add_comm, h hpos]
    exact centeredResidue_congr hm hm' ((centeredResidue_modEq _ hm hm').add_right _)
  · have hzero : r.kOffset = 0 := by omega
    simp [hzero, partialDot]

end Rns8
