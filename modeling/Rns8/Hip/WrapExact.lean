import Rns8.Hip.WrapKernels
import Rns8.Lib.IndexedStores

/-!
# What the byte-limb kernels compute

The loads and stores of the kernels are those of little-endian words. No accumulator of a dispatched
launch wraps before its diagonals are combined (`wrapDiagonals_toNat`), so that each thread stores the
sum of products of its cells modulo `2 ^ 64`, and the threads of a launch share out the cells.
-/

namespace Rns8

open ByteLimbs BlockLoop DigitColumns IndexedStores

/-! ### Loads and stores -/

/-- The word of a cell of byte-limb storage. -/
def loadWord (limbs : ℕ → UInt8) (cell : ℕ) : UInt64 := load fun l => limbs (cell * 8 + l)

theorem loadU64LimbsScalar_eq (limbs : ℕ → UInt8) (src : ℕ) :
    loadU64LimbsScalar limbs src = load fun l => limbs (src + l) := rfl

theorem loadU64LimbsVectorized_eq (limbs : ℕ → UInt8) (src : ℕ) :
    loadU64LimbsVectorized limbs src = load fun l => limbs (src + l) := by
  have hsum := loadFirst_toNat (fun l => limbs (src + l)) (le_refl 8)
  rw [loadU64LimbsVectorized, ← hsum, load, UInt64.ofNat_toNat]

theorem storeU64LimbsScalar_eq (dst : ℕ) (value : UInt64) :
    storeU64LimbsScalar dst value = (List.range 8).map fun l => (dst + l, limb value l) := rfl

theorem storeU64LimbsVectorized_eq (dst : ℕ) (value : UInt64) :
    storeU64LimbsVectorized dst value = (List.range 8).map fun l => (dst + l, limb value l) := by
  refine List.map_congr_left fun l hl => Prod.ext rfl ?_
  rw [← UInt8.toNat_inj, limb_toNat value (List.mem_range.1 hl), UInt8.toNat_ofNat', pow_mul]
  rfl

/-- A word is the word of its cell. -/
theorem loadWord_limb {limbs : ℕ → UInt8} {cell : ℕ} {value : UInt64}
    (h : ∀ l < 8, limbs (cell * 8 + l) = limb value l) : loadWord limbs cell = value := by
  rw [← load_limb value]
  simp only [loadWord, load, loadFirst]
  rw [h 0 (by omega), h 1 (by omega), h 2 (by omega), h 3 (by omega), h 4 (by omega),
    h 5 (by omega), h 6 (by omega), h 7 (by omega)]

/-! ### Accumulators -/

/-- The accumulator computes exactly below `limit`. -/
structure WrapAccumulator.Exact {α : Type} [Add α] [OfNat α 0] (accumulator : WrapAccumulator α)
    (toNat : α → ℕ) (limit : ℕ) : Prop where
  zero : toNat 0 = 0
  add : ∀ x y, toNat x + toNat y < limit → toNat (x + y) = toNat x + toNat y
  ofProduct : ∀ p, toNat (accumulator.ofProduct p) = p.toNat
  toWord : ∀ x, (accumulator.toWord x).toNat = toNat x

theorem u32Accumulator_exact : u32Accumulator.Exact UInt32.toNat (2 ^ 32) where
  zero := rfl
  add := fun x y h => by rw [UInt32.toNat_add, Nat.mod_eq_of_lt h]
  ofProduct := fun _ => rfl
  toWord := fun x => UInt32.toNat_toUInt64 x

theorem u64Accumulator_exact : u64Accumulator.Exact UInt64.toNat (2 ^ 64) where
  zero := rfl
  add := fun x y h => by rw [UInt64.toNat_add, Nat.mod_eq_of_lt h]
  ofProduct := fun p => UInt32.toNat_toUInt64 p
  toWord := fun _ => rfl

theorem wrap64UnsignedByteProduct_toNat (a b : UInt8) :
    (wrap64UnsignedByteProduct a b).toNat = a.toNat * b.toNat := by
  have ha := a.toNat_lt
  have hb := b.toNat_lt
  rw [wrap64UnsignedByteProduct, UInt32.toNat_mul, UInt8.toNat_toUInt32, UInt8.toNat_toUInt32,
    Nat.mod_eq_of_lt (by nlinarith)]

/-- Column `d` of the byte products of a pass. -/
def passColumn (d : ℕ) (pass : UInt64 × UInt64) : ℕ := column 256 pass.1.toNat pass.2.toNat d

section Accumulators

variable {α : Type} [Add α] [OfNat α 0] {accumulator : WrapAccumulator α} {toNat : α → ℕ}
  {limit : ℕ}

/-- The products of a column are added without wrapping. -/
theorem partialColumn_toNat (h : accumulator.Exact toNat limit) (a b : UInt64) {d : ℕ} (hd : d < 8)
    (hlimit : passColumn d (a, b) < limit) {n : ℕ} (hn : n ≤ d) :
    toNat ((List.range n).foldl
      (fun sum i => sum + accumulator.ofProduct (wrap64UnsignedByteProduct
        (wrap64PackedLimbByte a (i + 1)) (wrap64PackedLimbByte b (d - (i + 1)))))
      (accumulator.ofProduct (wrap64UnsignedByteProduct
        (wrap64PackedLimbByte a 0) (wrap64PackedLimbByte b d)))) =
      ∑ i ∈ Finset.range (n + 1), (limb a i).toNat * (limb b (d - i)).toNat := by
  induction n with
  | zero =>
    rw [List.range_zero, List.foldl_nil, h.ofProduct, wrap64UnsignedByteProduct_toNat,
      Finset.sum_range_one]
    rfl
  | succ n ih =>
    have hprev := ih (by omega)
    have hle : ∑ i ∈ Finset.range (n + 1 + 1), (limb a i).toNat * (limb b (d - i)).toNat ≤
        passColumn d (a, b) := by
      rw [passColumn, column_eq_limbs a b hd]
      exact Finset.sum_le_sum_of_subset (Finset.range_mono (by omega))
    rw [Finset.sum_range_succ] at hle ⊢
    rw [List.range_succ, List.foldl_append, List.foldl_cons, List.foldl_nil, h.add, hprev,
      h.ofProduct, wrap64UnsignedByteProduct_toNat]
    · rfl
    · rw [hprev, h.ofProduct, wrap64UnsignedByteProduct_toNat]
      change _ + (limb a (n + 1)).toNat * (limb b (d - (n + 1))).toNat < limit
      omega

/-- A pass adds a column to each diagonal. -/
theorem accumulateByteGemm36_toNat (h : accumulator.Exact toNat limit) (a b : UInt64)
    (diagonals : ℕ → α) {d : ℕ} (hd : d < 8)
    (hlimit : toNat (diagonals d) + passColumn d (a, b) < limit) :
    toNat (accumulateByteGemm36 accumulator a b diagonals d) =
      toNat (diagonals d) + passColumn d (a, b) := by
  have hsum := partialColumn_toNat h a b hd (by omega) le_rfl
  rw [← column_eq_limbs a b hd] at hsum
  rw [accumulateByteGemm36, h.add, hsum]
  · rfl
  · rwa [hsum]

/-- **No diagonal wraps** while the sums of its columns are below the limit: after every pass it holds
the sum of the columns so far. -/
theorem wrapDiagonals_toNat (h : accumulator.Exact toNat limit) {d : ℕ} (hd : d < 8)
    (passes : List (UInt64 × UInt64)) (hlimit : (passes.map (passColumn d)).sum < limit) :
    toNat (wrapDiagonals accumulator passes d) = (passes.map (passColumn d)).sum := by
  induction passes using List.reverseRecOn with
  | nil => exact h.zero
  | append_singleton passes pass ih =>
    rw [List.map_append, List.sum_append, List.map_singleton, List.sum_singleton] at hlimit ⊢
    have hprev := ih (by omega)
    rw [wrapDiagonals, List.foldl_append, List.foldl_cons, List.foldl_nil,
      accumulateByteGemm36_toNat h _ _ _ hd]
    · exact congrArg (· + passColumn d pass) hprev
    · change toNat (wrapDiagonals accumulator passes d) + passColumn d pass < limit
      omega

/-- The columns of `k` passes. -/
theorem sum_passColumn_le {d : ℕ} (hd : d < 8) (passes : List (UInt64 × UInt64)) :
    (passes.map (passColumn d)).sum ≤ passes.length * (8 * (255 * 255)) := by
  induction passes with
  | nil => simp
  | cons pass passes ih =>
    have hcolumn : passColumn d pass ≤ 8 * (255 * 255) :=
      column_le (by decide) hd pass.1.toNat pass.2.toNat
    rw [List.map_cons, List.sum_cons, List.length_cons, Nat.succ_mul]
    omega

section LowWord

variable (diagonals : ℕ → α) (hlimit : ∀ d < 8, toNat (diagonals d) < 2 ^ 63)
include hlimit

omit [Add α] [OfNat α 0] in
/-- A diagonal and the carry into it fit a word. -/
theorem diagonal_add_carry_lt {n : ℕ} (hn : n < 8) :
    toNat (diagonals n) + carry 256 (fun d => toNat (diagonals d)) n < 2 ^ 64 := by
  have hcarry : carry 256 (fun d => toNat (diagonals d)) n ≤ 2 ^ 63 - 1 :=
    carry_le (by decide) fun e he => Nat.le_sub_one_of_lt (hlimit e (by omega))
  have hdiag := hlimit n hn
  omega

theorem toWord_add_carry_toNat (h : accumulator.Exact toNat limit) {n : ℕ} (hn : n < 8) :
    (accumulator.toWord (diagonals n) +
      UInt64.ofNat (carry 256 (fun d => toNat (diagonals d)) n)).toNat =
        toNat (diagonals n) + carry 256 (fun d => toNat (diagonals d)) n := by
  have hlt := diagonal_add_carry_lt diagonals hlimit hn
  have hsize : carry 256 (fun d => toNat (diagonals d)) n < UInt64.size :=
    lt_of_le_of_lt (Nat.le_add_left _ _) hlt
  rw [UInt64.toNat_add, h.toWord, UInt64.toNat_ofNat_of_lt' hsize, Nat.mod_eq_of_lt hlt]

/-- The state of the carry loop: the digits so far, and the carry out of them. -/
theorem low64State_eq (h : accumulator.Exact toNat limit) {n : ℕ} (hn : n ≤ 8) :
    (List.range n).foldl (fun (s : UInt64 × UInt64) diagonal =>
      (s.1 ||| (((accumulator.toWord (diagonals diagonal) + s.2) &&& 0xff) <<<
        UInt64.ofNat (8 * diagonal)), (accumulator.toWord (diagonals diagonal) + s.2) >>> 8))
        ((0 : UInt64), (0 : UInt64)) =
      (loadFirst (fun d => UInt8.ofNat (carried 256 (fun d => toNat (diagonals d)) d)) n,
        UInt64.ofNat (carry 256 (fun d => toNat (diagonals d)) n)) := by
  have hoct : (0xff : UInt64).toNat = 2 ^ 8 - 1 := rfl
  have hshift : (8 : UInt64).toNat % 64 = 8 := rfl
  induction n with
  | zero => rfl
  | succ n ih =>
    have hcolumn := toWord_add_carry_toNat diagonals hlimit h (show n < 8 by omega)
    rw [List.range_succ, List.foldl_append, ih (by omega), List.foldl_cons, List.foldl_nil]
    refine Prod.ext ?_ ?_
    · change _ ||| _ = _ ||| _
      congr 2
      rw [← UInt64.toNat_inj, UInt64.toNat_and, hcolumn, hoct, Nat.and_two_pow_sub_one_eq_mod,
        UInt8.toNat_toUInt64, UInt8.toNat_ofNat']
      rw [Nat.mod_eq_of_lt (carried_lt (show 0 < 256 by decide) _ n)]
      rfl
    · dsimp only
      rw [← UInt64.toNat_inj, UInt64.toNat_shiftRight, hcolumn, hshift,
        Nat.shiftRight_eq_div_pow, UInt64.toNat_ofNat_of_lt']
      · rfl
      · exact lt_of_le_of_lt (Nat.div_le_self _ _)
          (diagonal_add_carry_lt diagonals hlimit (show n < 8 by omega))

end LowWord

/-- The low word of diagonals that fit a word with the carries they send. -/
theorem low64FromDiagonals_eq (h : accumulator.Exact toNat limit) (diagonals : ℕ → α)
    (hlimit : ∀ d < 8, toNat (diagonals d) < 2 ^ 63) :
    low64FromDiagonals accumulator diagonals =
      UInt64.ofNat (∑ d ∈ Finset.range 8, toNat (diagonals d) * 256 ^ d) := by
  have hword : (low64FromDiagonals accumulator diagonals).toNat =
      ∑ d ∈ Finset.range 8, carried 256 (fun d => toNat (diagonals d)) d * 256 ^ d := by
    unfold low64FromDiagonals
    rw [low64State_eq diagonals hlimit h le_rfl, loadFirst_toNat _ (le_refl 8)]
    refine Finset.sum_congr rfl fun d _ => ?_
    have hlt := carried_lt (show 0 < 256 by decide) (fun d => toNat (diagonals d)) d
    rw [UInt8.toNat_ofNat', Nat.mod_eq_of_lt hlt]
  rw [← UInt64.toNat_inj, hword, sum_carried_eq (by decide), UInt64.toNat_ofNat']
  norm_num

end Accumulators

/-! ### Tiles -/

section Tiles

variable {aLimbs bLimbs : ℕ → UInt8} {m n k threads : ℕ} {schedule : BlockSchedule threads UInt64}
  {tileCol tileRow localRow localCol : ℕ}

theorem kExtent_eq (kBase : ℕ) : kExtent k kBase = min 16 (k - kBase) := by
  unfold kExtent
  split <;> omega

theorem aTile_apply (hthreads : 0 < threads) {step localK : ℕ} (hrow : localRow < 16)
    (hinside : tileRow * 16 + localRow < m) (hk : localK < kExtent k (16 * step)) :
    aTile aLimbs m k schedule tileCol tileRow (step + 1) (localRow * 16 + localK) =
      loadWord aLimbs ((tileRow * 16 + localRow) * k + (16 * step + localK)) := by
  have hlocal : localK < 16 := by
    rw [kExtent_eq] at hk
    omega
  obtain ⟨hdiv, hmod⟩ := RowMajor.offset_parts localRow hlocal
  rw [aTile, sweep_const hthreads (schedule.perm tileCol tileRow (2 * step)) _ _ (by omega),
    aTileValue, hdiv, hmod, if_pos ⟨hinside, hk⟩, loadU64LimbsVectorized_eq]
  rfl

theorem bTile_apply (hthreads : 0 < threads) {step localK : ℕ} (hcol : localCol < 16)
    (hinside : tileCol * 16 + localCol < n) (hk : localK < kExtent k (16 * step)) :
    bTile bLimbs n k schedule tileCol tileRow (step + 1) (localK * 16 + localCol) =
      loadWord bLimbs ((16 * step + localK) * n + (tileCol * 16 + localCol)) := by
  have hlocal : localK < 16 := by
    rw [kExtent_eq] at hk
    omega
  obtain ⟨hdiv, hmod⟩ := RowMajor.offset_parts localK hcol
  rw [bTile, sweep_const hthreads (schedule.perm tileCol tileRow (2 * step + 1)) _ _ (by omega),
    bTileValue, hdiv, hmod, if_pos ⟨hk, hinside⟩, loadU64LimbsVectorized_eq]
  rfl

/-- **The passes of a cell** are its operands in the order of the summation index. -/
theorem wrapPasses_eq (hthreads : 0 < threads) (hrow : localRow < 16) (hcol : localCol < 16)
    (hm : tileRow * 16 + localRow < m) (hn : tileCol * 16 + localCol < n) :
    wrapPasses aLimbs bLimbs m n k schedule tileCol tileRow localRow localCol =
      (List.range k).map fun kk => (loadWord aLimbs ((tileRow * 16 + localRow) * k + kk),
        loadWord bLimbs (kk * n + (tileCol * 16 + localCol))) := by
  have hblocks : (List.range ((k + 15) / 16)).flatMap (chunk 16 k) = List.range k := by
    rw [flatMap_chunk]
    congr 1
    omega
  rw [← hblocks, List.map_flatMap, wrapPasses]
  refine List.flatMap_congr fun step _ => ?_
  rw [chunk, List.map_map, kExtent_eq, Nat.mul_comm 16 step]
  refine List.map_congr_left fun localK hk => ?_
  have hk : localK < kExtent k (16 * step) := by
    rw [kExtent_eq, Nat.mul_comm 16 step]
    exact List.mem_range.1 hk
  rw [aTile_apply hthreads hrow hm hk, bTile_apply hthreads hcol hn hk, Nat.mul_comm 16 step]
  rfl

end Tiles

/-- The sum that belongs in a cell of the output. -/
def wrapCellDot (aLimbs bLimbs : ℕ → UInt8) (n k row col : ℕ) : UInt64 :=
  wrapDot k (fun kk => loadWord aLimbs (row * k + kk)) fun kk => loadWord bLimbs (kk * n + col)

section Cells

variable {α : Type} [Add α] [OfNat α 0] {accumulator : WrapAccumulator α} {toNat : α → ℕ}
  {limit : ℕ} {aLimbs bLimbs : ℕ → UInt8} {m n k threads : ℕ}
  {schedule : BlockSchedule threads UInt64} {tileCol tileRow localRow localCol : ℕ}

/-- **The word of a cell** is its sum of products. -/
theorem low64FromDiagonals_passes (h : accumulator.Exact toNat limit)
    (hlimit : k * (8 * (255 * 255)) < limit) (hword : k * (8 * (255 * 255)) < 2 ^ 63)
    (hthreads : 0 < threads) (hrow : localRow < 16) (hcol : localCol < 16)
    (hm : tileRow * 16 + localRow < m) (hn : tileCol * 16 + localCol < n) :
    low64FromDiagonals accumulator (wrapDiagonals accumulator
      (wrapPasses aLimbs bLimbs m n k schedule tileCol tileRow localRow localCol)) =
        wrapCellDot aLimbs bLimbs n k (tileRow * 16 + localRow) (tileCol * 16 + localCol) := by
  rw [wrapPasses_eq hthreads hrow hcol hm hn]
  have hsum : ∀ d < 8, toNat (wrapDiagonals accumulator ((List.range k).map fun kk =>
      (loadWord aLimbs ((tileRow * 16 + localRow) * k + kk),
        loadWord bLimbs (kk * n + (tileCol * 16 + localCol)))) d) =
      ∑ kk ∈ Finset.range k, column 256
        (loadWord aLimbs ((tileRow * 16 + localRow) * k + kk)).toNat
        (loadWord bLimbs (kk * n + (tileCol * 16 + localCol))).toNat d := by
    intro d hd
    have hle := sum_passColumn_le hd ((List.range k).map fun kk =>
      (loadWord aLimbs ((tileRow * 16 + localRow) * k + kk),
        loadWord bLimbs (kk * n + (tileCol * 16 + localCol))))
    rw [List.length_map, List.length_range] at hle
    rw [wrapDiagonals_toNat h hd _ (lt_of_le_of_lt hle hlimit), List.map_map, LoopFold.sum_map_range]
    rfl
  rw [low64FromDiagonals_eq h]
  · rw [wrapCellDot, ← sum_columns_word]
    congr 1
    exact Finset.sum_congr rfl fun d hd => by rw [hsum d (Finset.mem_range.1 hd)]
  · intro d hd
    rw [hsum d hd]
    exact lt_of_le_of_lt (sum_column_le (by decide) hd k _ _) hword

end Cells

end Rns8
