import Rns8.Hip.WrapStores
import Rns8.Hip.WrapWmma

/-!
# What the rocWMMA candidate computes

The four products of two bytes, with their weights, make up the product of the unsigned bytes. Neither
the 32-bit tiles nor the 64-bit diagonals wrap for the admitted K range (`wmmaSharedAfter_diagonal`),
so that the carry chain stores the words of `wrapCellDot`.
-/

namespace Rns8

open ByteLimbs BlockLoop DigitColumns IndexedStores TreeReduction

/-- What the library documents of the matrix unit: products of signed bytes are accumulated exactly
where 32 bits hold the sum. -/
def MmaSyncExact (mma : (ℕ → Int8) → (ℕ → Int8) → ℕ → Int32) : Prop :=
  ∀ (a b : ℕ → Int8), ∀ row < 16, ∀ col < 16,
    |∑ kk ∈ Finset.range 16, (a (row * 16 + kk)).toInt * (b (col * 16 + kk)).toInt| < 2 ^ 31 →
      (mma a b (row * 16 + col)).toInt =
        ∑ kk ∈ Finset.range 16, (a (row * 16 + kk)).toInt * (b (col * 16 + kk)).toInt

/-! ### Lanes -/

/-- The two components of a byte make it up. -/
theorem wrap64LaneComponent_split (value : UInt8) :
    (wrap64LaneComponent value false).toInt + 256 * (wrap64LaneComponent value true).toInt =
      value.toNat := by
  have h : ∀ v < 256, (wrap64LaneComponent (UInt8.ofNat v) false).toInt +
      256 * (wrap64LaneComponent (UInt8.ofNat v) true).toInt = v := by decide +kernel
  have hvalue := h value.toNat value.toNat_lt
  rwa [UInt8.ofNat_toNat] at hvalue

theorem abs_wrap64LaneComponent_le (value : UInt8) (high : Bool) :
    |(wrap64LaneComponent value high).toInt| ≤ 128 := by
  have h : ∀ v < 256, ∀ high, |(wrap64LaneComponent (UInt8.ofNat v) high).toInt| ≤ 128 := by
    decide +kernel
  have hvalue := h value.toNat value.toNat_lt high
  rwa [UInt8.ofNat_toNat] at hvalue

/-! ### Contributions -/

section Cells

variable (aLimbs bLimbs : ℕ → UInt8) (n k row col : ℕ)

/-- The left lane of a pass at `localK`. -/
def wmmaALane (pass : ℕ × WmmaComponent) (localK : ℕ) : ℤ :=
  if localK < kExtent k pass.1 then
    (wrap64LaneComponent (aLimbs (wrap64CompactLimbIndex row (pass.1 + localK) k pass.2.aLimb))
      pass.2.aHighBitComponent).toInt
  else 0

/-- The right lane of a pass at `localK`. -/
def wmmaBLane (pass : ℕ × WmmaComponent) (localK : ℕ) : ℤ :=
  if localK < kExtent k pass.1 then
    (wrap64LaneComponent (bLimbs (wrap64CompactLimbIndex (pass.1 + localK) col n pass.2.bLimb))
      pass.2.bHighBitComponent).toInt
  else 0

/-- The dot product of a pass. -/
def wmmaDot (pass : ℕ × WmmaComponent) : ℤ :=
  ∑ localK ∈ Finset.range 16,
    wmmaALane aLimbs k row pass localK * wmmaBLane bLimbs n k col pass localK

/-- What a pass adds to diagonal `d` of a cell. -/
def wmmaTerm (d : ℕ) (pass : ℕ × WmmaComponent) : ℤ :=
  if pass.2.aLimb + pass.2.bLimb = d then
    wmmaDot aLimbs bLimbs n k row col pass * pass.2.coefficient.toInt
  else 0

variable {aLimbs bLimbs n k row col}

theorem abs_wmmaDot_le (pass : ℕ × WmmaComponent) :
    |wmmaDot aLimbs bLimbs n k row col pass| ≤ 2 ^ 18 := by
  have hlane : ∀ localK ∈ Finset.range 16,
      |wmmaALane aLimbs k row pass localK * wmmaBLane bLimbs n k col pass localK| ≤ 128 * 128 := by
    intro localK _
    rw [abs_mul]
    refine mul_le_mul ?_ ?_ (abs_nonneg _) (by norm_num)
    · unfold wmmaALane
      split
      · exact abs_wrap64LaneComponent_le _ _
      · norm_num
    · unfold wmmaBLane
      split
      · exact abs_wrap64LaneComponent_le _ _
      · norm_num
  calc |wmmaDot aLimbs bLimbs n k row col pass|
      ≤ ∑ localK ∈ Finset.range 16,
        |wmmaALane aLimbs k row pass localK * wmmaBLane bLimbs n k col pass localK| :=
        Finset.abs_sum_le_sum_abs _ _
    _ ≤ ∑ _localK ∈ Finset.range 16, (128 * 128 : ℤ) := Finset.sum_le_sum hlane
    _ = 2 ^ 18 := by norm_num

theorem abs_wmmaTerm_le (d : ℕ) {pass : ℕ × WmmaComponent}
    (hcoefficient : |pass.2.coefficient.toInt| ≤ 65536) :
    |wmmaTerm aLimbs bLimbs n k row col d pass| ≤ 2 ^ 34 := by
  unfold wmmaTerm
  split
  · rw [abs_mul]
    calc |wmmaDot aLimbs bLimbs n k row col pass| * |pass.2.coefficient.toInt|
        ≤ 2 ^ 18 * 65536 := mul_le_mul (abs_wmmaDot_le pass) hcoefficient (abs_nonneg _) (by norm_num)
      _ = 2 ^ 34 := by norm_num
  · norm_num

end Cells

theorem abs_sum_map_le {β : Type*} (f : β → ℤ) (bound : ℤ) (l : List β)
    (h : ∀ x ∈ l, |f x| ≤ bound) : |(l.map f).sum| ≤ l.length * bound := by
  induction l with
  | nil => simp
  | cons x l ih =>
    have hx := h x List.mem_cons_self
    have hl := ih fun y hy => h y (List.mem_cons_of_mem _ hy)
    have htri := abs_add_le (f x) (l.map f).sum
    rw [List.map_cons, List.sum_cons, List.length_cons]
    push_cast
    linarith

theorem int64_toInt_add {x y : Int64} (h : |x.toInt + y.toInt| < 2 ^ 63) :
    (x + y).toInt = x.toInt + y.toInt := by
  have hlt := abs_lt.1 h
  rw [Int64.toInt_add]
  exact Int.bmod_eq_of_le (by omega) (by omega)

theorem int64_toInt_mul {x y : Int64} (h : |x.toInt * y.toInt| < 2 ^ 63) :
    (x * y).toInt = x.toInt * y.toInt := by
  have hlt := abs_lt.1 h
  rw [Int64.toInt_mul]
  exact Int.bmod_eq_of_le (by omega) (by omega)

/-! ### The passes of a block -/

section Block

variable {env : WmmaEnv} {aLimbs bLimbs : ℕ → UInt8} {m n k blockX blockY localRow localCol : ℕ}

/-- The row of a cell in `a_pack`, zero beyond the K range. -/
theorem wmma_aPack (shared : WmmaShared) (pass : ℕ × WmmaComponent) (hrow : localRow < 16)
    (hm : blockY * 16 + localRow < m) {kk : ℕ} (hkk : kk < 16) :
    ((rocwmmaWrap64AccumulateComponent env aLimbs bLimbs m n k blockX blockY shared pass).aPack
      (localRow * 16 + kk)).toInt = wmmaALane aLimbs k (blockY * 16 + localRow) pass kk := by
  obtain ⟨hdiv, hmod⟩ := RowMajor.offset_parts localRow hkk
  change (sweep env.waveThreads (16 * 16) (env.order blockX blockY shared.loops)
    (fun index _ => wmmaAValue aLimbs m k (blockY * 16) pass.1 pass.2 index) shared.aPack
      (localRow * 16 + kk)).toInt = _
  rw [sweep_const env.waveThreads_pos (env.perm _ _ _) _ _ (by omega), wmmaAValue, wmmaALane, hdiv,
    hmod]
  by_cases hin : kk < kExtent k pass.1
  · rw [if_pos ⟨hm, hin⟩, if_pos hin]
  · rw [if_neg fun h => hin h.2, if_neg hin]
    rfl

/-- The column of a cell in `b_pack`, zero beyond the K range. -/
theorem wmma_bPack (shared : WmmaShared) (pass : ℕ × WmmaComponent) (hcol : localCol < 16)
    (hn : blockX * 16 + localCol < n) {kk : ℕ} (hkk : kk < 16) :
    ((rocwmmaWrap64AccumulateComponent env aLimbs bLimbs m n k blockX blockY shared pass).bPack
      (localCol * 16 + kk)).toInt = wmmaBLane bLimbs n k (blockX * 16 + localCol) pass kk := by
  obtain ⟨hdiv, hmod⟩ := RowMajor.offset_parts localCol hkk
  change (sweep env.waveThreads (16 * 16) (env.order blockX blockY (shared.loops + 1))
    (fun index _ => wmmaBValue bLimbs n k (blockX * 16) pass.1 pass.2 index) shared.bPack
      (localCol * 16 + kk)).toInt = _
  rw [sweep_const env.waveThreads_pos (env.perm _ _ _) _ _ (by omega), wmmaBValue, wmmaBLane, hdiv,
    hmod]
  by_cases hin : kk < kExtent k pass.1
  · rw [if_pos ⟨hn, hin⟩, if_pos hin]
  · rw [if_neg fun h => hin h.2, if_neg hin]
    rfl

/-- The tile of a pass holds its dot products. -/
theorem wmma_tileAcc (hmma : MmaSyncExact env.mma) (shared : WmmaShared) (pass : ℕ × WmmaComponent)
    (hrow : localRow < 16) (hcol : localCol < 16) (hm : blockY * 16 + localRow < m)
    (hn : blockX * 16 + localCol < n) :
    ((rocwmmaWrap64AccumulateComponent env aLimbs bLimbs m n k blockX blockY shared pass).tileAcc
      (localRow * 16 + localCol)).toInt =
        wmmaDot aLimbs bLimbs n k (blockY * 16 + localRow) (blockX * 16 + localCol) pass := by
  have hsum : ∑ kk ∈ Finset.range 16,
      ((rocwmmaWrap64AccumulateComponent env aLimbs bLimbs m n k blockX blockY shared pass).aPack
        (localRow * 16 + kk)).toInt *
      ((rocwmmaWrap64AccumulateComponent env aLimbs bLimbs m n k blockX blockY shared pass).bPack
        (localCol * 16 + kk)).toInt =
      wmmaDot aLimbs bLimbs n k (blockY * 16 + localRow) (blockX * 16 + localCol) pass := by
    refine Finset.sum_congr rfl fun kk hkk => ?_
    rw [wmma_aPack shared pass hrow hm (Finset.mem_range.1 hkk),
      wmma_bPack shared pass hcol hn (Finset.mem_range.1 hkk)]
  have hlt : |wmmaDot aLimbs bLimbs n k (blockY * 16 + localRow) (blockX * 16 + localCol) pass| <
      2 ^ 31 := lt_of_le_of_lt (abs_wmmaDot_le pass) (by norm_num)
  rw [← hsum] at hlt ⊢
  exact hmma _ _ localRow hrow localCol hcol hlt

theorem wmma_diagonalAcc (shared : WmmaShared) (pass : ℕ × WmmaComponent) :
    (rocwmmaWrap64AccumulateComponent env aLimbs bLimbs m n k blockX blockY shared pass).diagonalAcc =
      sweepAt ((pass.2.aLimb + pass.2.bLimb) * 16 * 16) env.waveThreads (16 * 16)
        (env.order blockX blockY (shared.loops + 2))
        (fun index acc =>
          if blockY * 16 + index / 16 < m ∧ blockX * 16 + (index - index / 16 * 16) < n then
            acc + ((rocwmmaWrap64AccumulateComponent env aLimbs bLimbs m n k blockX blockY shared
              pass).tileAcc index).toInt64 * pass.2.coefficient
          else acc) shared.diagonalAcc := rfl

/-- What a call adds to a cell does not wrap. -/
theorem wmma_product (hmma : MmaSyncExact env.mma) (shared : WmmaShared) {pass : ℕ × WmmaComponent}
    (hrow : localRow < 16) (hcol : localCol < 16) (hm : blockY * 16 + localRow < m)
    (hn : blockX * 16 + localCol < n) (hcoefficient : |pass.2.coefficient.toInt| ≤ 65536) :
    (((rocwmmaWrap64AccumulateComponent env aLimbs bLimbs m n k blockX blockY shared pass).tileAcc
      (localRow * 16 + localCol)).toInt64 * pass.2.coefficient).toInt =
        wmmaDot aLimbs bLimbs n k (blockY * 16 + localRow) (blockX * 16 + localCol) pass *
          pass.2.coefficient.toInt := by
  have htile : ((rocwmmaWrap64AccumulateComponent env aLimbs bLimbs m n k blockX blockY shared
      pass).tileAcc (localRow * 16 + localCol)).toInt64.toInt =
        wmmaDot aLimbs bLimbs n k (blockY * 16 + localRow) (blockX * 16 + localCol) pass := by
    rw [Int32.toInt_toInt64, wmma_tileAcc hmma shared pass hrow hcol hm hn]
  rw [int64_toInt_mul, htile]
  rw [htile, abs_mul]
  calc |wmmaDot aLimbs bLimbs n k (blockY * 16 + localRow) (blockX * 16 + localCol) pass| *
        |pass.2.coefficient.toInt|
      ≤ 2 ^ 18 * 65536 := mul_le_mul (abs_wmmaDot_le pass) hcoefficient (abs_nonneg _) (by norm_num)
    _ < 2 ^ 63 := by norm_num

/-- **No accumulator wraps.** After every call each diagonal of a cell holds the sum of what the calls
added, as an integer. -/
theorem wmmaSharedAfter_diagonal (hmma : MmaSyncExact env.mma) (hrow : localRow < 16)
    (hcol : localCol < 16) (hm : blockY * 16 + localRow < m) (hn : blockX * 16 + localCol < n)
    {d : ℕ} (hd : d < 8) (passes : List (ℕ × WmmaComponent))
    (hcoefficient : ∀ pass ∈ passes, |pass.2.coefficient.toInt| ≤ 65536)
    (hlength : passes.length ≤ 2 ^ 28) :
    ((wmmaSharedAfter env aLimbs bLimbs m n k blockX blockY passes).diagonalAcc
      (d * 16 * 16 + (localRow * 16 + localCol))).toInt =
        (passes.map (wmmaTerm aLimbs bLimbs n k (blockY * 16 + localRow)
          (blockX * 16 + localCol) d)).sum := by
  -- the induction is on the last pass; the partial sums stay far below `2 ^ 63`
  induction passes using List.reverseRecOn with
  | nil =>
    change (sweep env.waveThreads (8 * 16 * 16) (env.order blockX blockY 0) (fun _ _ => (0 : Int64))
      env.shared.diagonalAcc (d * 16 * 16 + (localRow * 16 + localCol))).toInt = 0
    rw [sweep_const env.waveThreads_pos (env.perm _ _ _) _ _ (by omega)]
    rfl
  | append_singleton passes pass ih =>
    have hsumle := abs_sum_map_le (wmmaTerm aLimbs bLimbs n k (blockY * 16 + localRow)
      (blockX * 16 + localCol) d) (2 ^ 34) (passes ++ [pass])
      fun p hp => abs_wmmaTerm_le d (hcoefficient p hp)
    rw [List.length_append, List.length_singleton] at hlength hsumle
    have hprev := ih (fun p hp => hcoefficient p (List.mem_append_left _ hp)) (by omega)
    rw [List.map_append, List.sum_append, List.map_singleton, List.sum_singleton] at hsumle ⊢
    set before := wmmaSharedAfter env aLimbs bLimbs m n k blockX blockY passes with hbefore
    have hlast : wmmaSharedAfter env aLimbs bLimbs m n k blockX blockY (passes ++ [pass]) =
        rocwmmaWrap64AccumulateComponent env aLimbs bLimbs m n k blockX blockY before pass := by
      rw [hbefore, wmmaSharedAfter, wmmaSharedAfter, List.foldl_append]
      rfl
    obtain ⟨hdiv, -⟩ := RowMajor.offset_parts localRow hcol
    have hcolumn : localRow * 16 + localCol - localRow * 16 = localCol := Nat.add_sub_cancel_left ..
    rw [hlast, wmma_diagonalAcc, sweepAt_apply env.waveThreads_pos (env.perm _ _ _)]
    -- a pass adds to its own diagonal only
    by_cases hdiagonal : pass.2.aLimb + pass.2.bLimb = d
    · rw [wmmaTerm, if_pos hdiagonal] at hsumle ⊢
      have hpass := hcoefficient pass (List.mem_append_right _ (List.mem_singleton_self pass))
      rw [hdiagonal, if_pos ⟨by omega, by omega⟩, Nat.add_sub_cancel_left, hdiv, hcolumn,
        if_pos ⟨hm, hn⟩, int64_toInt_add, wmma_product hmma before hrow hcol hm hn hpass, hprev]
      rw [wmma_product hmma before hrow hcol hm hn hpass, hprev]
      refine lt_of_le_of_lt hsumle ?_
      have hcount : ((passes.length + 1 : ℕ) : ℤ) ≤ 2 ^ 28 := by exact_mod_cast hlength
      omega
    · rw [if_neg (by omega), hprev, wmmaTerm, if_neg hdiagonal, add_zero]

end Block

/-! ### The sum of the passes -/

theorem wmmaComponents_coefficient {c : WmmaComponent} (hc : c ∈ wmmaComponents) :
    |c.coefficient.toInt| ≤ 65536 := by
  obtain ⟨aLimb, -, hc⟩ := List.mem_flatMap.1 hc
  obtain ⟨bLimb, -, hc⟩ := List.mem_flatMap.1 hc
  simp only [List.mem_cons, List.not_mem_nil, or_false] at hc
  have h1 : |(1 : Int64).toInt| ≤ 65536 := by decide
  have h256 : |(256 : Int64).toInt| ≤ 65536 := by decide
  have h65536 : |(65536 : Int64).toInt| ≤ 65536 := by decide
  rcases hc with rfl | rfl | rfl | rfl
  · exact h1
  · exact h256
  · exact h256
  · exact h65536

theorem wmmaPasses_coefficient {k : ℕ} {pass : ℕ × WmmaComponent} (hpass : pass ∈ wmmaPasses k) :
    |pass.2.coefficient.toInt| ≤ 65536 := by
  obtain ⟨step, -, hpass⟩ := List.mem_flatMap.1 hpass
  obtain ⟨c, hc, rfl⟩ := List.mem_map.1 hpass
  exact wmmaComponents_coefficient hc

theorem wmmaPasses_length (k : ℕ) : (wmmaPasses k).length = (k + 15) / 16 * 144 := by
  have hcomponents : wmmaComponents.length = 144 := by decide +kernel
  simp [wmmaPasses, List.length_flatMap, hcomponents]

section Sums

theorem sum_flatMap {β γ : Type*} [AddMonoid γ] (l : List β) (f : β → List γ) :
    (l.flatMap f).sum = (l.map fun x => (f x).sum).sum := by
  rw [List.flatMap_def, List.sum_flatten, List.map_map]
  rfl

variable {aLimbs bLimbs : ℕ → UInt8} {n k row col : ℕ}

/-- The bytes of the operands at `localK`, cut at the summation bound. -/
def wmmaByteA (aLimbs : ℕ → UInt8) (k row kBase aLimb localK : ℕ) : ℤ :=
  if localK < kExtent k kBase then
    ((aLimbs (wrap64CompactLimbIndex row (kBase + localK) k aLimb)).toNat : ℤ) else 0

/-- The bytes of the right operand. -/
def wmmaByteB (bLimbs : ℕ → UInt8) (n k col kBase bLimb localK : ℕ) : ℤ :=
  if localK < kExtent k kBase then
    ((bLimbs (wrap64CompactLimbIndex (kBase + localK) col n bLimb)).toNat : ℤ) else 0

theorem wmmaALane_split (kBase aLimb bLimb localK : ℕ) (high : Bool) (x y : Int64) :
    wmmaALane aLimbs k row (kBase, ⟨aLimb, bLimb, false, high, x⟩) localK +
      256 * wmmaALane aLimbs k row (kBase, ⟨aLimb, bLimb, true, high, y⟩) localK =
        wmmaByteA aLimbs k row kBase aLimb localK := by
  unfold wmmaALane wmmaByteA
  split
  · exact wrap64LaneComponent_split _
  · rfl

theorem wmmaBLane_split (kBase aLimb bLimb localK : ℕ) (high : Bool) (x y : Int64) :
    wmmaBLane bLimbs n k col (kBase, ⟨aLimb, bLimb, high, false, x⟩) localK +
      256 * wmmaBLane bLimbs n k col (kBase, ⟨aLimb, bLimb, high, true, y⟩) localK =
        wmmaByteB bLimbs n k col kBase bLimb localK := by
  unfold wmmaBLane wmmaByteB
  split
  · exact wrap64LaneComponent_split _
  · rfl

/-- **The four products of two bytes** make up the product of the unsigned bytes. -/
theorem wmmaDot_components (kBase aLimb bLimb : ℕ) :
    wmmaDot aLimbs bLimbs n k row col (kBase, ⟨aLimb, bLimb, false, false, 1⟩) * 1 +
      (wmmaDot aLimbs bLimbs n k row col (kBase, ⟨aLimb, bLimb, true, false, 256⟩) * 256 +
      (wmmaDot aLimbs bLimbs n k row col (kBase, ⟨aLimb, bLimb, false, true, 256⟩) * 256 +
      wmmaDot aLimbs bLimbs n k row col (kBase, ⟨aLimb, bLimb, true, true, 65536⟩) * 65536)) =
      ∑ localK ∈ Finset.range 16, wmmaByteA aLimbs k row kBase aLimb localK *
        wmmaByteB bLimbs n k col kBase bLimb localK := by
  unfold wmmaDot
  rw [Finset.sum_mul, Finset.sum_mul, Finset.sum_mul, Finset.sum_mul, ← Finset.sum_add_distrib,
    ← Finset.sum_add_distrib, ← Finset.sum_add_distrib]
  refine Finset.sum_congr rfl fun localK _ => ?_
  rw [← wmmaALane_split kBase aLimb bLimb localK false 1 1,
    ← wmmaBLane_split kBase aLimb bLimb localK false 1 1]
  unfold wmmaALane wmmaBLane
  dsimp only
  ring

/-- What the calls for two limbs add to a diagonal. -/
theorem sum_wmmaTerm_pair (d kBase aLimb bLimb : ℕ) :
    (([⟨aLimb, bLimb, false, false, 1⟩, ⟨aLimb, bLimb, true, false, 256⟩,
      ⟨aLimb, bLimb, false, true, 256⟩, ⟨aLimb, bLimb, true, true, 65536⟩] :
        List WmmaComponent).map fun c => wmmaTerm aLimbs bLimbs n k row col d (kBase, c)).sum =
      if aLimb + bLimb = d then
        ∑ localK ∈ Finset.range 16, wmmaByteA aLimbs k row kBase aLimb localK *
          wmmaByteB bLimbs n k col kBase bLimb localK
      else 0 := by
  have h1 : (1 : Int64).toInt = 1 := by decide
  have h256 : (256 : Int64).toInt = 256 := by decide
  have h65536 : (65536 : Int64).toInt = 65536 := by decide
  simp only [List.map_cons, List.map_nil, List.sum_cons, List.sum_nil, wmmaTerm, h1, h256, h65536,
    add_zero]
  split
  · exact wmmaDot_components kBase aLimb bLimb
  · rfl

/-- What a pass over `k_base` adds to a diagonal. -/
theorem sum_wmmaTerm_components {d : ℕ} (hd : d < 8) (kBase : ℕ) :
    (wmmaComponents.map fun c => wmmaTerm aLimbs bLimbs n k row col d (kBase, c)).sum =
      ∑ localK ∈ Finset.range 16, ∑ i ∈ Finset.range (d + 1),
        wmmaByteA aLimbs k row kBase i localK * wmmaByteB bLimbs n k col kBase (d - i) localK := by
  -- a limb of `A` meets diagonal `d` in one limb of `B`, if any
  have hinner : ∀ aLimb < 8, ((List.range (8 - aLimb)).map fun bLimb =>
      if aLimb + bLimb = d then ∑ localK ∈ Finset.range 16, wmmaByteA aLimbs k row kBase aLimb localK *
        wmmaByteB bLimbs n k col kBase bLimb localK else 0).sum =
      if aLimb < d + 1 then ∑ localK ∈ Finset.range 16, wmmaByteA aLimbs k row kBase aLimb localK *
        wmmaByteB bLimbs n k col kBase (d - aLimb) localK else 0 := by
    intro aLimb hlimb
    rw [LoopFold.sum_map_range]
    by_cases hle : aLimb < d + 1
    · rw [if_pos hle, Finset.sum_eq_single (d - aLimb)]
      · rw [if_pos (by omega)]
      · intro bLimb _ hne
        rw [if_neg (by omega)]
      · intro hmem
        exact absurd (Finset.mem_range.2 (by omega)) hmem
    · rw [if_neg hle]
      exact Finset.sum_eq_zero fun bLimb _ => if_neg (by omega)
  rw [wmmaComponents, List.map_flatMap, sum_flatMap]
  -- the four parts of a pair of bytes make up their product
  have houter : ((List.range 8).map fun aLimb => (((List.range (8 - aLimb)).flatMap fun bLimb =>
      ([⟨aLimb, bLimb, false, false, 1⟩, ⟨aLimb, bLimb, true, false, 256⟩,
        ⟨aLimb, bLimb, false, true, 256⟩, ⟨aLimb, bLimb, true, true, 65536⟩] :
          List WmmaComponent)).map fun c => wmmaTerm aLimbs bLimbs n k row col d (kBase, c)).sum).sum =
      ((List.range 8).map fun aLimb => if aLimb < d + 1 then ∑ localK ∈ Finset.range 16,
        wmmaByteA aLimbs k row kBase aLimb localK *
          wmmaByteB bLimbs n k col kBase (d - aLimb) localK else 0).sum := by
    congr 1
    refine List.map_congr_left fun aLimb hlimb => ?_
    rw [List.map_flatMap, sum_flatMap, ← hinner aLimb (List.mem_range.1 hlimb)]
    congr 1
    exact List.map_congr_left fun bLimb _ => sum_wmmaTerm_pair d kBase aLimb bLimb
  refine houter.trans ?_
  rw [LoopFold.sum_map_range, Finset.sum_ite, Finset.sum_const_zero, add_zero, Finset.sum_comm]
  refine Finset.sum_congr rfl fun localK _ => Finset.sum_congr (Finset.ext fun i => ?_) fun _ _ => rfl
  rw [Finset.mem_filter, Finset.mem_range, Finset.mem_range]
  omega

/-- Column `d` of the byte products of the operands at `kk`. -/
theorem column_loadWord {d : ℕ} (hd : d < 8) (kBase localK : ℕ) :
    (∑ i ∈ Finset.range (d + 1),
      wmmaByteA aLimbs k row kBase i localK * wmmaByteB bLimbs n k col kBase (d - i) localK) =
      if localK < kExtent k kBase then
        (column 256 (loadWord aLimbs (row * k + (kBase + localK))).toNat
          (loadWord bLimbs ((kBase + localK) * n + col)).toNat d : ℤ)
      else 0 := by
  unfold wmmaByteA wmmaByteB
  split
  · rw [column_eq_limbs _ _ hd]
    push_cast
    refine Finset.sum_congr rfl fun i hi => ?_
    have hi := Finset.mem_range.1 hi
    rw [loadWord, limb_load _ (by omega), loadWord, limb_load _ (by omega)]
    rfl
  · simp

/-- **The diagonals of a cell** are the columns of its sum of products. -/
theorem sum_wmmaTerm_passes {d : ℕ} (hd : d < 8) :
    ((wmmaPasses k).map (wmmaTerm aLimbs bLimbs n k row col d)).sum =
      ((∑ kk ∈ Finset.range k, column 256 (loadWord aLimbs (row * k + kk)).toNat
        (loadWord bLimbs (kk * n + col)).toNat d : ℕ) : ℤ) := by
  have hblocks : (List.range ((k + 15) / 16)).flatMap (chunk 16 k) = List.range k := by
    rw [flatMap_chunk]
    congr 1
    omega
  rw [wmmaPasses, List.map_flatMap, sum_flatMap, ← LoopFold.sum_map_range, ← hblocks,
    List.map_flatMap, sum_flatMap, Nat.cast_list_sum, List.map_map]
  congr 1
  refine List.map_congr_left fun step _ => ?_
  rw [List.map_map]
  refine (sum_wmmaTerm_components hd (16 * step)).trans ?_
  dsimp only [Function.comp_apply]
  rw [chunk, List.map_map, LoopFold.sum_map_range]
  push_cast
  rw [Finset.sum_congr rfl fun localK _ => column_loadWord hd (16 * step) localK, Finset.sum_ite,
    Finset.sum_const_zero, add_zero]
  refine Finset.sum_congr (Finset.ext fun localK => ?_) fun localK _ => ?_
  · rw [Finset.mem_filter, Finset.mem_range, Finset.mem_range, kExtent_eq, Nat.mul_comm 16 step]
    omega
  · dsimp only [Function.comp_apply]
    rw [Nat.mul_comm 16 step]

end Sums

/-! ### Stores -/

/-- The carry chain of a cell whose diagonals are sums of a moderate size. -/
theorem wmmaStores_eq {dst : ℕ} {diagonals : ℕ → Int64} {columns : ℕ → ℕ}
    (h : ∀ d < 8, (diagonals d).toInt = columns d) (hsmall : ∀ d < 8, columns d < 2 ^ 62) :
    wmmaStores dst diagonals =
      (List.range 8).map fun d => (dst + d, UInt8.ofNat (carried 256 columns d)) := by
  have hoct : (0xff : UInt64).toNat = 2 ^ 8 - 1 := rfl
  have hshift : (8 : UInt64).toNat % 64 = 8 := rfl
  -- the carry into diagonal `n` is that of the columns before it
  have hstate : ∀ n ≤ 8, (List.range n).foldl (fun (s : List (ℕ × UInt8) × UInt64) diagonal =>
      (s.1 ++ [(dst + diagonal, ((diagonals diagonal + s.2.toInt64).toUInt64 &&& 0xff).toUInt8)],
        (diagonals diagonal + s.2.toInt64).toUInt64 >>> 8)) (([] : List (ℕ × UInt8)), (0 : UInt64)) =
      ((List.range n).map fun d => (dst + d, UInt8.ofNat (carried 256 columns d)),
        UInt64.ofNat (carry 256 columns n)) := by
    intro n
    induction n with
    | zero => exact fun _ => rfl
    | succ n ih =>
      intro hn
      have hcarry : carry 256 columns n ≤ 2 ^ 62 - 1 :=
        carry_le (by decide) fun e he => Nat.le_sub_one_of_lt (hsmall e (by omega))
      have hcol := hsmall n (by omega)
      have hdiagonal : diagonals n = Int64.ofNat (columns n) := by
        rw [← Int64.toInt_inj, h n (by omega), Int64.toInt_ofNat_of_lt (by omega)]
      have hcolumn : (diagonals n + (UInt64.ofNat (carry 256 columns n)).toInt64).toUInt64.toNat =
          columns n + carry 256 columns n := by
        have hsize : columns n + carry 256 columns n < UInt64.size := by
          change _ < 2 ^ 64
          omega
        rw [hdiagonal, UInt64.toInt64_ofNat', ← Int64.ofNat_add, Int64.toUInt64_ofNat',
          UInt64.toNat_ofNat_of_lt' hsize]
      rw [List.range_succ, List.foldl_append, ih (by omega), List.foldl_cons, List.foldl_nil,
        List.map_append, List.map_singleton]
      refine Prod.ext (congrArg (_ ++ ·) (congrArg (fun x => [(dst + n, x)]) ?_)) ?_
      · rw [← UInt8.toNat_inj, UInt64.toNat_toUInt8, UInt64.toNat_and, hcolumn, hoct,
          Nat.and_two_pow_sub_one_eq_mod, UInt8.toNat_ofNat', carried]
      · dsimp only
        rw [← UInt64.toNat_inj, UInt64.toNat_shiftRight, hcolumn, hshift,
          Nat.shiftRight_eq_div_pow, UInt64.toNat_ofNat_of_lt']
        · rfl
        · rw [carry]
          have hdiv := Nat.div_le_self (columns n + carry 256 columns n) 256
          change _ < 2 ^ 64
          omega
  unfold wmmaStores
  rw [hstate 8 le_rfl]

section Launch

variable {env : WmmaEnv} {aLimbs bLimbs : ℕ → UInt8} {m n k : ℕ}

/-- The cells of a lane. -/
def wmmaCells (m n wave : ℕ) (t : WrapThread) : List ℕ :=
  (stridedIndices wave (16 * 16) t.threadX).flatMap fun index =>
    if t.blockY * 16 + index / 16 < m ∧ t.blockX * 16 + index % 16 < n then
      [(t.blockY * 16 + index / 16) * n + (t.blockX * 16 + index % 16)]
    else []

theorem mem_wmmaCells {wave : ℕ} {t : WrapThread} (ht : t.threadX < wave) {cell : ℕ} :
    cell ∈ wmmaCells m n wave t ↔ cell < m * n ∧ cell / n / 16 = t.blockY ∧
      cell % n / 16 = t.blockX ∧ (cell / n % 16 * 16 + cell % n % 16) % wave = t.threadX := by
  rw [wmmaCells, List.mem_flatMap]
  constructor
  · rintro ⟨index, hindex, hcell⟩
    obtain ⟨hlt, hlane⟩ := (mem_stridedIndices ht).1 hindex
    split at hcell
    swap
    · cases hcell
    next hinside =>
    obtain rfl := List.mem_singleton.1 hcell
    obtain ⟨hdiv, hmod⟩ := RowMajor.offset_parts (t.blockY * 16 + index / 16) hinside.2
    rw [hdiv, hmod]
    have hindex : (t.blockY * 16 + index / 16) % 16 * 16 + (t.blockX * 16 + index % 16) % 16 =
        index := by omega
    exact ⟨RowMajor.offset_lt hinside.2 hinside.1, by omega, by omega, by rw [hindex]; exact hlane⟩
  · rintro ⟨hlt, hy, hx, hlane⟩
    obtain ⟨hrow, hcol⟩ := RowMajor.div_mod_lt hlt
    have hparts := Nat.div_add_mod cell n
    rw [Nat.mul_comm] at hparts
    refine ⟨cell / n % 16 * 16 + cell % n % 16, (mem_stridedIndices ht).2 ⟨by omega, hlane⟩, ?_⟩
    have hr : t.blockY * 16 + (cell / n % 16 * 16 + cell % n % 16) / 16 = cell / n := by omega
    have hc : t.blockX * 16 + (cell / n % 16 * 16 + cell % n % 16) % 16 = cell % n := by omega
    rw [hr, hc, if_pos ⟨hrow, hcol⟩, hparts]
    exact List.mem_singleton_self cell

theorem wmmaCells_nodup {wave : ℕ} (hpos : 0 < wave) (t : WrapThread) :
    (wmmaCells m n wave t).Nodup := by
  refine List.nodup_flatMap.2 ⟨fun index _ => ?_, ?_⟩
  · split
    · exact List.nodup_singleton _
    · exact List.nodup_nil
  refine List.Pairwise.imp_of_mem ?_ (stridedIndices_nodup hpos t.threadX)
  intro index index' _ _ hne cell hcell hcell'
  dsimp only at hcell hcell'
  split at hcell
  swap
  · cases hcell
  next hin =>
  split at hcell'
  swap
  · cases hcell'
  next hin' =>
  have heq := (List.mem_singleton.1 hcell).symm.trans (List.mem_singleton.1 hcell')
  obtain ⟨hrow, hcol⟩ := RowMajor.eq_of_offset_eq hin.2 hin'.2 heq
  omega

theorem wmmaCells_partitions {launch : WrapLaunch UInt8} (hx : launch.blocksX = (n + 16 - 1) / 16)
    (hy : launch.blocksY = (m + 16 - 1) / 16) (hpos : 0 < launch.threadsX)
    (hty : launch.threadsY = 1) :
    Partitions launch.threads (wmmaCells m n launch.threadsX) (m * n) where
  threads_nodup := WrapLaunch.threads_nodup
  nodup := fun t _ => wmmaCells_nodup hpos t
  owner := by
    intro t ht u hu cell hcell hcell'
    obtain ⟨-, -, htx, hty'⟩ := WrapLaunch.mem_threads.1 ht
    obtain ⟨-, -, hux, huy⟩ := WrapLaunch.mem_threads.1 hu
    obtain ⟨-, hblockY, hblockX, hlane⟩ := (mem_wmmaCells htx).1 hcell
    obtain ⟨-, hblockY', hblockX', hlane'⟩ := (mem_wmmaCells hux).1 hcell'
    cases t
    cases u
    simp_all
  mem := by
    intro cell
    constructor
    · rintro ⟨t, ht, hcell⟩
      exact ((mem_wmmaCells (WrapLaunch.mem_threads.1 ht).2.2.1).1 hcell).1
    · intro hlt
      -- the block of the cell, and the lane that its place in the block falls to
      obtain ⟨hrow, hcol⟩ := RowMajor.div_mod_lt hlt
      have hlane := Nat.mod_lt (cell / n % 16 * 16 + cell % n % 16) hpos
      refine ⟨⟨cell % n / 16, cell / n / 16, _, 0⟩, WrapLaunch.mem_threads.2 ⟨?_, ?_, hlane, ?_⟩,
        (mem_wmmaCells hlane).2 ⟨hlt, rfl, rfl, rfl⟩⟩
      · rw [hx]
        change cell % n / 16 < _
        omega
      · rw [hy]
        change cell / n / 16 < _
        omega
      · rw [hty]
        exact Nat.one_pos

/-- A cell of a block gets its sum of products. -/
theorem wmmaStores_cell (hmma : MmaSyncExact env.mma) (hk : k ≤ 32768)
    {blockX blockY localRow localCol : ℕ} (hrow : localRow < 16) (hcol : localCol < 16)
    (hm : blockY * 16 + localRow < m) (hn : blockX * 16 + localCol < n) (dst : ℕ) :
    (wmmaStores dst fun diagonal =>
      (wmmaSharedAfter env aLimbs bLimbs m n k blockX blockY (wmmaPasses k)).diagonalAcc
        (diagonal * 16 * 16 + (localRow * 16 + localCol))) =
      storeU64LimbsVectorized dst (wrapCellDot aLimbs bLimbs n k (blockY * 16 + localRow)
        (blockX * 16 + localCol)) := by
  have hdiagonals : ∀ d < 8,
      ((wmmaSharedAfter env aLimbs bLimbs m n k blockX blockY (wmmaPasses k)).diagonalAcc
        (d * 16 * 16 + (localRow * 16 + localCol))).toInt =
      ((∑ kk ∈ Finset.range k, column 256
        (loadWord aLimbs ((blockY * 16 + localRow) * k + kk)).toNat
        (loadWord bLimbs (kk * n + (blockX * 16 + localCol))).toNat d : ℕ) : ℤ) := by
    intro d hd
    rw [wmmaSharedAfter_diagonal hmma hrow hcol hm hn hd _ (fun p hp => wmmaPasses_coefficient hp)
      (by rw [wmmaPasses_length]; omega), sum_wmmaTerm_passes hd]
  rw [wmmaStores_eq hdiagonals fun d hd => ?_, storeU64LimbsVectorized_eq]
  · refine List.map_congr_left fun d hd => Prod.ext rfl ?_
    have hd := List.mem_range.1 hd
    have hword := sum_columns_word k (fun kk => loadWord aLimbs ((blockY * 16 + localRow) * k + kk))
      fun kk => loadWord bLimbs (kk * n + (blockX * 16 + localCol))
    rw [← UInt8.toNat_inj, limb_toNat _ hd, wrapCellDot, ← hword, UInt64.toNat_ofNat',
      UInt8.toNat_ofNat', carried_eq_digit (by decide) hd (Nat.mod_modEq _ (256 ^ 8)).symm, digit,
      pow_mul]
    norm_num
  · refine lt_of_le_of_lt (sum_column_le (by decide) hd k _ _) ?_
    omega

/-- A thread stores the words of its cells. -/
theorem rocwmmaKernel_eq (hmma : MmaSyncExact env.mma) (hk : k ≤ 32768) {t : WrapThread}
    (ht : t.threadX < env.waveThreads) :
    rocwmmaWrap64ByteGemm36CandidateKernel env aLimbs bLimbs m n k t =
      (expand 8 (wmmaCells m n env.waveThreads) t).map fun i =>
        (i, limb (wrapCellDot aLimbs bLimbs n k (i / 8 / n) (i / 8 % n)) (i % 8)) := by
  rw [← flatMap_storeU64Limbs fun cell => wrapCellDot aLimbs bLimbs n k (cell / n) (cell % n),
    wmmaCells, List.flatMap_assoc, rocwmmaWrap64ByteGemm36CandidateKernel]
  refine List.flatMap_congr fun index hindex => ?_
  have hlt := ((mem_stridedIndices ht).1 hindex).1
  have hcolumn : index - index / 16 * 16 = index % 16 := by omega
  have hindex : index / 16 * 16 + index % 16 = index := by omega
  dsimp only
  rw [hcolumn]
  by_cases hinside : t.blockY * 16 + index / 16 < m ∧ t.blockX * 16 + index % 16 < n
  · obtain ⟨hdiv, hmod⟩ := RowMajor.offset_parts (t.blockY * 16 + index / 16) hinside.2
    rw [if_neg (by omega), if_pos hinside, List.flatMap_singleton, hdiv, hmod,
      ← wmmaStores_cell hmma hk (by omega) (by omega) hinside.1 hinside.2, hindex]
    rfl
  · rw [if_pos (by omega), if_neg hinside, List.flatMap_nil]

theorem rocwmmaWrap64_bound {launch : WrapLaunch UInt8}
    (h : rns8RocwmmaWrap64GemmByteLimbsCandidateDevice env aLimbs bLimbs m n k = some launch) :
    k ≤ 32768 := by
  unfold rns8RocwmmaWrap64GemmByteLimbsCandidateDevice at h
  split at h
  · next hshape => exact hshape.2.2.2.2.2.2
  · cases h

/-- **The memory after a launch of the candidate**: the words of the sums of products, and nothing
else. -/
theorem rocwmmaWrap64_run (hmma : MmaSyncExact env.mma) {launch : WrapLaunch UInt8}
    (h : rns8RocwmmaWrap64GemmByteLimbsCandidateDevice env aLimbs bLimbs m n k = some launch)
    {order : List WrapThread} (horder : order.Perm launch.threads) (c : ℕ → UInt8) (i : ℕ) :
    launch.run order c i =
      if i < m * n * 8 then limb (wrapCellDot aLimbs bLimbs n k (i / 8 / n) (i / 8 % n)) (i % 8)
      else c i := by
  unfold rns8RocwmmaWrap64GemmByteLimbsCandidateDevice at h
  split at h
  swap
  · cases h
  next hshape =>
  obtain ⟨-, -, -, hm, hn, -, hk⟩ := hshape
  have hmax : intMax = 2147483647 := rfl
  have hlaunch := (Option.some.inj h).symm
  have hpartitions : Partitions launch.threads (wmmaCells m n env.waveThreads) (m * n) := by
    subst hlaunch
    exact wmmaCells_partitions (wrapGridDim_eq (by omega)) (wrapGridDim_eq (by omega))
      env.waveThreads_pos rfl
  have hkernel : ∀ t ∈ launch.threads, launch.kernel t =
      (expand 8 (wmmaCells m n env.waveThreads) t).map fun i =>
        (i, limb (wrapCellDot aLimbs bLimbs n k (i / 8 / n) (i / 8 % n)) (i % 8)) := by
    intro t ht
    subst hlaunch
    exact rocwmmaKernel_eq hmma hk (WrapLaunch.mem_threads.1 ht).2.2.1
  exact WrapLaunch.run_eq (hpartitions.expand (show 0 < 8 by decide)) hkernel horder c i

end Launch

end Rns8
