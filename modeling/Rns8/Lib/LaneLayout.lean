import Mathlib.Tactic
import Mathlib.Data.List.ProdSigma
import Mathlib.Algebra.BigOperators.Group.Finset.Basic
import Mathlib.Algebra.BigOperators.Intervals
import Rns8.Lib.RowMajor

/-!
# Matrix instructions over the lanes of a wave

A matrix instruction multiplies two square-edged tiles whose entries are spread over the lanes of a
wave: lane `row + tile * (k / slice)` holds entry `k % slice` of its slice of row `row`, and each
lane and register of the accumulator belongs to one cell of the tile. Given an instruction that
computes the exact product of one step, a loop of steps over gathered operands accumulates the exact
product of the gathered rows and columns, as long as no partial sum leaves the accumulator.
-/

open Finset

/-- The maps between lanes and tile entries of one instruction. -/
structure LaneLayout where
  tile : ℕ
  depth : ℕ
  slice : ℕ
  lanes : ℕ
  regs : ℕ
  accRow : ℕ → ℕ → ℕ
  accLane : ℕ → ℕ → ℕ
  accReg : ℕ → ℕ → ℕ
  tile_pos : 0 < tile
  depth_pos : 0 < depth
  slice_dvd : slice ∣ depth
  slices_le : tile * (depth / slice) ≤ lanes
  accRow_lt : ∀ lane reg : ℕ, lane < lanes → reg < regs → accRow lane reg < tile
  accCell : ∀ row col : ℕ, row < tile → col < tile → accLane row col < lanes ∧
    accReg row col < regs ∧ accRow (accLane row col) (accReg row col) = row ∧
      accLane row col % tile = col
  accSite : ∀ lane reg : ℕ, lane < lanes → reg < regs →
    accLane (accRow lane reg) (lane % tile) = lane ∧ accReg (accRow lane reg) (lane % tile) = reg

namespace LaneLayout

/-- The accumulator registers of a wave, by lane and register. -/
abbrev Acc := ℕ → ℕ → Int32

variable (L : LaneLayout) {α β : Type*}

/-- The lane that holds position `k` of a row of the first tile, or of a column of the second. -/
def slot (row k : ℕ) : ℕ := row + L.tile * (k / L.slice)

/-- The instruction `f` computes the exact product of one step, for operands whose lanes hold the
entries `x` and `y`. -/
def Computes (f : (ℕ → α) → (ℕ → β) → Acc → Acc) (x : α → ℕ → ℤ) (y : β → ℕ → ℤ) : Prop :=
  ∀ (a : ℕ → α) (b : ℕ → β) (acc : Acc) (lane reg : ℕ) (exact : ℤ), lane < L.lanes → reg < L.regs →
    exact = (acc lane reg).toInt + ∑ k ∈ range L.depth,
      x (a (L.slot (L.accRow lane reg) k)) (k % L.slice) * y (b (L.slot (lane % L.tile) k)) (k % L.slice) →
    -2 ^ 31 ≤ exact → exact < 2 ^ 31 → (f a b acc lane reg).toInt = exact

/-- The instruction that computes the exact product and wraps where it does not fit. -/
def unit (x : α → ℕ → ℤ) (y : β → ℕ → ℤ) (a : ℕ → α) (b : ℕ → β) (acc : Acc) : Acc := fun lane reg =>
  Int32.ofInt ((acc lane reg).toInt + ∑ k ∈ range L.depth,
    x (a (L.slot (L.accRow lane reg) k)) (k % L.slice) * y (b (L.slot (lane % L.tile) k)) (k % L.slice))

theorem computes_unit (x : α → ℕ → ℤ) (y : β → ℕ → ℤ) : L.Computes (L.unit x y) x y := by
  rintro a b acc lane reg exact - - rfl hlo hhi
  exact Int32.toInt_ofInt_of_le hlo hhi

/-- The lanes hold, in step `i`, the slices of the rows `A`. -/
def Gathers (x : α → ℕ → ℤ) (ops : ℕ → ℕ → α) (A : ℕ → ℕ → ℤ) : Prop :=
  ∀ i lane entry : ℕ, lane < L.tile * (L.depth / L.slice) → entry < L.slice →
    x (ops i lane) entry = A (lane % L.tile) (i * L.depth + (lane / L.tile * L.slice + entry))

/-- The accumulator after the first `steps` steps. -/
def accumulate (f : (ℕ → α) → (ℕ → β) → Acc → Acc) (aOps : ℕ → ℕ → α) (bOps : ℕ → ℕ → β) (steps : ℕ) :
    Acc :=
  (List.range steps).foldl (fun acc i => f (aOps i) (bOps i) acc) fun _ _ => 0

variable {L}

theorem slice_pos : 0 < L.slice := Nat.pos_of_dvd_of_pos L.slice_dvd L.depth_pos

theorem slot_spec {row k : ℕ} (hrow : row < L.tile) (hk : k < L.depth) :
    L.slot row k < L.tile * (L.depth / L.slice) ∧ L.slot row k % L.tile = row ∧
      L.slot row k / L.tile = k / L.slice := by
  have hq : k / L.slice < L.depth / L.slice := Nat.div_lt_div_of_lt_of_dvd L.slice_dvd hk
  have hle := Nat.mul_le_mul_left L.tile (Nat.succ_le_of_lt hq)
  rw [Nat.mul_succ] at hle
  simp only [slot]
  refine ⟨by omega, by simp [Nat.mod_eq_of_lt hrow], ?_⟩
  rw [Nat.add_mul_div_left _ _ L.tile_pos, Nat.div_eq_of_lt hrow, Nat.zero_add]

/-- **Every position is held by exactly one lane slice.** -/
theorem slot_existsUnique {row k : ℕ} (hrow : row < L.tile) (hk : k < L.depth) :
    ∃! s : ℕ × ℕ, s.1 < L.tile * (L.depth / L.slice) ∧ s.2 < L.slice ∧ s.1 % L.tile = row ∧
      s.1 / L.tile * L.slice + s.2 = k := by
  have hs := L.slice_pos
  obtain ⟨hlt, hmod, hdiv⟩ := slot_spec hrow hk
  refine ⟨(L.slot row k, k % L.slice), ⟨hlt, Nat.mod_lt _ hs, hmod, ?_⟩, ?_⟩
  · rw [hdiv]
    exact Nat.div_add_mod' k L.slice
  · rintro ⟨lane, entry⟩ ⟨-, hentry, hlane, hpos⟩
    obtain ⟨hq, hr⟩ := RowMajor.offset_parts (lane / L.tile) hentry
    simp only at hpos
    rw [hpos] at hq hr
    simp only [slot, hq, hr, Prod.mk.injEq, and_true]
    rw [← hlane]
    exact (Nat.mod_add_div lane L.tile).symm

/-- Every group of `c` positions is held by exactly one lane, when a slice is made of such groups. -/
theorem group_existsUnique {c row g : ℕ} (hdvd : c ∣ L.slice) (hrow : row < L.tile)
    (hg : g < L.depth / c) : ∃! lane : ℕ, lane < L.tile * (L.depth / L.slice) ∧ lane % L.tile = row ∧
      lane / L.tile = g / (L.slice / c) := by
  obtain ⟨q, hq⟩ := hdvd
  obtain ⟨r, hr⟩ := L.slice_dvd
  have hs := L.slice_pos
  have hc : 0 < c := Nat.pos_of_mul_pos_right (hq ▸ hs)
  have hq0 : 0 < q := Nat.pos_of_mul_pos_left (hq ▸ hs)
  have hdepth : L.depth / c = q * r := by
    rw [hr, hq, Nat.mul_assoc, Nat.mul_div_cancel_left _ hc]
  have hslices : L.depth / L.slice = r := by rw [hr, Nat.mul_div_cancel_left _ hs]
  have hgroups : L.slice / c = q := by rw [hq, Nat.mul_div_cancel_left _ hc]
  rw [hdepth] at hg
  rw [hslices, hgroups]
  have hlt : g / q < r := Nat.div_lt_of_lt_mul hg
  have hle := Nat.mul_le_mul_left L.tile (Nat.succ_le_of_lt hlt)
  rw [Nat.mul_succ] at hle
  refine ⟨row + L.tile * (g / q), ⟨by omega, by simp [Nat.mod_eq_of_lt hrow], ?_⟩, ?_⟩
  · rw [Nat.add_mul_div_left _ _ L.tile_pos, Nat.div_eq_of_lt hrow, Nat.zero_add]
  · rintro lane ⟨-, hmod, hdiv⟩
    rw [← hmod, ← hdiv]
    exact (Nat.mod_add_div lane L.tile).symm

/-- The entry at a position's slot is that position of the gathered row. -/
theorem Gathers.entry {x : α → ℕ → ℤ} {ops : ℕ → ℕ → α} {A : ℕ → ℕ → ℤ} (h : L.Gathers x ops A) (i : ℕ)
    {row k : ℕ} (hrow : row < L.tile) (hk : k < L.depth) :
    x (ops i (L.slot row k)) (k % L.slice) = A row (i * L.depth + k) := by
  obtain ⟨hlt, hmod, hdiv⟩ := slot_spec hrow hk
  rw [h i _ _ hlt (Nat.mod_lt _ L.slice_pos), hmod, hdiv, Nat.div_add_mod']

/-- **The loop of steps is exact.** No partial sum wraps, and after every step each accumulator holds
the product of its row and column up to there. -/
theorem accumulate_toInt {f : (ℕ → α) → (ℕ → β) → Acc → Acc} {x : α → ℕ → ℤ} {y : β → ℕ → ℤ}
    (hf : L.Computes f x y) {aOps : ℕ → ℕ → α} {bOps : ℕ → ℕ → β} {A B : ℕ → ℕ → ℤ}
    (hA : L.Gathers x aOps A) (hB : L.Gathers y bOps B) {steps : ℕ}
    (hfits : ∀ p ≤ steps, ∀ row < L.tile, ∀ col < L.tile,
      |∑ k ∈ range (p * L.depth), A row k * B col k| < 2 ^ 31)
    {lane reg : ℕ} (hlane : lane < L.lanes) (hreg : reg < L.regs) :
    (accumulate f aOps bOps steps lane reg).toInt =
      ∑ k ∈ range (steps * L.depth), A (L.accRow lane reg) k * B (lane % L.tile) k := by
  have hrow := L.accRow_lt lane reg hlane hreg
  have hcol := Nat.mod_lt lane L.tile_pos
  induction steps with
  | zero => simp [accumulate]
  | succ steps ih =>
    have hprev := ih fun p hp => hfits p (by omega)
    have hstep : accumulate f aOps bOps (steps + 1) =
        f (aOps steps) (bOps steps) (accumulate f aOps bOps steps) := by
      unfold accumulate
      rw [List.range_succ, List.foldl_append]
      rfl
    have hlast := abs_lt.1 (hfits (steps + 1) le_rfl _ hrow _ hcol)
    rw [hstep]
    refine hf _ _ _ _ _ _ hlane hreg ?_ hlast.1.le hlast.2
    rw [hprev, Nat.succ_mul, sum_range_add]
    congr 1
    refine sum_congr rfl fun k hk => ?_
    rw [hA.entry steps hrow (mem_range.1 hk), hB.entry steps hcol (mem_range.1 hk)]

/-- The sites of the accumulators and the cells of the tile correspond. -/
theorem site_unique {lane reg row col : ℕ} (hlane : lane < L.lanes) (hreg : reg < L.regs)
    (hrow : L.accRow lane reg = row) (hcol : lane % L.tile = col) :
    lane = L.accLane row col ∧ reg = L.accReg row col := by
  subst hrow hcol
  exact ⟨(L.accSite lane reg hlane hreg).1.symm, (L.accSite lane reg hlane hreg).2.symm⟩

/-! ### Stores of a launch -/

/-- A place of a launch that may store: the wave `(plane, tile row, tile column)`, the lane and the
register. -/
abbrev Site := (ℕ × ℕ × ℕ) × ℕ × ℕ

/-- The waves of a grid of tiles that covers `m × n` cells in every plane. -/
def waves (tile planes m n : ℕ) : List (ℕ × ℕ × ℕ) :=
  (List.range planes).product
    ((List.range ((m + (tile - 1)) / tile)).product (List.range ((n + (tile - 1)) / tile)))

variable (L)

/-- The places of a launch whose waves run in the given order. -/
def sites (order : List (ℕ × ℕ × ℕ)) : List Site :=
  order.product ((List.range L.lanes).product (List.range L.regs))

/-- The row of a place. -/
def siteRow (s : Site) : ℕ := s.1.2.1 * L.tile + L.accRow s.2.1 s.2.2

/-- The column of a place. -/
def siteCol (s : Site) : ℕ := s.1.2.2 * L.tile + s.2.1 % L.tile

/-- The place of a cell. -/
def cellSite (plane row col : ℕ) : Site :=
  ((plane, row / L.tile, col / L.tile), L.accLane (row % L.tile) (col % L.tile),
    L.accReg (row % L.tile) (col % L.tile))

variable {L}

theorem mem_sites {order : List (ℕ × ℕ × ℕ)} {planes m n : ℕ} (horder : order.Perm (waves L.tile planes m n))
    (s : Site) : s ∈ L.sites order ↔ (s.1.1 < planes ∧ s.1.2.1 < (m + (L.tile - 1)) / L.tile ∧
      s.1.2.2 < (n + (L.tile - 1)) / L.tile) ∧ s.2.1 < L.lanes ∧ s.2.2 < L.regs := by
  obtain ⟨⟨plane, tileRow, tileCol⟩, lane, reg⟩ := s
  simp [sites, waves, horder.mem_iff]

theorem sites_nodup {order : List (ℕ × ℕ × ℕ)} {planes m n : ℕ}
    (horder : order.Perm (waves L.tile planes m n)) : (L.sites order).Nodup := by
  refine List.Nodup.product ?_ (List.nodup_range.product List.nodup_range)
  rw [horder.nodup_iff]
  exact List.nodup_range.product (List.nodup_range.product List.nodup_range)

theorem lt_tiles {row m : ℕ} (h : row < m) : row / L.tile < (m + (L.tile - 1)) / L.tile := by
  have ht := L.tile_pos
  rw [Nat.lt_iff_add_one_le, Nat.le_div_iff_mul_le ht, Nat.add_mul, one_mul]
  have := Nat.div_mul_le_self row L.tile
  omega

/-- **Every cell has exactly one place.** -/
theorem cellSite_unique {order : List (ℕ × ℕ × ℕ)} {planes m n plane row col : ℕ}
    (horder : order.Perm (waves L.tile planes m n)) (hplane : plane < planes) (hrow : row < m)
    (hcol : col < n) :
    (L.cellSite plane row col ∈ L.sites order ∧ L.siteRow (L.cellSite plane row col) = row ∧
      L.siteCol (L.cellSite plane row col) = col) ∧
    ∀ s ∈ L.sites order, s.1.1 = plane → L.siteRow s = row → L.siteCol s = col →
      s = L.cellSite plane row col := by
  have ht := L.tile_pos
  obtain ⟨hlane, hreg, haccRow, haccCol⟩ :=
    L.accCell (row % L.tile) (col % L.tile) (Nat.mod_lt _ ht) (Nat.mod_lt _ ht)
  refine ⟨⟨(mem_sites horder _).2 ⟨⟨hplane, lt_tiles hrow, lt_tiles hcol⟩, hlane, hreg⟩, ?_, ?_⟩, ?_⟩
  · simp only [siteRow, cellSite, haccRow, Nat.div_add_mod']
  · simp only [siteCol, cellSite, haccCol, Nat.div_add_mod']
  · rintro ⟨⟨plane', tileRow, tileCol⟩, lane, reg⟩ hmem rfl hr hc
    obtain ⟨-, hlane', hreg'⟩ := (mem_sites horder _).1 hmem
    simp only [siteRow, siteCol] at hr hc hlane' hreg'
    have haccLt := L.accRow_lt lane reg hlane' hreg'
    have hcolLt := Nat.mod_lt lane ht
    have hrowParts := RowMajor.offset_parts tileRow haccLt
    have hcolParts := RowMajor.offset_parts tileCol hcolLt
    rw [hr] at hrowParts
    rw [hc] at hcolParts
    obtain ⟨h1, h2⟩ := site_unique hlane' hreg' hrowParts.2.symm hcolParts.2.symm
    simp only [cellSite, hrowParts.1, hcolParts.1, ← h1, ← h2]

/-- In a list without repetition one element alone stores to `o`. -/
theorem filter_stores_eq_singleton {σ ν : Type*} {store : σ → Option (ℕ × ν)} {l : List σ}
    (hnodup : l.Nodup) {a : σ} {o : ℕ} {v : ν} (ha : a ∈ l) (hstore : store a = some (o, v))
    (honly : ∀ b ∈ l, ∀ w, store b = some (o, w) → b = a) :
    (l.filterMap store).filter (fun s => decide (s.1 = o)) = [(o, v)] := by
  have hnone : ∀ l' : List σ, a ∉ l' → (∀ b ∈ l', b ∈ l) →
      (l'.filterMap store).filter (fun s => decide (s.1 = o)) = [] := by
    intro l' hout hsub
    rw [List.filter_eq_nil_iff]
    rintro ⟨o', w⟩ hmem
    obtain ⟨b, hb, hw⟩ := List.mem_filterMap.1 hmem
    simp only [decide_eq_true_eq]
    rintro rfl
    exact hout (honly b (hsub b hb) w hw ▸ hb)
  obtain ⟨l1, l2, rfl⟩ := List.append_of_mem ha
  obtain ⟨h1, h2⟩ : a ∉ l1 ∧ a ∉ l2 := by
    rw [List.nodup_append] at hnodup
    obtain ⟨-, hcons, hdisj⟩ := hnodup
    exact ⟨fun h => hdisj a h a List.mem_cons_self rfl, (List.nodup_cons.1 hcons).1⟩
  rw [List.filterMap_append, List.filter_append, hnone l1 h1 fun b hb => List.mem_append_left _ hb,
    List.filterMap_cons_some hstore, List.filter_cons_of_pos (by simp),
    hnone l2 h2 fun b hb => List.mem_append_right _ (List.mem_cons_of_mem _ hb), List.nil_append]

end LaneLayout
