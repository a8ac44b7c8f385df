import Rns8.Plan.Schedule
import Rns8.Lib.RowMajor

/-!
# The tile grid of a created plan

`ScheduleGrid` is what every plan returned by `rns8_create_plan` satisfies: its tile schedule, when
there is one, lists the tiles of a `tile_m × tile_n` grid over the output in row-major order, with
the extents cut at the border. The grid is a partition of the output: the tile that the lookup of an
output cell finds contains the cell, and no other tile does.
-/

namespace Rns8

/-- The entry describes the tile of the given index of the plan's grid. -/
structure TileAt (plan : Plan) (index : ℕ) (entry : TileScheduleEntry) : Prop where
  rowOffset : entry.rowOffset = index / plan.scheduleTileCols * plan.desc.tileM
  colOffset : entry.colOffset = index % plan.scheduleTileCols * plan.desc.tileN
  rowExtent : entry.rowExtent = min plan.desc.tileM (plan.desc.m - entry.rowOffset)
  colExtent : entry.colExtent = min plan.desc.tileN (plan.desc.n - entry.colOffset)

/-- **The schedule is the tile grid.** -/
structure ScheduleGrid (plan : Plan) : Prop where
  tileM_pos : 0 < plan.desc.tileM
  tileN_pos : 0 < plan.desc.tileN
  tileRows : plan.scheduleTileRows = ceilDiv plan.desc.m plan.desc.tileM
  tileCols : plan.scheduleTileCols = ceilDiv plan.desc.n plan.desc.tileN
  length : plan.tileSchedule ≠ [] →
    plan.tileSchedule.length = plan.scheduleTileRows * plan.scheduleTileCols
  tile : ∀ index entry, plan.tileSchedule[index]? = some entry → TileAt plan index entry

/-- The cell lies in the tile. -/
def TileScheduleEntry.Covers (entry : TileScheduleEntry) (row col : ℕ) : Prop :=
  entry.rowOffset ≤ row ∧ row < entry.rowOffset + entry.rowExtent ∧
    entry.colOffset ≤ col ∧ col < entry.colOffset + entry.colExtent

namespace ScheduleGrid

variable {plan : Plan} {row col : ℕ}

theorem rowExtent_le (h : ScheduleGrid plan) {entry : TileScheduleEntry}
    (he : entry ∈ plan.tileSchedule) :
    entry.rowExtent ≤ plan.desc.m - entry.rowOffset ∧ entry.rowExtent ≤ plan.desc.tileM := by
  obtain ⟨i, hi⟩ := List.mem_iff_getElem?.1 he
  rw [(h.tile i entry hi).rowExtent]
  omega

theorem colExtent_le (h : ScheduleGrid plan) {entry : TileScheduleEntry}
    (he : entry ∈ plan.tileSchedule) :
    entry.colExtent ≤ plan.desc.n - entry.colOffset ∧ entry.colExtent ≤ plan.desc.tileN := by
  obtain ⟨i, hi⟩ := List.mem_iff_getElem?.1 he
  rw [(h.tile i entry hi).colExtent]
  omega

/-- The cells of a tile are cells of the output. -/
theorem lt_of_covers (h : ScheduleGrid plan) {entry : TileScheduleEntry}
    (he : entry ∈ plan.tileSchedule) (hc : entry.Covers row col) :
    row < plan.desc.m ∧ col < plan.desc.n := by
  have h1 := (h.rowExtent_le he).1
  have h2 := (h.colExtent_le he).1
  obtain ⟨hr, hr', hc, hc'⟩ := hc
  omega

/-- **The lookup finds the tile of the cell.** -/
theorem exists_entry (h : ScheduleGrid plan) (hne : plan.tileSchedule ≠ [])
    (hrow : row < plan.desc.m) (hcol : col < plan.desc.n) :
    ∃ entry, tileScheduleEntryForCell plan row col = some entry ∧ entry ∈ plan.tileSchedule ∧
      entry.Covers row col := by
  obtain ⟨hr, hrlo, hrhi⟩ := RowMajor.mem_tile h.tileM_pos hrow
  obtain ⟨hc, hclo, hchi⟩ := RowMajor.mem_tile h.tileN_pos hcol
  have hcc : col / plan.desc.tileN < plan.scheduleTileCols := by rw [h.tileCols]; exact hc
  have hrr : row / plan.desc.tileM < plan.scheduleTileRows := by rw [h.tileRows]; exact hr
  have hpos : 0 < plan.scheduleTileCols := Nat.zero_lt_of_lt hcc
  have hlt : tileIndexForCell plan row col < plan.tileSchedule.length := by
    rw [h.length hne]; exact RowMajor.offset_lt hcc hrr
  refine ⟨plan.tileSchedule[tileIndexForCell plan row col], ?_, List.getElem_mem hlt, ?_⟩
  · exact List.getElem?_eq_getElem hlt
  · have ht := h.tile _ _ (List.getElem?_eq_getElem hlt)
    have hdiv : tileIndexForCell plan row col / plan.scheduleTileCols = row / plan.desc.tileM := by
      rw [tileIndexForCell, Nat.mul_comm, Nat.mul_add_div hpos, Nat.div_eq_of_lt hcc,
        Nat.add_zero]
    have hmod : tileIndexForCell plan row col % plan.scheduleTileCols = col / plan.desc.tileN := by
      rw [tileIndexForCell, Nat.mul_comm, Nat.mul_add_mod, Nat.mod_eq_of_lt hcc]
    have h1 := ht.rowOffset
    have h2 := ht.colOffset
    rw [hdiv] at h1
    rw [hmod] at h2
    exact ⟨by omega, by rw [ht.rowExtent, h1]; exact hrhi, by omega,
      by rw [ht.colExtent, h2]; exact hchi⟩

/-- The index of a tile that contains the cell is the looked-up index. -/
theorem index_eq_of_covers (h : ScheduleGrid plan) {i : ℕ} {entry : TileScheduleEntry}
    (hi : plan.tileSchedule[i]? = some entry) (hc : entry.Covers row col) :
    i = tileIndexForCell plan row col := by
  have he := List.mem_of_getElem? hi
  have ht := h.tile i entry hi
  obtain ⟨hr, hr', hcl, hc'⟩ := hc
  have hrow : i / plan.scheduleTileCols = row / plan.desc.tileM :=
    RowMajor.eq_div_of_mem_tile h.tileM_pos (h.rowExtent_le he).2 (ht.rowOffset ▸ hr)
      (ht.rowOffset ▸ hr')
  have hcol : i % plan.scheduleTileCols = col / plan.desc.tileN :=
    RowMajor.eq_div_of_mem_tile h.tileN_pos (h.colExtent_le he).2 (ht.colOffset ▸ hcl)
      (ht.colOffset ▸ hc')
  rw [tileIndexForCell, ← hrow, ← hcol, Nat.mul_comm, Nat.div_add_mod]

/-- **Only the looked-up tile contains the cell.** -/
theorem entry_eq_of_covers (h : ScheduleGrid plan) {entry : TileScheduleEntry}
    (he : entry ∈ plan.tileSchedule) (hc : entry.Covers row col) :
    tileScheduleEntryForCell plan row col = some entry := by
  obtain ⟨i, hi⟩ := List.mem_iff_getElem?.1 he
  rw [tileScheduleEntryForCell, ← h.index_eq_of_covers hi hc, hi]

/-- No two entries of the schedule contain the same cell. -/
theorem pairwise_covers (h : ScheduleGrid plan) :
    plan.tileSchedule.Pairwise fun e e' => ∀ row col, e.Covers row col → ¬ e'.Covers row col := by
  rw [List.pairwise_iff_getElem]
  intro i j hi hj hij row col hc hc'
  have h1 := h.index_eq_of_covers (List.getElem?_eq_getElem hi) hc
  have h2 := h.index_eq_of_covers (List.getElem?_eq_getElem hj) hc'
  omega

end ScheduleGrid

/-! ### Created plans have a grid -/

theorem defaultedTile_pos (t : ℕ) : 0 < (if t = 0 then 128 else t) := by
  split <;> omega

/-- The tile loop makes the entry of each index from that index. -/
theorem scheduleTiles_getElem? {plan : Plan} {count : ℕ} {entries : List TileScheduleEntry}
    (h : scheduleTiles plan count = .ok entries) :
    entries.length = count ∧
      ∀ i entry, entries[i]? = some entry → i < count ∧ scheduleTile plan i = .ok entry := by
  induction count generalizing entries with
  | zero =>
    obtain rfl : [] = entries := by simpa [scheduleTiles] using h
    exact ⟨rfl, fun i entry hi => by simp at hi⟩
  | succ count ih =>
    unfold scheduleTiles at h
    split at h
    · cases h
    · next es hes =>
      split at h
      · cases h
      · next e he =>
        obtain rfl : es ++ [e] = entries := by simpa using h
        obtain ⟨hlen, hall⟩ := ih hes
        refine ⟨by simp [hlen], fun i entry hi => ?_⟩
        rcases Nat.lt_or_ge i es.length with hlt | hge
        · rw [List.getElem?_append_left hlt] at hi
          exact ⟨by have := (hall i entry hi).1; omega, (hall i entry hi).2⟩
        · rw [List.getElem?_append_right hge] at hi
          obtain ⟨hi0, rfl⟩ : i - es.length = 0 ∧ e = entry := by
            rcases Nat.eq_zero_or_pos (i - es.length) with h0 | h0
            · rw [h0] at hi; exact ⟨h0, by simpa using hi⟩
            · rw [List.getElem?_eq_none (by simp; omega)] at hi; cases hi
          obtain rfl : i = count := by omega
          exact ⟨Nat.lt_succ_self _, he⟩

/-- What a successful pass of the tile loop returns. -/
theorem scheduleTile_ok {plan : Plan} {index : ℕ} {entry : TileScheduleEntry}
    (h : scheduleTile plan index = .ok entry) :
    let bound := plan.tileBounds.getD index 0
    let range := boundedRangeFromBound plan.desc.semantics bound
    let required := requiredPrefixForRange range
    (plan.desc.semantics = .boundedI64 → bound ≤ 2 ^ 63) ∧ required ≠ 0 ∧
      required ≤ plan.rnsPrefix ∧
      entry = makeTileScheduleEntry plan index required
        (if plan.desc.flags.forceFixedPrefix then plan.rnsPrefix else required) 0 (bitLength range)
        (tileEntryFlags plan index bound) := by
  unfold scheduleTile at h
  simp only at h
  split at h
  · cases h
  · next hb =>
    split at h
    · cases h
    · next hr =>
      refine ⟨fun hs => ?_, ?_, ?_, (Except.ok.inj h).symm⟩
      · by_contra hlt; exact hb ⟨hs, by omega⟩
      · exact fun h0 => hr (Or.inl h0)
      · by_contra hlt; exact hr (Or.inr (by omega))

end Rns8
