import Rns8.Plan.Schedule
import Rns8.Lib.AxisCut
import Rns8.Lib.RowMajor

/-!
# The device check of a tile schedule

`checked_tile_schedule_contract` of `hip_backend_runtime_launch_helpers.inc`, on the entries as the
ABI passes them. It rebuilds the two axes of the grid from the entries and does not know the plan.
-/

namespace Rns8

/-- `rns8_plan_tile_schedule_entry` as the ABI passes it; `abiOk` stands for the size and the version
of the record. -/
structure HostTileEntry where
  abiOk : Bool := true
  flags : UInt32 := 0
  tileRow : ℕ
  tileCol : ℕ
  rowOffset : ℤ
  colOffset : ℤ
  rowExtent : ℤ
  colExtent : ℤ
  requiredPrefix : ℕ
  selectedPrefix : ℕ
  groupIndex : ℕ
  rangeBitLength : ℕ := 0
  deriving DecidableEq, Repr

/-- `kKnownTileScheduleFlags`. -/
def knownTileScheduleFlags : UInt32 := 1 ||| 2

/-- `checked_tile_entry`. -/
def checkedTileEntry (entry : HostTileEntry) (rows cols : ℤ) : Bool :=
  if !entry.abiOk || decide (entry.flags &&& ~~~knownTileScheduleFlags ≠ 0) ||
      decide (entry.rowOffset < 0) || decide (entry.colOffset < 0) || decide (entry.rowExtent ≤ 0) ||
      decide (entry.colExtent ≤ 0) || decide (entry.requiredPrefix = 0) ||
      decide (entry.selectedPrefix = 0) || decide (entry.selectedPrefix < entry.requiredPrefix) ||
      decide (maxSupportedPrefix < entry.selectedPrefix) then false
  else if rows < entry.rowOffset ∨ cols < entry.colOffset then false
  else decide (entry.rowExtent ≤ rows - entry.rowOffset) &&
    decide (entry.colExtent ≤ cols - entry.colOffset) && decide (entry.rowOffset ≤ intMax) &&
    decide (entry.colOffset ≤ intMax) && decide (entry.rowExtent ≤ intMax) &&
    decide (entry.colExtent ≤ intMax)

/-- `collect_unique_sorted_u64` and `collect_unique_sorted_u32`: the values with a new one, if there
are at most `limit` of them. -/
def collectUnique (limit : ℕ) (values : List ℕ) (value : ℕ) : Option (List ℕ) :=
  let values := if value ∈ values then values else values ++ [value]
  if values.length ≤ limit then some values else none

/-- `row_ids`, `col_ids` and `selected_prefixes`. -/
structure TileIds where
  rowIds : List ℕ := []
  colIds : List ℕ := []
  selectedPrefixes : List ℕ := []

/-- One pass of the first loop of `checked_tile_schedule_contract`. -/
def collectTile (rows cols : ℤ) (ids : TileIds) (entry : HostTileEntry) : Option TileIds :=
  if !checkedTileEntry entry rows cols then none
  else
    match collectUnique intMax ids.rowIds entry.tileRow with
    | none => none
    | some rowIds =>
      match collectUnique intMax ids.colIds entry.tileCol with
      | none => none
      | some colIds =>
        match collectUnique (2 ^ 32 - 1) ids.selectedPrefixes entry.selectedPrefix with
        | none => none
        | some selectedPrefixes => some { rowIds, colIds, selectedPrefixes }

/-- The first loop. -/
def collectTiles (entries : List HostTileEntry) (rows cols : ℤ) : Option TileIds :=
  entries.foldlM (collectTile rows cols) {}

/-- The offsets and extents of one axis of `checked_tile_schedule`. -/
structure TileAxis where
  offsets : ℕ → ℕ := fun _ => 0
  extents : ℕ → ℕ := fun _ => 0

/-- A tile's interval is entered the first time and compared later. -/
def recordAxis (axis : TileAxis) (tile offset extent : ℕ) : Option TileAxis :=
  if axis.extents tile = 0 then
    some { offsets := Function.update axis.offsets tile offset
           extents := Function.update axis.extents tile extent }
  else if axis.offsets tile ≠ offset ∨ axis.extents tile ≠ extent then none
  else some axis

/-- `std::lower_bound`: the position of the first element that is not below the value. -/
def lowerBound (sorted : List ℕ) (value : ℕ) : ℕ := (sorted.takeWhile (· < value)).length

/-- The state of the second loop. -/
structure TileRecord where
  rowAxis : TileAxis := {}
  colAxis : TileAxis := {}
  seen : ℕ → Bool := fun _ => false

/-- One pass of the second loop of `checked_tile_schedule_contract`. -/
def recordTile (count tileCols : ℕ) (selectedPrefixes : List ℕ) (s : TileRecord) (index : ℕ)
    (entry : HostTileEntry) : Option TileRecord :=
  if entry.tileRow ≠ index / tileCols ∨ entry.tileCol ≠ index % tileCols then none
  else
    let linear := entry.tileRow * tileCols + entry.tileCol
    if count ≤ linear ∨ s.seen linear = true then none
    else
      let seen := Function.update s.seen linear true
      match recordAxis s.rowAxis entry.tileRow entry.rowOffset.toNat entry.rowExtent.toNat with
      | none => none
      | some rowAxis =>
        match recordAxis s.colAxis entry.tileCol entry.colOffset.toNat entry.colExtent.toNat with
        | none => none
        | some colAxis =>
          let group := lowerBound selectedPrefixes entry.selectedPrefix
          if selectedPrefixes[group]? ≠ some entry.selectedPrefix ∨ entry.groupIndex ≠ group then none
          else some { rowAxis, colAxis, seen }

/-- The second loop over the first `n` entries. -/
def recordTiles (entries : List HostTileEntry) (tileCols : ℕ) (selectedPrefixes : List ℕ) :
    ℕ → Option TileRecord
  | 0 => some {}
  | n + 1 =>
    match recordTiles entries tileCols selectedPrefixes n, entries[n]? with
    | some s, some entry => recordTile entries.length tileCols selectedPrefixes s n entry
    | _, _ => none

/-- One pass of the loop of `checked_tile_axis_coverage`. -/
def axisStep (axis : TileAxis) (total expected index : ℕ) : Option ℕ :=
  if total < expected ∨ axis.offsets index ≠ expected ∨ axis.extents index = 0 ∨
      total - expected < axis.extents index then none
  else some (expected + axis.extents index)

/-- `checked_tile_axis_coverage`. -/
def checkedTileAxisCoverage (axis : TileAxis) (count total : ℕ) : Bool :=
  decide ((List.range count).foldlM (axisStep axis total) 0 = some total)

/-- `checked_tile_schedule`. -/
structure CheckedTileSchedule where
  rowAxis : TileAxis
  colAxis : TileAxis
  selectedPrefixGroups : List ℕ

/-- `ids[i] == i` for all positions. -/
def idsConsecutive (ids : List ℕ) : Bool := (List.range ids.length).all fun i => ids[i]? == some i

/-- `checked_tile_schedule_contract`; the schedule is what the code moves to `*out`. -/
def checkedTileScheduleContract (entries : List HostTileEntry) (rows cols : ℤ) :
    Option CheckedTileSchedule :=
  if entries.length = 0 ∨ rows ≤ 0 ∨ cols ≤ 0 then none
  else
    match collectTiles entries rows cols with
    | none => none
    | some ids =>
      let rowIds := ids.rowIds.mergeSort
      let colIds := ids.colIds.mergeSort
      let selectedPrefixes := ids.selectedPrefixes.mergeSort
      if rowIds = [] ∨ colIds = [] ∨ sizeMax / colIds.length < rowIds.length ∨
          rowIds.length * colIds.length ≠ entries.length then none
      else if !idsConsecutive rowIds || !idsConsecutive colIds then none
      else
        match recordTiles entries colIds.length selectedPrefixes entries.length with
        | none => none
        | some s =>
          if !(List.range entries.length).all s.seen ||
              !checkedTileAxisCoverage s.rowAxis rowIds.length rows.toNat ||
              !checkedTileAxisCoverage s.colAxis colIds.length cols.toNat then none
          else some ⟨s.rowAxis, s.colAxis, selectedPrefixes⟩

/-! ### The grid that the check accepts -/

/-- The rank of a selected prefix among those that occur. -/
def selectedPrefixRank (entries : List HostTileEntry) (selectedPrefix : ℕ) : ℕ :=
  groupIndexOf (entries.map (·.selectedPrefix)).dedup selectedPrefix

/-- The entries list a grid in row-major order: the rows of the grid cut the rows of the output, its
columns cut the columns, and every group index is the rank of the entry's prefix. -/
structure TileGrid (entries : List HostTileEntry) (rows cols tileRows tileCols : ℕ)
    (rowAxis colAxis : TileAxis) : Prop where
  rowCut : AxisCut rowAxis.offsets rowAxis.extents tileRows rows
  colCut : AxisCut colAxis.offsets colAxis.extents tileCols cols
  length : entries.length = tileRows * tileCols
  tileRow : ∀ index entry, entries[index]? = some entry → entry.tileRow = index / tileCols
  tileCol : ∀ index entry, entries[index]? = some entry → entry.tileCol = index % tileCols
  rowSpan : ∀ index entry, entries[index]? = some entry →
    entry.rowOffset = (rowAxis.offsets (index / tileCols) : ℤ) ∧
      entry.rowExtent = (rowAxis.extents (index / tileCols) : ℤ)
  colSpan : ∀ index entry, entries[index]? = some entry →
    entry.colOffset = (colAxis.offsets (index % tileCols) : ℤ) ∧
      entry.colExtent = (colAxis.extents (index % tileCols) : ℤ)
  group : ∀ (index : ℕ) (entry : HostTileEntry), entries[index]? = some entry →
    entry.groupIndex = selectedPrefixRank entries entry.selectedPrefix

/-- The cell lies in the rectangle of the entry. -/
def HostTileEntry.Covers (entry : HostTileEntry) (row col : ℕ) : Prop :=
  entry.rowOffset ≤ row ∧ row < entry.rowOffset + entry.rowExtent ∧
    entry.colOffset ≤ col ∧ col < entry.colOffset + entry.colExtent

namespace TileGrid

variable {entries : List HostTileEntry} {rows cols tileRows tileCols : ℕ} {rowAxis colAxis : TileAxis}

theorem covers_iff (h : TileGrid entries rows cols tileRows tileCols rowAxis colAxis) {index : ℕ}
    {entry : HostTileEntry} (hentry : entries[index]? = some entry) (row col : ℕ) :
    entry.Covers row col ↔
      (rowAxis.offsets (index / tileCols) ≤ row ∧
        row < rowAxis.offsets (index / tileCols) + rowAxis.extents (index / tileCols)) ∧
      colAxis.offsets (index % tileCols) ≤ col ∧
        col < colAxis.offsets (index % tileCols) + colAxis.extents (index % tileCols) := by
  obtain ⟨hro, hre⟩ := h.rowSpan index entry hentry
  obtain ⟨hco, hce⟩ := h.colSpan index entry hentry
  unfold HostTileEntry.Covers
  rw [hro, hre, hco, hce]
  omega

/-- **The grid partitions the output**: every cell lies in exactly one entry. -/
theorem existsUnique (h : TileGrid entries rows cols tileRows tileCols rowAxis colAxis) {row col : ℕ}
    (hrow : row < rows) (hcol : col < cols) :
    ∃! index : ℕ, ∃ entry, entries[index]? = some entry ∧
      HostTileEntry.Covers entry row col := by
  obtain ⟨r, ⟨hr, hrspan⟩, hruniq⟩ := h.rowCut.existsUnique hrow
  obtain ⟨c, ⟨hc, hcspan⟩, hcuniq⟩ := h.colCut.existsUnique hcol
  have hlt : r * tileCols + c < entries.length := by
    rw [h.length]
    exact RowMajor.offset_lt hc hr
  obtain ⟨hdiv, hmod⟩ := RowMajor.offset_parts r hc
  refine ⟨r * tileCols + c, ⟨_, List.getElem?_eq_getElem hlt, ?_⟩, ?_⟩
  · rw [h.covers_iff (List.getElem?_eq_getElem hlt), hdiv, hmod]
    exact ⟨hrspan, hcspan⟩
  · rintro index ⟨entry, hentry, hcov⟩
    obtain ⟨hrow', hcol'⟩ := (h.covers_iff hentry row col).1 hcov
    obtain ⟨hidx, -⟩ := List.getElem?_eq_some_iff.1 hentry
    rw [h.length] at hidx
    obtain ⟨hi, hj⟩ := RowMajor.div_mod_lt hidx
    rw [← hruniq _ ⟨hi, hrow'⟩, ← hcuniq _ ⟨hj, hcol'⟩, Nat.mul_comm, Nat.div_add_mod]

/-- The rectangle of an entry is not empty and lies in the output. -/
theorem rectangle (h : TileGrid entries rows cols tileRows tileCols rowAxis colAxis)
    {entry : HostTileEntry} (hentry : entry ∈ entries) :
    (0 ≤ entry.rowOffset ∧ 0 < entry.rowExtent ∧ entry.rowOffset + entry.rowExtent ≤ rows) ∧
      0 ≤ entry.colOffset ∧ 0 < entry.colExtent ∧ entry.colOffset + entry.colExtent ≤ cols := by
  obtain ⟨index, hindex⟩ := List.mem_iff_getElem?.1 hentry
  obtain ⟨hidx, -⟩ := List.getElem?_eq_some_iff.1 hindex
  rw [h.length] at hidx
  obtain ⟨hi, hj⟩ := RowMajor.div_mod_lt hidx
  obtain ⟨hro, hre⟩ := h.rowSpan index entry hindex
  obtain ⟨hco, hce⟩ := h.colSpan index entry hindex
  have h1 := h.rowCut.pos _ hi
  have h2 := h.rowCut.add_le hi
  have h3 := h.colCut.pos _ hj
  have h4 := h.colCut.add_le hj
  omega

end TileGrid

/-! ### The collected ids -/

theorem length_le_of_nodup {l : List ℕ} {n : ℕ} (hl : l.Nodup) (hlt : ∀ x ∈ l, x < n) :
    l.length ≤ n := by
  have hsub : l ⊆ List.range n := fun x hx => List.mem_range.2 (hlt x hx)
  exact (List.subperm_of_subset hl hsub).length_le.trans (by simp)

theorem collectUnique_some {limit value : ℕ} {l l' : List ℕ} (h : collectUnique limit l value = some l')
    (hl : l.Nodup) : l'.Nodup ∧ ∀ x, x ∈ l' ↔ x = value ∨ x ∈ l := by
  unfold collectUnique at h
  by_cases hmem : value ∈ l
  · simp only [if_pos hmem] at h
    split at h
    · obtain rfl := Option.some.inj h
      refine ⟨hl, fun x => ⟨Or.inr, ?_⟩⟩
      rintro (rfl | hx)
      · exact hmem
      · exact hx
    · cases h
  · simp only [if_neg hmem] at h
    split at h
    · obtain rfl := Option.some.inj h
      refine ⟨List.nodup_append.2 ⟨hl, List.nodup_singleton _, ?_⟩, fun x => ?_⟩
      · intro a ha b hb hab
        rw [List.mem_singleton] at hb
        exact hmem (hb ▸ hab ▸ ha)
      · rw [List.mem_append, List.mem_singleton, or_comm]
    · cases h

theorem collectUnique_isSome {limit value n : ℕ} {l : List ℕ} (hl : l.Nodup) (hlt : ∀ x ∈ l, x < n)
    (hvalue : value < n) (hn : n ≤ limit) : ∃ l', collectUnique limit l value = some l' := by
  unfold collectUnique
  dsimp only
  refine ⟨_, if_pos (le_trans ?_ hn)⟩
  split
  · exact length_le_of_nodup hl hlt
  · next hmem =>
    refine length_le_of_nodup (List.nodup_append.2 ⟨hl, List.nodup_singleton _, ?_⟩) fun x hx => ?_
    · intro a ha b hb hab
      rw [List.mem_singleton] at hb
      exact hmem (hb ▸ hab ▸ ha)
    · rcases List.mem_append.1 hx with hx | hx
      · exact hlt x hx
      · rw [List.mem_singleton.1 hx]
        exact hvalue

/-- The three lists hold each value once. -/
structure TileIds.Nodup (ids : TileIds) : Prop where
  rowIds : ids.rowIds.Nodup
  colIds : ids.colIds.Nodup
  selectedPrefixes : ids.selectedPrefixes.Nodup

/-- What a pass of the first loop does. -/
theorem collectTile_some {rows cols : ℤ} {ids ids' : TileIds} {entry : HostTileEntry}
    (h : collectTile rows cols ids entry = some ids') (hids : ids.Nodup) :
    checkedTileEntry entry rows cols = true ∧ ids'.Nodup ∧
      (∀ x, x ∈ ids'.rowIds ↔ x = entry.tileRow ∨ x ∈ ids.rowIds) ∧
      (∀ x, x ∈ ids'.colIds ↔ x = entry.tileCol ∨ x ∈ ids.colIds) ∧
      ∀ x, x ∈ ids'.selectedPrefixes ↔ x = entry.selectedPrefix ∨ x ∈ ids.selectedPrefixes := by
  unfold collectTile at h
  split at h
  · cases h
  · next hchecked =>
    split at h
    · cases h
    · next rowIds hrow =>
      split at h
      · cases h
      · next colIds hcol =>
        split at h
        · cases h
        · next selected hsel =>
          obtain rfl := Option.some.inj h
          obtain ⟨h1, h2⟩ := collectUnique_some hrow hids.rowIds
          obtain ⟨h3, h4⟩ := collectUnique_some hcol hids.colIds
          obtain ⟨h5, h6⟩ := collectUnique_some hsel hids.selectedPrefixes
          exact ⟨by simpa using hchecked, ⟨h1, h3, h5⟩, h2, h4, h6⟩

/-- **The first loop** checks every entry and collects its ids. -/
theorem collectTiles_from {rows cols : ℤ} (entries : List HostTileEntry) {ids ids' : TileIds}
    (h : entries.foldlM (collectTile rows cols) ids = some ids') (hids : ids.Nodup) :
    (∀ e ∈ entries, checkedTileEntry e rows cols = true) ∧ ids'.Nodup ∧
      (∀ x, x ∈ ids'.rowIds ↔ x ∈ ids.rowIds ∨ ∃ e ∈ entries, e.tileRow = x) ∧
      (∀ x, x ∈ ids'.colIds ↔ x ∈ ids.colIds ∨ ∃ e ∈ entries, e.tileCol = x) ∧
      ∀ x, x ∈ ids'.selectedPrefixes ↔
        x ∈ ids.selectedPrefixes ∨ ∃ e ∈ entries, e.selectedPrefix = x := by
  induction entries generalizing ids with
  | nil =>
    obtain rfl := Option.some.inj h
    simp [hids]
  | cons entry entries ih =>
    rw [List.foldlM_cons] at h
    obtain ⟨mid, hmid, hrest⟩ := Option.bind_eq_some_iff.1 h
    obtain ⟨hchecked, hnodup, hr, hc, hs⟩ := collectTile_some hmid hids
    obtain ⟨hall, hnodup', hr', hc', hs'⟩ := ih hrest hnodup
    refine ⟨List.forall_mem_cons.2 ⟨hchecked, hall⟩, hnodup', fun x => ?_, fun x => ?_, fun x => ?_⟩
    · rw [hr', hr, List.exists_mem_cons_iff, eq_comm]
      tauto
    · rw [hc', hc, List.exists_mem_cons_iff, eq_comm]
      tauto
    · rw [hs', hs, List.exists_mem_cons_iff, eq_comm]
      tauto

/-- The first loop accepts checked entries with few rows and columns. -/
theorem collectTiles_isSome {rows cols : ℤ} {tileRows tileCols : ℕ} (hR : tileRows ≤ intMax)
    (hC : tileCols ≤ intMax) (entries : List HostTileEntry) {ids : TileIds} (hids : ids.Nodup)
    (hlt : (∀ x ∈ ids.rowIds, x < tileRows) ∧ (∀ x ∈ ids.colIds, x < tileCols) ∧
      ∀ x ∈ ids.selectedPrefixes, x < maxSupportedPrefix + 1)
    (hentries : ∀ e ∈ entries, checkedTileEntry e rows cols = true ∧ e.tileRow < tileRows ∧
      e.tileCol < tileCols ∧ e.selectedPrefix < maxSupportedPrefix + 1) :
    ∃ ids', entries.foldlM (collectTile rows cols) ids = some ids' := by
  -- the collected ids stay distinct and below the counts of the grid, so no list grows too long
  induction entries generalizing ids with
  | nil => exact ⟨ids, rfl⟩
  | cons entry entries ih =>
    obtain ⟨⟨hchecked, hrow, hcol, hsel⟩, hrest⟩ := List.forall_mem_cons.1 hentries
    obtain ⟨rowIds, hr⟩ := collectUnique_isSome hids.rowIds hlt.1 hrow hR
    obtain ⟨colIds, hc⟩ := collectUnique_isSome hids.colIds hlt.2.1 hcol hC
    obtain ⟨selected, hs⟩ := @collectUnique_isSome (2 ^ 32 - 1) _ _ _ hids.selectedPrefixes
      hlt.2.2 hsel (by decide)
    have hstep : collectTile rows cols ids entry = some ⟨rowIds, colIds, selected⟩ := by
      unfold collectTile
      simp only [hchecked, Bool.not_true, Bool.false_eq_true, if_false, hr, hc, hs]
    obtain ⟨-, hnodup, hr', hc', hs'⟩ := collectTile_some hstep hids
    have hlt' : (∀ x ∈ rowIds, x < tileRows) ∧ (∀ x ∈ colIds, x < tileCols) ∧
        ∀ x ∈ selected, x < maxSupportedPrefix + 1 := by
      refine ⟨fun x hx => ?_, fun x hx => ?_, fun x hx => ?_⟩
      · rcases (hr' x).1 hx with rfl | h
        · exact hrow
        · exact hlt.1 x h
      · rcases (hc' x).1 hx with rfl | h
        · exact hcol
        · exact hlt.2.1 x h
      · rcases (hs' x).1 hx with rfl | h
        · exact hsel
        · exact hlt.2.2 x h
    obtain ⟨ids', hrun⟩ := ih hnodup hlt' hrest
    refine ⟨ids', ?_⟩
    rw [List.foldlM_cons, hstep]
    exact hrun

end Rns8
