import Rns8.Hip.TileContract

/-!
# What the device check of a tile schedule accepts

`checkedTileScheduleContract_isSome_iff`: exactly the lists of checked entries that are row-major grid
partitions of the output, with ranks as group indices and no more rows or columns than an `int`
counts.
-/

namespace Rns8

/-! ### Sorted lists -/

/-- In a sorted list the lower bound counts the smaller elements. -/
theorem lowerBound_eq_countP {l : List ℕ} (hl : l.Pairwise (· ≤ ·)) (value : ℕ) :
    lowerBound l value = l.countP (· < value) := by
  unfold lowerBound
  induction l with
  | nil => rfl
  | cons a l ih =>
    obtain ⟨ha, hl⟩ := List.pairwise_cons.1 hl
    by_cases hlt : a < value
    · rw [List.takeWhile_cons_of_pos (by simpa using hlt), List.length_cons, ih hl,
        List.countP_cons_of_pos (by simpa using hlt)]
    · rw [List.takeWhile_cons_of_neg (by simpa using hlt), List.length_nil,
        List.countP_cons_of_neg (by simpa using hlt)]
      refine (List.countP_eq_zero.2 fun x hx => ?_).symm
      have := ha x hx
      simp only [decide_eq_true_eq]
      omega

/-- In a sorted list the lower bound of an element is a position of the element. -/
theorem getElem?_lowerBound {l : List ℕ} (hl : l.Pairwise (· ≤ ·)) {value : ℕ} (hmem : value ∈ l) :
    l[lowerBound l value]? = some value := by
  unfold lowerBound
  induction l with
  | nil => cases hmem
  | cons a l ih =>
    obtain ⟨ha, hl⟩ := List.pairwise_cons.1 hl
    by_cases hlt : a < value
    · rw [List.takeWhile_cons_of_pos (by simpa using hlt), List.length_cons, List.getElem?_cons_succ]
      refine ih hl ?_
      rcases List.mem_cons.1 hmem with rfl | h
      · exact absurd hlt (lt_irrefl _)
      · exact h
    · rw [List.takeWhile_cons_of_neg (by simpa using hlt), List.length_nil, List.getElem?_cons_zero]
      rcases List.mem_cons.1 hmem with rfl | h
      · rfl
      · have := ha value h
        rw [show a = value by omega]

theorem pairwise_mergeSort (l : List ℕ) : l.mergeSort.Pairwise (· ≤ ·) := by
  have h := @List.pairwise_mergeSort ℕ (fun a b => decide (a ≤ b))
    (fun a b c h h' => by simp only [decide_eq_true_eq] at *; omega)
    (fun a b => by simp only [Bool.or_eq_true, decide_eq_true_eq]; omega) l
  exact h.imp fun hab => by simpa using hab

/-- The ids are consecutive when they are the numbers below their count. -/
theorem idsConsecutive_mergeSort_of_mem {l : List ℕ} {n : ℕ} (hl : l.Nodup)
    (hmem : ∀ x, x ∈ l ↔ x < n) : l.mergeSort = List.range n := by
  have hperm : l.mergeSort.Perm (List.range n) :=
    (List.mergeSort_perm l _).trans ((List.perm_ext_iff_of_nodup hl List.nodup_range).2 fun x => by
      rw [hmem, List.mem_range])
  exact hperm.eq_of_pairwise (fun a b _ _ h h' => le_antisymm h h') (pairwise_mergeSort l)
    (List.pairwise_le_range)

theorem idsConsecutive_range (n : ℕ) : idsConsecutive (List.range n) = true := by
  unfold idsConsecutive
  rw [List.length_range, List.all_eq_true]
  intro i hi
  rw [List.getElem?_range (List.mem_range.1 hi), beq_self_eq_true]

/-! ### The axes -/

/-- The coverage loop sums the extents. -/
theorem axisStep_foldlM (axis : TileAxis) (total n e : ℕ) :
    (List.range n).foldlM (axisStep axis total) 0 = some e ↔
      e = ∑ j ∈ Finset.range n, axis.extents j ∧ e ≤ total ∧
        ∀ i < n, axis.offsets i = ∑ j ∈ Finset.range i, axis.extents j ∧ 0 < axis.extents i := by
  -- after `n` steps the end is the sum of the first `n` extents, and each step met its offset
  -- there
  induction n generalizing e with
  | zero =>
    simp only [List.range_zero, List.foldlM_nil, Finset.range_zero, Finset.sum_empty,
      Nat.not_lt_zero, IsEmpty.forall_iff, implies_true, and_true]
    constructor
    · rintro h
      obtain rfl : 0 = e := Option.some.inj h
      exact ⟨rfl, Nat.zero_le _⟩
    · rintro ⟨rfl, -⟩
      rfl
  | succ n ih =>
    rw [List.range_succ, List.foldlM_append, Finset.sum_range_succ]
    simp only [List.foldlM_cons, List.foldlM_nil, bind_pure]
    constructor
    · intro h
      obtain ⟨mid, hmid, hstep⟩ := Option.bind_eq_some_iff.1 h
      obtain ⟨rfl, -, hall⟩ := (ih mid).1 hmid
      unfold axisStep at hstep
      split at hstep
      · cases hstep
      · next hok =>
        obtain rfl := Option.some.inj hstep
        refine ⟨rfl, by omega, fun i hi => ?_⟩
        rcases Nat.lt_succ_iff_lt_or_eq.1 hi with hlt | rfl
        · exact hall i hlt
        · exact ⟨by omega, by omega⟩
    · rintro ⟨rfl, hle, hall⟩
      obtain ⟨hoff, hpos⟩ := hall n (Nat.lt_succ_self n)
      refine Option.bind_eq_some_iff.2 ⟨_, (ih _).2 ⟨rfl, by omega, fun i hi => hall i (by omega)⟩, ?_⟩
      unfold axisStep
      exact if_neg (by omega)

/-- **The coverage check accepts exactly the cuts of the axis.** -/
theorem checkedTileAxisCoverage_iff (axis : TileAxis) (count total : ℕ) :
    checkedTileAxisCoverage axis count total = true ↔
      AxisCut axis.offsets axis.extents count total := by
  unfold checkedTileAxisCoverage
  rw [decide_eq_true_eq, axisStep_foldlM]
  constructor
  · rintro ⟨h1, -, h2⟩
    exact ⟨fun i hi => (h2 i hi).1, fun i hi => (h2 i hi).2, h1.symm⟩
  · rintro ⟨h1, h2, h3⟩
    exact ⟨h3.symm, le_rfl, fun i hi => ⟨h1 i hi, h2 i hi⟩⟩

theorem recordAxis_some {axis axis' : TileAxis} {tile offset extent : ℕ}
    (h : recordAxis axis tile offset extent = some axis') :
    axis'.offsets tile = offset ∧ axis'.extents tile = extent ∧
      ∀ t, axis.extents t ≠ 0 →
        axis'.offsets t = axis.offsets t ∧ axis'.extents t = axis.extents t := by
  unfold recordAxis at h
  split at h
  · next hzero =>
    obtain rfl := Option.some.inj h
    refine ⟨Function.update_self .., Function.update_self .., fun t ht => ?_⟩
    have hne : t ≠ tile := fun heq => ht (heq ▸ hzero)
    exact ⟨Function.update_of_ne hne .., Function.update_of_ne hne ..⟩
  · split at h
    · cases h
    · next hsame =>
      obtain rfl := Option.some.inj h
      push Not at hsame
      exact ⟨hsame.1, hsame.2, fun t _ => ⟨rfl, rfl⟩⟩

/-- An axis that so far only holds intervals of a given one. -/
def TileAxis.Within (axis full : TileAxis) : Prop :=
  ∀ t, axis.extents t = 0 ∨
    axis.offsets t = full.offsets t ∧ axis.extents t = full.extents t

theorem recordAxis_within {axis full : TileAxis} (h : axis.Within full) (tile : ℕ) :
    ∃ axis', recordAxis axis tile (full.offsets tile) (full.extents tile) = some axis' ∧
      axis'.Within full := by
  unfold recordAxis
  by_cases hzero : axis.extents tile = 0
  · refine ⟨_, if_pos hzero, fun t => ?_⟩
    dsimp only
    rcases eq_or_ne t tile with rfl | hne
    · exact Or.inr ⟨Function.update_self .., Function.update_self ..⟩
    · rw [Function.update_of_ne hne, Function.update_of_ne hne]
      exact h t
  · obtain ⟨h1, h2⟩ := (h tile).resolve_left hzero
    refine ⟨axis, ?_, h⟩
    rw [if_neg hzero, if_neg (by simp [h1, h2])]

/-! ### The second loop -/

/-- What the second loop has established of the entry at `index`. -/
structure Recorded (tileCols : ℕ) (selectedPrefixes : List ℕ) (s : TileRecord) (index : ℕ)
    (entry : HostTileEntry) : Prop where
  tileRow : entry.tileRow = index / tileCols
  tileCol : entry.tileCol = index % tileCols
  row : s.rowAxis.offsets entry.tileRow = entry.rowOffset.toNat ∧
    s.rowAxis.extents entry.tileRow = entry.rowExtent.toNat
  col : s.colAxis.offsets entry.tileCol = entry.colOffset.toNat ∧
    s.colAxis.extents entry.tileCol = entry.colExtent.toNat
  group : entry.groupIndex = lowerBound selectedPrefixes entry.selectedPrefix

section Loop

variable {entries : List HostTileEntry} {tileCols : ℕ} {selectedPrefixes : List ℕ}

/-- A pass records its entry and leaves what was recorded. -/
theorem recordTile_some {count index : ℕ} {s s' : TileRecord} {entry : HostTileEntry}
    (h : recordTile count tileCols selectedPrefixes s index entry = some s') :
    Recorded tileCols selectedPrefixes s' index entry ∧
      ∀ i e, 0 < e.rowExtent → 0 < e.colExtent → Recorded tileCols selectedPrefixes s i e →
        Recorded tileCols selectedPrefixes s' i e := by
  unfold recordTile at h
  split at h
  · cases h
  · next hids =>
    push Not at hids
    dsimp only at h
    split at h
    · cases h
    · split at h
      · cases h
      · next rowAxis hrow =>
        split at h
        · cases h
        · next colAxis hcol =>
          split at h
          · cases h
          · next hgroup =>
            push Not at hgroup
            obtain rfl := Option.some.inj h
            -- an extent that is recorded once is never changed
            obtain ⟨hr1, hr2, hr3⟩ := recordAxis_some hrow
            obtain ⟨hc1, hc2, hc3⟩ := recordAxis_some hcol
            refine ⟨⟨hids.1, hids.2, ⟨hr1, hr2⟩, ⟨hc1, hc2⟩, hgroup.2⟩, fun i e hre hce hrec => ?_⟩
            have hrne : s.rowAxis.extents e.tileRow ≠ 0 := by rw [hrec.row.2]; omega
            have hcne : s.colAxis.extents e.tileCol ≠ 0 := by rw [hrec.col.2]; omega
            obtain ⟨h1, h2⟩ := hr3 _ hrne
            obtain ⟨h3, h4⟩ := hc3 _ hcne
            exact ⟨hrec.tileRow, hrec.tileCol, ⟨h1.trans hrec.row.1, h2.trans hrec.row.2⟩,
              ⟨h3.trans hrec.col.1, h4.trans hrec.col.2⟩, hrec.group⟩

/-- **The second loop** records every entry. -/
theorem recordTiles_some (hpos : ∀ e ∈ entries, 0 < e.rowExtent ∧ 0 < e.colExtent) {n : ℕ}
    {s : TileRecord} (h : recordTiles entries tileCols selectedPrefixes n = some s) :
    ∀ i < n, ∀ entry, entries[i]? = some entry → Recorded tileCols selectedPrefixes s i entry := by
  induction n generalizing s with
  | zero => exact fun i hi => absurd hi (Nat.not_lt_zero i)
  | succ n ih =>
    unfold recordTiles at h
    split at h
    · next s₀ entry hs₀ hentry =>
      obtain ⟨hnew, hkeep⟩ := recordTile_some h
      intro i hi e he
      rcases Nat.lt_succ_iff_lt_or_eq.1 hi with hlt | rfl
      · obtain ⟨h1, h2⟩ := hpos e (List.mem_of_getElem? he)
        exact hkeep i e h1 h2 (ih hs₀ i hlt e he)
      · obtain rfl := Option.some.inj (hentry.symm.trans he)
        exact hnew
    · cases h

/-- The second loop accepts a grid. -/
theorem recordTiles_isSome {rows cols tileRows : ℕ} {rowAxis colAxis : TileAxis}
    (hgrid : TileGrid entries rows cols tileRows tileCols rowAxis colAxis)
    (hsorted : selectedPrefixes.Pairwise (· ≤ ·))
    (hmem : ∀ e ∈ entries, e.selectedPrefix ∈ selectedPrefixes)
    (hrank : ∀ value, lowerBound selectedPrefixes value = selectedPrefixRank entries value) {n : ℕ}
    (hn : n ≤ entries.length) :
    ∃ s, recordTiles entries tileCols selectedPrefixes n = some s ∧ s.rowAxis.Within rowAxis ∧
      s.colAxis.Within colAxis ∧ ∀ i, s.seen i = decide (i < n) := by
  -- the recorded axes never leave the axes of the grid, and exactly the entries before `n` are
  -- seen
  induction n with
  | zero => exact ⟨{}, rfl, fun t => Or.inl rfl, fun t => Or.inl rfl, fun i => by simp⟩
  | succ n ih =>
    obtain ⟨s, hs, hrow, hcol, hseen⟩ := ih (by omega)
    have hentry := List.getElem?_eq_getElem (show n < entries.length by omega)
    set entry := entries[n] with hdef
    have hmemEntry : entry ∈ entries := List.getElem_mem _
    obtain ⟨hro, hre⟩ := hgrid.rowSpan n entry hentry
    obtain ⟨hco, hce⟩ := hgrid.colSpan n entry hentry
    have hr := hgrid.tileRow n entry hentry
    have hc := hgrid.tileCol n entry hentry
    have hlinear : entry.tileRow * tileCols + entry.tileCol = n := by
      rw [hr, hc, Nat.mul_comm, Nat.div_add_mod]
    obtain ⟨rowAxis', hrow', hrowin⟩ := recordAxis_within hrow entry.tileRow
    obtain ⟨colAxis', hcol', hcolin⟩ := recordAxis_within hcol entry.tileCol
    -- the entry says what its row and its column of the grid say
    have h1 : entry.rowOffset.toNat = rowAxis.offsets entry.tileRow := by rw [hr]; omega
    have h2 : entry.rowExtent.toNat = rowAxis.extents entry.tileRow := by rw [hr]; omega
    have h3 : entry.colOffset.toNat = colAxis.offsets entry.tileCol := by rw [hc]; omega
    have h4 : entry.colExtent.toNat = colAxis.extents entry.tileCol := by rw [hc]; omega
    -- its group is the rank of its prefix, which is its position among the sorted prefixes
    have hgroup : entry.groupIndex = lowerBound selectedPrefixes entry.selectedPrefix := by
      rw [hrank]
      exact hgrid.group n entry hentry
    have hstep : recordTile entries.length tileCols selectedPrefixes s n entry =
        some ⟨rowAxis', colAxis', Function.update s.seen n true⟩ := by
      unfold recordTile
      rw [if_neg (by simp [hr, hc]), hlinear, h1, h2, h3, h4, hrow', hcol']
      dsimp only
      rw [if_neg (by simp [hseen]; omega), if_neg (by
        simp [getElem?_lowerBound hsorted (hmem entry hmemEntry), hgroup])]
    refine ⟨⟨rowAxis', colAxis', Function.update s.seen n true⟩, ?_, hrowin, hcolin, fun i => ?_⟩
    · rw [recordTiles, hs, hentry]
      exact hstep
    · dsimp only
      rcases eq_or_ne i n with rfl | hne
      · simp
      · rw [Function.update_of_ne hne, hseen]
        congr 1
        exact propext ⟨fun h => by omega, fun h => by omega⟩

end Loop

/-! ### The contract -/

/-- The checks of one entry. -/
theorem checkedTileEntry_iff (entry : HostTileEntry) (rows cols : ℤ) :
    checkedTileEntry entry rows cols = true ↔
      (entry.abiOk = true ∧ entry.flags &&& ~~~knownTileScheduleFlags = 0) ∧
      (0 ≤ entry.rowOffset ∧ 0 < entry.rowExtent ∧ entry.rowOffset + entry.rowExtent ≤ rows) ∧
      (0 ≤ entry.colOffset ∧ 0 < entry.colExtent ∧ entry.colOffset + entry.colExtent ≤ cols) ∧
      (entry.requiredPrefix ≠ 0 ∧ entry.requiredPrefix ≤ entry.selectedPrefix ∧
        entry.selectedPrefix ≤ maxSupportedPrefix) ∧
      entry.rowOffset ≤ intMax ∧ entry.colOffset ≤ intMax ∧ entry.rowExtent ≤ intMax ∧
        entry.colExtent ≤ intMax := by
  unfold checkedTileEntry
  split
  -- the first failing test refutes the conjunction
  · next hbad =>
    simp only [Bool.or_eq_true, decide_eq_true_eq, Bool.not_eq_true', ne_eq] at hbad
    refine iff_of_false Bool.false_ne_true ?_
    rintro ⟨⟨h1, h2⟩, h3, h4, h5, -⟩
    rw [h1, h2] at hbad
    simp only [Bool.true_eq_false, not_true, false_or] at hbad
    omega
  · next hgood =>
    simp only [Bool.or_eq_true, decide_eq_true_eq, not_or, Bool.not_eq_true', Bool.not_eq_false,
      ne_eq, not_not] at hgood
    obtain ⟨⟨⟨⟨⟨⟨⟨⟨⟨h1, h2⟩, h3⟩, h4⟩, h5⟩, h6⟩, h7⟩, h8⟩, h9⟩, h10⟩ := hgood
    split
    -- a rectangle that leaves the output
    · exact iff_of_false Bool.false_ne_true fun h => by omega
    · simp only [Bool.and_eq_true, decide_eq_true_eq, h1, h2, and_self, true_and]
      omega

theorem checkedTileEntry_spec {entry : HostTileEntry} {rows cols : ℤ}
    (h : checkedTileEntry entry rows cols = true) :
    (0 ≤ entry.rowOffset ∧ 0 < entry.rowExtent) ∧ (0 ≤ entry.colOffset ∧ 0 < entry.colExtent) ∧
      entry.selectedPrefix ≤ maxSupportedPrefix := by
  obtain ⟨-, h1, h2, h3, -⟩ := (checkedTileEntry_iff entry rows cols).1 h
  exact ⟨⟨h1.1, h1.2.1⟩, ⟨h2.1, h2.2.1⟩, h3.2.2⟩

/-- The collected prefixes in order, and the rank as a position among them. -/
theorem lowerBound_mergeSort {entries : List HostTileEntry} {ids : TileIds} (hids : ids.Nodup)
    (hmem : ∀ x, x ∈ ids.selectedPrefixes ↔ ∃ e ∈ entries, e.selectedPrefix = x) (value : ℕ) :
    lowerBound ids.selectedPrefixes.mergeSort value = selectedPrefixRank entries value := by
  have hperm : ids.selectedPrefixes.mergeSort.Perm (entries.map (·.selectedPrefix)).dedup :=
    (List.mergeSort_perm _ _).trans ((List.perm_ext_iff_of_nodup hids.selectedPrefixes
      (List.nodup_dedup _)).2 fun x => by rw [hmem, List.mem_dedup, List.mem_map])
  rw [lowerBound_eq_countP (pairwise_mergeSort _), selectedPrefixRank, groupIndexOf]
  exact hperm.countP_eq _

/-- The position after a row of the grid is a position of the grid. -/
private theorem row_start_lt {tileRows tileCols r : ℕ} (hr : r < tileRows) (hc : 0 < tileCols) :
    r * tileCols < tileRows * tileCols :=
  Nat.mul_lt_mul_of_pos_right hr hc

/-- **What the check accepts is a grid partition.** -/
theorem checkedTileScheduleContract_grid {entries : List HostTileEntry} {rows cols : ℤ}
    {schedule : CheckedTileSchedule}
    (h : checkedTileScheduleContract entries rows cols = some schedule) :
    0 < rows ∧ 0 < cols ∧ (∀ e ∈ entries, checkedTileEntry e rows cols = true) ∧
      ∃ tileRows tileCols, TileGrid entries rows.toNat cols.toNat tileRows tileCols
        schedule.rowAxis schedule.colAxis := by
  unfold checkedTileScheduleContract at h
  -- every check that fails returns `none`; the successful path is the innermost case
  split at h
  · cases h
  · next hsizes =>
    split at h
    · cases h
    · next ids hids =>
      obtain ⟨hchecked, hnodup, -, -, hsel⟩ := collectTiles_from entries hids ⟨by simp, by simp, by simp⟩
      dsimp only at h
      split at h
      · cases h
      · next hcounts =>
        split at h
        · cases h
        · split at h
          · cases h
          · next s hs =>
            split at h
            · cases h
            · next hfinal =>
              obtain rfl := Option.some.inj h
              simp only [Bool.or_eq_true, Bool.not_eq_true', not_or, Bool.not_eq_false] at hfinal
              obtain ⟨⟨-, hrowCut⟩, hcolCut⟩ := hfinal
              -- the two axes are cut by the coverage checks, and each entry agrees with its
              -- record
              have hspec := fun e he => checkedTileEntry_spec (hchecked e he)
              have hrec := recordTiles_some
                (fun e he => ⟨(hspec e he).1.2, (hspec e he).2.1.2⟩) hs
              have hentry : ∀ (index : ℕ) (entry : HostTileEntry), entries[index]? = some entry →
                  Recorded ids.colIds.mergeSort.length ids.selectedPrefixes.mergeSort s index
                    entry := fun index entry he =>
                hrec index (List.getElem?_eq_some_iff.1 he).1 entry he
              refine ⟨by omega, by omega, hchecked, _, _,
                (checkedTileAxisCoverage_iff _ _ _).1 hrowCut,
                (checkedTileAxisCoverage_iff _ _ _).1 hcolCut, by omega,
                fun index entry he => (hentry index entry he).tileRow,
                fun index entry he => (hentry index entry he).tileCol,
                fun index entry he => ?_, fun index entry he => ?_, fun index entry he => ?_⟩
              -- the rows of the entry
              · have hr := hentry index entry he
                obtain ⟨⟨h1, h2⟩, -⟩ := hspec entry (List.mem_of_getElem? he)
                rw [← hr.tileRow, hr.row.1, hr.row.2]
                omega
              -- its columns
              · have hr := hentry index entry he
                obtain ⟨-, ⟨h1, h2⟩, -⟩ := hspec entry (List.mem_of_getElem? he)
                rw [← hr.tileCol, hr.col.1, hr.col.2]
                omega
              -- its group, a position among the sorted prefixes
              · rw [(hentry index entry he).group]
                exact lowerBound_mergeSort hnodup (fun x => by rw [hsel]; simp) _

/-- **A grid partition of checked entries is accepted.** -/
theorem checkedTileScheduleContract_isSome {entries : List HostTileEntry} {rows cols : ℕ}
    {tileRows tileCols : ℕ} {rowAxis colAxis : TileAxis} (hrows : 0 < rows) (hcols : 0 < cols)
    (hchecked : ∀ e ∈ entries, checkedTileEntry e rows cols = true)
    (hgrid : TileGrid entries rows cols tileRows tileCols rowAxis colAxis)
    (hR : tileRows ≤ intMax) (hC : tileCols ≤ intMax) :
    (checkedTileScheduleContract entries rows cols).isSome = true := by
  have hRpos : 0 < tileRows := Nat.pos_of_ne_zero fun h0 => by
    have := hgrid.rowCut.total
    rw [h0, Finset.range_zero, Finset.sum_empty] at this
    omega
  have hCpos : 0 < tileCols := Nat.pos_of_ne_zero fun h0 => by
    have := hgrid.colCut.total
    rw [h0, Finset.range_zero, Finset.sum_empty] at this
    omega
  have htile : ∀ e ∈ entries, e.tileRow < tileRows ∧ e.tileCol < tileCols := by
    intro e he
    obtain ⟨index, hi⟩ := List.mem_iff_getElem?.1 he
    rw [hgrid.tileRow index e hi, hgrid.tileCol index e hi]
    exact RowMajor.div_mod_lt (hgrid.length ▸ (List.getElem?_eq_some_iff.1 hi).1)
  -- the first loop finds no more rows, columns or prefixes than the bounds allow
  obtain ⟨ids, hids⟩ : ∃ ids, collectTiles entries rows cols = some ids := by
    refine @collectTiles_isSome rows cols _ _ hR hC entries {} ⟨by simp, by simp, by simp⟩
      ⟨by simp, by simp, by simp⟩ fun e he =>
        ⟨hchecked e he, (htile e he).1, (htile e he).2, ?_⟩
    have := (checkedTileEntry_spec (hchecked e he)).2.2
    omega
  obtain ⟨-, hnodup, hrowIds, hcolIds, hsel⟩ :=
    collectTiles_from entries hids ⟨by simp, by simp, by simp⟩
  -- every row and every column of the grid has an entry
  have hrowSorted : ids.rowIds.mergeSort = List.range tileRows := by
    refine idsConsecutive_mergeSort_of_mem hnodup.rowIds fun x => ?_
    rw [hrowIds]
    constructor
    · rintro (h | ⟨e, he, rfl⟩)
      · simp at h
      · exact (htile e he).1
    · intro hx
      have hlt : x * tileCols < entries.length := hgrid.length ▸ row_start_lt hx hCpos
      refine Or.inr ⟨entries[x * tileCols], List.getElem_mem _, ?_⟩
      rw [hgrid.tileRow _ _ (List.getElem?_eq_getElem hlt), Nat.mul_div_cancel _ hCpos]
  have hcolSorted : ids.colIds.mergeSort = List.range tileCols := by
    refine idsConsecutive_mergeSort_of_mem hnodup.colIds fun x => ?_
    rw [hcolIds]
    constructor
    · rintro (h | ⟨e, he, rfl⟩)
      · simp at h
      · exact (htile e he).2
    · intro hx
      have hlt : x < entries.length := by
        rw [hgrid.length]
        exact hx.trans_le (Nat.le_mul_of_pos_left _ hRpos)
      refine Or.inr ⟨entries[x], List.getElem_mem _, ?_⟩
      rw [hgrid.tileCol _ _ (List.getElem?_eq_getElem hlt), Nat.mod_eq_of_lt hx]
  -- the second loop records every entry once
  obtain ⟨s, hs, hrowin, hcolin, hseen⟩ := recordTiles_isSome hgrid
    (pairwise_mergeSort ids.selectedPrefixes)
    (fun e he => List.mem_mergeSort.2 ((hsel _).2 (Or.inr ⟨e, he, rfl⟩)))
    (lowerBound_mergeSort hnodup fun x => by rw [hsel]; simp) (le_refl entries.length)
  have hrec := recordTiles_some (fun e he => by
    have := hgrid.rectangle he
    exact ⟨this.1.2.1, this.2.2.1⟩) hs
  -- each row of the grid is recorded by the first entry of its row
  have hrowAxis : ∀ r < tileRows, s.rowAxis.offsets r = rowAxis.offsets r ∧
      s.rowAxis.extents r = rowAxis.extents r := by
    intro r hr
    have hlt : r * tileCols < entries.length := hgrid.length ▸ row_start_lt hr hCpos
    have hentry := List.getElem?_eq_getElem hlt
    have h1 := hrec _ hlt _ hentry
    refine (hrowin r).resolve_left fun h0 => ?_
    have h2 := h1.row.2
    rw [h1.tileRow, Nat.mul_div_cancel _ hCpos, h0] at h2
    have := (hgrid.rectangle (List.getElem_mem hlt)).1.2.1
    omega
  -- and each column by its entry in the first row
  have hcolAxis : ∀ c < tileCols, s.colAxis.offsets c = colAxis.offsets c ∧
      s.colAxis.extents c = colAxis.extents c := by
    intro c hc
    have hlt : c < entries.length := by
      rw [hgrid.length]
      exact hc.trans_le (Nat.le_mul_of_pos_left _ hRpos)
    have hentry := List.getElem?_eq_getElem hlt
    have h1 := hrec _ hlt _ hentry
    refine (hcolin c).resolve_left fun h0 => ?_
    have h2 := h1.col.2
    rw [h1.tileCol, Nat.mod_eq_of_lt hc, h0] at h2
    have := (hgrid.rectangle (List.getElem_mem hlt)).2.2.1
    omega
  have hrowCut := (checkedTileAxisCoverage_iff s.rowAxis tileRows rows).2 (hgrid.rowCut.congr hrowAxis)
  have hcolCut := (checkedTileAxisCoverage_iff s.colAxis tileCols cols).2 (hgrid.colCut.congr hcolAxis)
  have hmax : tileRows ≤ sizeMax / tileCols := by
    rw [Nat.le_div_iff_mul_le hCpos]
    exact (Nat.mul_le_mul hR hC).trans (by decide)
  have hall : (List.range entries.length).all s.seen = true := by
    rw [List.all_eq_true]
    intro i hi
    rw [hseen]
    exact decide_eq_true (List.mem_range.1 hi)
  have hlen : 0 < entries.length := by
    rw [hgrid.length]
    exact Nat.mul_pos hRpos hCpos
  have hentries : tileRows * tileCols = entries.length := hgrid.length.symm
  -- with these facts every test of the function is passed
  unfold checkedTileScheduleContract
  rw [if_neg (by omega), hids]
  dsimp only
  rw [hrowSorted, hcolSorted, List.length_range, List.length_range, if_neg (by
    simp only [List.range_eq_nil, not_or]
    exact ⟨hRpos.ne', hCpos.ne', by omega, by omega⟩), idsConsecutive_range, idsConsecutive_range, hs]
  simp only [hall, Int.toNat_natCast, hrowCut, hcolCut, Bool.not_true, Bool.or_self,
    Bool.false_eq_true, if_false, Option.isSome_some]

end Rns8
