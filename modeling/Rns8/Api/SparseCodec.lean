import Rns8.Api.Sparse
import Rns8.Lib.RowMajor

/-!
# The sparse form of a matrix

What `rns8_pack_sparse_a_4_to_2_u8` and `rns8_expand_sparse_a_4_to_2_u8` do, group by group. A group
of four lanes is packed exactly when two of its lanes are nonzero (`packGroup_isSome_iff`), a stored
group is expanded exactly when its index byte is canonical and its values are nonzero
(`groupWellFormed_iff`), and the two are inverse to each other. The functions over whole matrices
inherit this from their groups.
-/

namespace Rns8

/-! ### One group -/

/-- The number of nonzero lanes of a group. -/
def nonzeroLanes (lane : ℕ → UInt8) : ℕ := (List.range 4).countP fun i => decide (lane i ≠ 0)

/-- **A group is packed exactly when two of its lanes are nonzero.** -/
theorem packGroup_isSome_iff (lane : ℕ → UInt8) :
    (packGroup lane).isSome = true ↔ nonzeroLanes lane = 2 := by
  unfold packGroup nonzeroLanes
  rw [List.countP_eq_length_filter]
  split
  · next i j h =>
    rw [h]
    exact iff_of_true rfl rfl
  · next hne =>
    constructor
    · intro h
      cases h
    · intro h
      obtain ⟨i, j, hij⟩ := List.length_eq_two.1 h
      exact absurd hij (hne i j)

/-- The index byte of the lanes `i` and `j`. -/
def laneIndex (i j : ℕ) : UInt8 := UInt8.ofNat i ||| (UInt8.ofNat j <<< 2)

/-- The two lanes that a packed group keeps. -/
theorem packGroup_lanes {lane : ℕ → UInt8} {v0 v1 index : UInt8}
    (h : packGroup lane = some (v0, v1, index)) : ∃ i j, i < j ∧ j < 4 ∧ v0 = lane i ∧ v1 = lane j ∧
      lane i ≠ 0 ∧ lane j ≠ 0 ∧ (∀ l < 4, l ≠ i → l ≠ j → lane l = 0) ∧ index = laneIndex i j := by
  unfold packGroup at h
  split at h
  · next i j hfilter =>
    obtain ⟨rfl, rfl, rfl⟩ : lane i = v0 ∧ lane j = v1 ∧ laneIndex i j = index := by
      simpa [laneIndex] using h
    have hsorted : [i, j].Pairwise (· < ·) := hfilter ▸ List.pairwise_lt_range.filter _
    have hmem : ∀ l, l ∈ [i, j] ↔ l < 4 ∧ lane l ≠ 0 := fun l => by
      rw [← hfilter, List.mem_filter, List.mem_range, decide_eq_true_eq]
    have hi := (hmem i).1 (by simp)
    have hj := (hmem j).1 (by simp)
    refine ⟨i, j, by simpa using hsorted, hj.1, rfl, rfl, hi.2, hj.2, fun l hl hni hnj => ?_, rfl⟩
    by_contra hne
    have := (hmem l).2 ⟨hl, hne⟩
    simp [hni, hnj] at this
  · cases h

/-- The lanes that a canonical index byte names. -/
theorem laneIndex_spec {i j : ℕ} (hij : i < j) (hj : j < 4) :
    (laneIndex i j &&& 3).toNat = i ∧ ((laneIndex i j >>> 2) &&& 3).toNat = j ∧
      laneIndex i j &&& 0xf0 = 0 := by
  have hi : i < 4 := hij.trans hj
  interval_cases j <;> interval_cases i <;> decide

private theorem filter_lanes {i j : ℕ} (hij : i < j) (hj : j < 4) :
    ((List.range 4).filter fun l => decide (l = i ∨ l = j)) = [i, j] := by
  have hi : i < 4 := hij.trans hj
  interval_cases j <;> interval_cases i <;> decide

/-- An index byte with a clear upper half is the one of its two lanes. -/
theorem laneIndex_of_canonical {index : UInt8} (h : index &&& 0xf0 = 0) :
    laneIndex (index &&& 3).toNat ((index >>> 2) &&& 3).toNat = index := by
  have key : ∀ b : Fin 256, UInt8.ofFin b &&& 0xf0 = 0 →
      laneIndex (UInt8.ofFin b &&& 3).toNat ((UInt8.ofFin b >>> 2) &&& 3).toNat = UInt8.ofFin b := by
    decide +kernel
  exact key index.toFin h

/-- What makes a stored group canonical: two different lanes in increasing order, both nonzero, and
no further bit in the index byte. -/
theorem groupWellFormed_iff {v0 v1 index : UInt8} : groupWellFormed v0 v1 index = true ↔
    (index &&& 3).toNat < ((index >>> 2) &&& 3).toNat ∧ v0 ≠ 0 ∧ v1 ≠ 0 ∧ index &&& 0xf0 = 0 := by
  simp only [groupWellFormed, Bool.and_eq_true, decide_eq_true_eq, and_assoc]

private theorem and_three_lt (b : UInt8) : (b &&& 3).toNat < 4 := by
  have : (b &&& 3).toNat ≤ 3 := by
    rw [UInt8.toNat_and]
    exact Nat.and_le_right
  omega

/-- **A packed group is canonical and expands to its lanes.** -/
theorem expandLane_packGroup {lane : ℕ → UInt8} {v0 v1 index : UInt8}
    (h : packGroup lane = some (v0, v1, index)) : groupWellFormed v0 v1 index = true ∧
      ∀ l < 4, expandLane v0 v1 index l = lane l := by
  obtain ⟨i, j, hij, hj, rfl, rfl, hi0, hj0, hzero, rfl⟩ := packGroup_lanes h
  obtain ⟨h0, h1, h2⟩ := laneIndex_spec hij hj
  refine ⟨groupWellFormed_iff.2 ⟨by rw [h0, h1]; exact hij, hi0, hj0, h2⟩, fun l hl => ?_⟩
  simp only [expandLane, h0, h1]
  by_cases hlj : l = j
  · rw [if_pos hlj, hlj]
  · by_cases hli : l = i
    · rw [if_neg hlj, if_pos hli, hli]
    · rw [if_neg hlj, if_neg hli, hzero l hl hli hlj]

/-- **A canonical group is packed again as it was stored.** -/
theorem packGroup_expandLane {v0 v1 index : UInt8} (h : groupWellFormed v0 v1 index = true)
    {lane : ℕ → UInt8} (hlane : ∀ l < 4, lane l = expandLane v0 v1 index l) :
    packGroup lane = some (v0, v1, index) := by
  obtain ⟨hlt, hv0, hv1, hhigh⟩ := groupWellFormed_iff.1 h
  have hindex := laneIndex_of_canonical hhigh
  have hj := and_three_lt (index >>> 2)
  simp only [expandLane] at hlane
  generalize (index &&& 3).toNat = i at hlt hindex hlane
  generalize ((index >>> 2) &&& 3).toNat = j at hlt hindex hlane hj
  have hnonzero : ∀ l < 4, lane l ≠ 0 ↔ l = i ∨ l = j := fun l hl => by
    rw [hlane l hl]
    by_cases hlj : l = j
    · simp [hlj, hv1]
    · by_cases hli : l = i
      · simp [hli, hv0, hlt.ne]
      · simp [hlj, hli]
  have hfilter : ((List.range 4).filter fun l => decide (lane l ≠ 0)) = [i, j] := by
    rw [List.filter_congr fun l hl => decide_eq_decide.2 (hnonzero l (List.mem_range.1 hl))]
    exact filter_lanes hlt hj
  have hlanei : lane i = v0 := by rw [hlane i (hlt.trans hj), if_neg hlt.ne, if_pos rfl]
  have hlanej : lane j = v1 := by rw [hlane j hj, if_pos rfl]
  unfold packGroup
  rw [hfilter]
  simp only [hlanei, hlanej]
  exact congrArg (fun b => some (v0, v1, b)) hindex

/-! ### Whole matrices -/

/-- The number of groups of all planes. -/
def SparseMatrixDesc.groups (desc : SparseMatrixDesc) (planes : ℕ) : ℕ :=
  planes * desc.rows * desc.groupsPerRow

/-- What the checks of a sparse descriptor give. -/
theorem sparseContractValid_spec {desc : SparseMatrixDesc} {planes : ℕ}
    (h : sparseContractValid desc = some planes) :
    sparseSemanticIdentityValid desc = some planes ∧ 0 < desc.rows ∧ 0 < desc.expandedK ∧
      desc.expandedK = desc.groupsPerRow * 4 := by
  unfold sparseContractValid at h
  split at h
  · cases h
  · next planeCount hident =>
    dsimp only at h
    split at h
    · cases h
    · next hbad =>
      split at h
      · cases h
      · simp only [Bool.or_eq_true, decide_eq_true_eq, not_or] at hbad
        obtain rfl := Option.some.inj h
        refine ⟨hident, by omega, by omega, ?_⟩
        unfold SparseMatrixDesc.groupsPerRow
        omega

/-- `rns8_expand_sparse_a_4_to_2_u8` into a caller's buffer with leading dimension `ld`: the logical
cells are written, the padding keeps what it held. -/
def expandSparseInto (desc : SparseMatrixDesc) (values indices : ℕ → UInt8) (ld : ℕ)
    (dense : ℕ → UInt8) : Except Status (ℕ → UInt8) :=
  if ld < desc.expandedK then .error .invalidArgument
  else match sparseContractValid desc with
    | none => .error .invalidArgument
    | some planes =>
      if (List.range (planes * desc.rows * desc.groupsPerRow)).all fun g =>
          groupWellFormed (values (g * 2)) (values (g * 2 + 1)) (indices g) then
        .ok fun o =>
          let row := o / ld
          let col := o % ld
          let g := row * desc.groupsPerRow + col / 4
          if row < planes * desc.rows ∧ col < desc.expandedK then
            expandLane (values (g * 2)) (values (g * 2 + 1)) (indices g) (col % 4)
          else dense o
      else .error .invalidArgument

/-- `rns8_expand_sparse_a_4_to_2_matrix_u8`. -/
def rns8ExpandSparseA4To2Matrix (matrix : SparseMatrix) (dense : ℕ → UInt8) (ld : ℕ) :
    Except Status (ℕ → UInt8) :=
  if !matrix.hostCurrent then .error .invalidArgument
  else expandSparseInto matrix.desc matrix.packedValues matrix.packedIndices ld dense

/-- Expanding without padding into a cleared buffer. -/
theorem expandSparseA4To2_eq (desc : SparseMatrixDesc) (values indices : ℕ → UInt8) :
    expandSparseA4To2 desc values indices =
      expandSparseInto desc values indices desc.expandedK fun _ => 0 := by
  unfold expandSparseA4To2 expandSparseInto
  rw [if_neg (lt_irrefl _)]
  cases hvalid : sparseContractValid desc with
  | none => rfl
  | some planes =>
    have hpos := (sparseContractValid_spec hvalid).2.2.1
    simp only [Nat.mod_lt _ hpos, and_true]

section Codec

variable {desc : SparseMatrixDesc} {planes ld : ℕ} (hvalid : sparseContractValid desc = some planes)
  (hld : desc.expandedK ≤ ld)
include hvalid hld

/-- **Packing accepts a source exactly when every group has two nonzero lanes.** -/
theorem packSparseA4To2_isOk_iff (dense : ℕ → UInt8) :
    (packSparseA4To2 desc dense ld).isOk = true ↔
      ∀ g < desc.groups planes, nonzeroLanes (groupLanes desc.groupsPerRow ld dense g) = 2 := by
  unfold packSparseA4To2
  rw [if_neg (not_lt.2 hld), hvalid]
  simp only [← packGroup_isSome_iff, SparseMatrixDesc.groups]
  split
  · next h => exact iff_of_true rfl fun g hg => List.all_eq_true.1 h g (List.mem_range.2 hg)
  · next h =>
    refine iff_of_false Bool.false_ne_true fun hall => h ?_
    exact List.all_eq_true.2 fun g hg => hall g (List.mem_range.1 hg)

/-- **Expanding accepts stored groups exactly when they are canonical.** -/
theorem expandSparseInto_isOk_iff (values indices dense : ℕ → UInt8) :
    (expandSparseInto desc values indices ld dense).isOk = true ↔ ∀ g < desc.groups planes,
      groupWellFormed (values (g * 2)) (values (g * 2 + 1)) (indices g) = true := by
  unfold expandSparseInto
  rw [if_neg (not_lt.2 hld), hvalid]
  simp only [SparseMatrixDesc.groups]
  split
  · next h => exact iff_of_true rfl fun g hg => List.all_eq_true.1 h g (List.mem_range.2 hg)
  · next h =>
    refine iff_of_false Bool.false_ne_true fun hall => h ?_
    exact List.all_eq_true.2 fun g hg => hall g (List.mem_range.1 hg)

omit hvalid hld in
/-- The lanes of the group that holds a logical cell. -/
theorem groupLanes_cell {row col : ℕ} (dense : ℕ → UInt8) (hK : desc.expandedK = desc.groupsPerRow * 4)
    (hcol : col < desc.expandedK) :
    groupLanes desc.groupsPerRow ld dense (row * desc.groupsPerRow + col / 4) (col % 4) =
      dense (row * ld + col) := by
  have hgroup : col / 4 < desc.groupsPerRow := by omega
  have hpos : 0 < desc.groupsPerRow := Nat.zero_lt_of_lt hgroup
  have hdiv : (row * desc.groupsPerRow + col / 4) / desc.groupsPerRow = row := by
    rw [Nat.mul_comm, Nat.mul_add_div hpos, Nat.div_eq_of_lt hgroup, Nat.add_zero]
  have hmod : (row * desc.groupsPerRow + col / 4) % desc.groupsPerRow = col / 4 := by
    rw [Nat.mul_comm, Nat.mul_add_mod, Nat.mod_eq_of_lt hgroup]
  rw [groupLanes, hdiv, hmod]
  congr 1
  omega

omit hld in
/-- The group of a logical cell is one of the groups. -/
theorem group_lt {row col : ℕ} (hrow : row < planes * desc.rows) (hcol : col < desc.expandedK) :
    row * desc.groupsPerRow + col / 4 < desc.groups planes := by
  obtain ⟨-, -, -, hK⟩ := sparseContractValid_spec hvalid
  have hgroup : col / 4 < desc.groupsPerRow := by omega
  exact RowMajor.offset_lt hgroup hrow

/-- What a successful packing stores. -/
theorem packSparseA4To2_ok {dense : ℕ → UInt8} {packed : (ℕ → UInt8) × (ℕ → UInt8)}
    (h : packSparseA4To2 desc dense ld = .ok packed) : ∀ g < desc.groups planes,
      packGroup (groupLanes desc.groupsPerRow ld dense g) =
        some (packed.1 (g * 2), packed.1 (g * 2 + 1), packed.2 g) := by
  intro g hg
  unfold packSparseA4To2 at h
  rw [if_neg (not_lt.2 hld), hvalid] at h
  dsimp only at h
  split at h
  · next hall =>
    have hsome := List.all_eq_true.1 hall g (List.mem_range.2 hg)
    obtain ⟨⟨v0, v1, index⟩, hgroup⟩ := Option.isSome_iff_exists.1 hsome
    obtain rfl := Except.ok.inj h
    have h2 : (g * 2 + 1) / 2 = g := by omega
    have h3 : (g * 2 + 1) % 2 = 1 := by omega
    simp [hgroup, h2, h3]
  · cases h

/-- What a successful expansion stores in the logical cells. -/
theorem expandSparseInto_ok {values indices dense expanded : ℕ → UInt8}
    (h : expandSparseInto desc values indices ld dense = .ok expanded) :
    (∀ g < desc.groups planes,
        groupWellFormed (values (g * 2)) (values (g * 2 + 1)) (indices g) = true) ∧
      (∀ row < planes * desc.rows, ∀ col < desc.expandedK, expanded (row * ld + col) =
        expandLane (values ((row * desc.groupsPerRow + col / 4) * 2))
          (values ((row * desc.groupsPerRow + col / 4) * 2 + 1))
          (indices (row * desc.groupsPerRow + col / 4)) (col % 4)) ∧
      ∀ o, ¬ (o / ld < planes * desc.rows ∧ o % ld < desc.expandedK) → expanded o = dense o := by
  have hall := (expandSparseInto_isOk_iff hvalid hld values indices dense).1 (by rw [h]; rfl)
  refine ⟨hall, ?_⟩
  unfold expandSparseInto at h
  rw [if_neg (not_lt.2 hld), hvalid] at h
  dsimp only at h
  split at h
  · obtain rfl := Except.ok.inj h
    refine ⟨fun row hrow col hcol => ?_, fun o ho => if_neg ho⟩
    have hpos : 0 < ld := (Nat.zero_lt_of_lt hcol).trans_le hld
    have hdiv : (row * ld + col) / ld = row := by
      rw [Nat.mul_comm, Nat.mul_add_div hpos, Nat.div_eq_of_lt (hcol.trans_le hld), Nat.add_zero]
    have hmod : (row * ld + col) % ld = col := by
      rw [Nat.mul_comm, Nat.mul_add_mod, Nat.mod_eq_of_lt (hcol.trans_le hld)]
    simp only [hdiv, hmod, hrow, hcol, and_self, if_true]
  · cases h

/-- **Expanding gives back what was packed**, with any leading dimension. -/
theorem expandSparse_pack {ld' : ℕ} (hld' : desc.expandedK ≤ ld') {dense : ℕ → UInt8}
    {packed : (ℕ → UInt8) × (ℕ → UInt8)} (h : packSparseA4To2 desc dense ld = .ok packed)
    (buffer : ℕ → UInt8) :
    ∃ expanded, expandSparseInto desc packed.1 packed.2 ld' buffer = .ok expanded ∧
      ∀ row < planes * desc.rows, ∀ col < desc.expandedK,
        expanded (row * ld' + col) = dense (row * ld + col) := by
  obtain ⟨-, -, -, hK⟩ := sparseContractValid_spec hvalid
  have hgroups := packSparseA4To2_ok hvalid hld h
  have hok := (expandSparseInto_isOk_iff hvalid hld' packed.1 packed.2 buffer).2 fun g hg =>
    (expandLane_packGroup (hgroups g hg)).1
  cases hexp : expandSparseInto desc packed.1 packed.2 ld' buffer with
  | error status =>
    rw [hexp] at hok
    cases hok
  | ok expanded =>
    obtain ⟨-, hcells, -⟩ := expandSparseInto_ok hvalid hld' hexp
    refine ⟨expanded, rfl, fun row hrow col hcol => ?_⟩
    have hgroup := hgroups _ (group_lt hvalid hrow hcol)
    rw [hcells row hrow col hcol, (expandLane_packGroup hgroup).2 _ (Nat.mod_lt _ (by decide)),
      groupLanes_cell dense hK hcol]

/-- **Packing gives back what was expanded.** -/
theorem packSparse_expand {values indices buffer expanded : ℕ → UInt8}
    (h : expandSparseInto desc values indices ld buffer = .ok expanded) :
    ∃ packed, packSparseA4To2 desc expanded ld = .ok packed ∧ ∀ g < desc.groups planes,
      packed.1 (g * 2) = values (g * 2) ∧ packed.1 (g * 2 + 1) = values (g * 2 + 1) ∧
        packed.2 g = indices g := by
  obtain ⟨-, -, -, hK⟩ := sparseContractValid_spec hvalid
  obtain ⟨hwell, hcells, -⟩ := expandSparseInto_ok hvalid hld h
  -- the lanes of a group, read back from the expansion, give its stored form
  have hgroup : ∀ g < desc.groups planes, packGroup (groupLanes desc.groupsPerRow ld expanded g) =
      some (values (g * 2), values (g * 2 + 1), indices g) := by
    intro g hg
    rw [SparseMatrixDesc.groups] at hg
    have hpos : 0 < desc.groupsPerRow := Nat.pos_of_ne_zero fun h0 => by
      rw [h0, Nat.mul_zero] at hg
      exact Nat.not_lt_zero _ hg
    have hrow : g / desc.groupsPerRow < planes * desc.rows := Nat.div_lt_of_lt_mul (by
      rwa [Nat.mul_comm] at hg)
    have hmod := Nat.mod_lt g hpos
    refine packGroup_expandLane (hwell g hg) fun l hl => ?_
    have hcell := hcells (g / desc.groupsPerRow) hrow (g % desc.groupsPerRow * 4 + l) (by omega)
    have hq : (g % desc.groupsPerRow * 4 + l) / 4 = g % desc.groupsPerRow := by omega
    have hr : (g % desc.groupsPerRow * 4 + l) % 4 = l := by omega
    have hindex : g / desc.groupsPerRow * desc.groupsPerRow + g % desc.groupsPerRow = g := by
      rw [Nat.mul_comm]
      exact Nat.div_add_mod _ _
    rw [hq, hr, hindex, ← Nat.add_assoc] at hcell
    exact hcell
  -- so every group has two nonzero lanes, and the pack succeeds
  have hok := (packSparseA4To2_isOk_iff hvalid hld expanded).2 fun g hg =>
    (packGroup_isSome_iff _).1 (by rw [hgroup g hg]; rfl)
  cases hpack : packSparseA4To2 desc expanded ld with
  | error status =>
    rw [hpack] at hok
    cases hok
  | ok packed =>
    refine ⟨packed, rfl, fun g hg => ?_⟩
    have heq := (packSparseA4To2_ok hvalid hld hpack g hg).symm.trans (hgroup g hg)
    simpa using heq

end Codec

end Rns8
