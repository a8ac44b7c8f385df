import Rns8.Hip.ExportCells
import Rns8.Plan.Created

/-!
# The device reconstruction refines the host reconstruction

Which reconstruction an export kernel runs depends on the prefix, the limb count and the shape; which
export also has a range status word depends on the limb count. `deviceReconstruction_refines` says
that none of this matters: every reconstruction holds the host's integer and product without leaving
192 bits, every cell routine writes the host's words or raises the range status exactly where the
host reports a range error, and without a status word no cell can fail.
-/

namespace Rns8

/-! ### The variants -/

/-- The reconstructions that a kernel may run for a prefix; the tree is instantiated for the prefixes
`18` and `20`. -/
def deviceReconstructions (p : ℕ) (residues : ℕ → Int8) (cell elements : ℕ) : List (U192 × U192) :=
  [reconstructCanonicalWide residues cell elements p,
    reconstructCanonicalWideFixedPrefix p residues cell elements] ++
  if p = 18 ∨ p = 20 then [reconstructCanonicalWideTreePairs p residues cell elements] else []

/-- The signed cell routines that read the residues of a cell themselves. -/
def exportI64CellRoutines (p : ℕ) (residues : ℕ → Int8) (cell elements : ℕ) (bound : UInt64) :
    List (ExportMemory Int64 → ExportMemory Int64) :=
  [exportI64CellDevice residues cell elements p bound,
    exportI64FixedPrefixCellDevice p residues cell elements bound,
    exportI64BoundedPrefixCellDevice residues cell elements p bound]

/-- The unsigned cell routines that read the residues of a cell themselves. -/
def exportU64CellRoutines (p : ℕ) (residues : ℕ → Int8) (cell elements : ℕ) (bound : UInt64) :
    List (ExportMemory UInt64 → ExportMemory UInt64) :=
  [exportU64CellDevice residues cell elements p bound,
    exportU64FixedPrefixCellDevice p residues cell elements bound,
    exportU64BoundedPrefixCellDevice residues cell elements p bound]

/-- `exact_wide_signed_export_requires_status`. -/
def exactWideSignedExportRequiresStatus (limbCount : ℕ) : Bool := decide (limbCount < 3)

/-- `exact_wide_unsigned_export_requires_status`. -/
def exactWideUnsignedExportRequiresStatus (limbCount : ℕ) : Bool := decide (limbCount < 3)

/-- A bound that some plan declares for a cell whose residues it reconstructs from `p` planes. -/
def AdmittedBound (semantics : Semantics) (p : ℕ) (bound : UInt64) : Prop :=
  ∃ ctx desc plan row col, rns8CreatePlan ctx desc = .ok plan ∧ plan.desc.semantics = semantics ∧
    row < plan.desc.m ∧ col < plan.desc.n ∧ selectedPrefixForCell plan row col = p ∧
    boundForCell plan row col = bound.toNat

/-! ### Every variant -/

section Variants

variable {residues : ℕ → Int8} {cell elements p : ℕ} {s : U192 × U192}

/-- Every reconstruction holds the host's integer and product. -/
theorem reconstructs_of_mem (hp : p ≤ maxSupportedPrefix)
    (hs : s ∈ deviceReconstructions p residues cell elements) :
    Reconstructs residues cell elements p s := by
  simp only [deviceReconstructions, List.mem_append, List.mem_cons, List.not_mem_nil, or_false] at hs
  rcases hs with (rfl | rfl) | hs
  · exact (reconstructCanonicalWide_spec residues cell elements hp).1
  · exact (reconstructCanonicalWide_spec residues cell elements hp).1
  · split at hs
    · next heven =>
      obtain rfl := List.mem_singleton.1 hs
      exact (reconstructCanonicalWideTreePairs_spec residues cell elements hp
        (by rcases heven with rfl | rfl <;> rfl)).1
    · cases hs

/-- A signed cell routine exports the value of one of the reconstructions. -/
theorem exportI64CellRoutines_value {bound : UInt64}
    {routine : ExportMemory Int64 → ExportMemory Int64}
    (h : routine ∈ exportI64CellRoutines p residues cell elements bound) :
    ∃ s ∈ deviceReconstructions p residues cell elements,
      routine = exportI64ValueDevice cell s.1 s.2 bound := by
  simp only [exportI64CellRoutines, List.mem_cons, List.not_mem_nil, or_false] at h
  rcases h with rfl | rfl | rfl
  · exact ⟨_, List.mem_cons_self, rfl⟩
  · exact ⟨_, List.mem_cons_of_mem _ List.mem_cons_self, rfl⟩
  · unfold exportI64BoundedPrefixCellDevice
    split
    · exact ⟨_, List.mem_cons_of_mem _ List.mem_cons_self, rfl⟩
    · exact ⟨_, List.mem_cons_self, rfl⟩

/-- An unsigned cell routine exports the value of one of the reconstructions. -/
theorem exportU64CellRoutines_value {bound : UInt64}
    {routine : ExportMemory UInt64 → ExportMemory UInt64}
    (h : routine ∈ exportU64CellRoutines p residues cell elements bound) :
    ∃ s ∈ deviceReconstructions p residues cell elements,
      routine = exportU64ValueDevice cell s.1 bound := by
  simp only [exportU64CellRoutines, List.mem_cons, List.not_mem_nil, or_false] at h
  rcases h with rfl | rfl | rfl
  · exact ⟨_, List.mem_cons_self, rfl⟩
  · exact ⟨_, List.mem_cons_of_mem _ List.mem_cons_self, rfl⟩
  · unfold exportU64BoundedPrefixCellDevice
    split
    · exact ⟨_, List.mem_cons_of_mem _ List.mem_cons_self, rfl⟩
    · exact ⟨_, List.mem_cons_self, rfl⟩

/-- A bound that a plan declares passes the host's contract. -/
theorem AdmittedBound.contract {semantics : Semantics} {bound : UInt64}
    (h : AdmittedBound semantics p bound) (hp : p ≤ maxSupportedPrefix) :
    (semantics = .boundedI64 →
      validateBoundContract .boundedI64 .globalMaxAbs bound.toNat p = .success) ∧
    (semantics = .boundedU64 →
      validateBoundContract .boundedU64 .globalMaxUnsigned bound.toNat p = .success) := by
  obtain ⟨ctx, desc, plan, row, col, hplan, hsem, hrow, hcol, rfl, hb⟩ := h
  have hcell := (rns8CreatePlan_created hplan).validateBoundContract_cell hp hrow hcol
  rw [hb, hsem] at hcell
  exact hcell

/-- The product of a supported prefix leaves room for a sign in three limbs. -/
theorem two_mul_modulusProduct_lt (hp : p ≤ maxSupportedPrefix) :
    2 * modulusProduct p < 2 ^ 192 :=
  (Nat.mul_le_mul_left 2 (modulusProduct_le hp (by decide))).trans_lt (by decide +kernel)

/-- Three limbs hold every unsigned value. -/
theorem exportExactWideUnsignedLimbs_ok (hp0 : 0 < p) (hp : p ≤ maxSupportedPrefix)
    (residues : ℕ → Int8) {limbCount : ℕ} (hl3 : 3 ≤ limbCount) (hl : limbCount ≤ 32) :
    ∃ words, exportExactWideUnsignedLimbs residues p limbCount = .ok words := by
  obtain ⟨-, hlo, hhi, -⟩ := reconstruct_foldl residues (p := p) (hp.trans (by decide))
  have hbig : (2 : ℕ) ^ 192 ≤ 2 ^ (64 * limbCount) := Nat.pow_le_pow_right (by norm_num) (by omega)
  have hprod := two_mul_modulusProduct_lt hp
  have hl0 : limbCount ≠ 0 := by omega
  have hpow : ((2 ^ (64 * limbCount) : ℕ) : ℤ) = 2 ^ (64 * limbCount) := by push_cast; rfl
  change 0 ≤ reconstructCanonical residues p at hlo
  change reconstructCanonical residues p < _ at hhi
  have hfit : ¬ (reconstructCanonical residues p < 0 ∨
      (2 : ℤ) ^ (64 * limbCount) ≤ reconstructCanonical residues p) := by
    rw [← hpow]
    omega
  refine ⟨wideLimb (reconstructCanonical residues p), ?_⟩
  simp only [exportExactWideUnsignedLimbs, hp0.ne', not_lt.2 hp, hl0,
    not_lt.2 hl, or_self, if_false, hfit]

/-- Three limbs hold every signed value. -/
theorem exportExactWideSignedLimbs_ok (hp0 : 0 < p) (hp : p ≤ maxSupportedPrefix)
    (residues : ℕ → Int8) {limbCount : ℕ} (hl3 : 3 ≤ limbCount) (hl : limbCount ≤ 32) :
    ∃ words, exportExactWideSignedLimbs residues p limbCount = .ok words := by
  obtain ⟨-, hlo, hhi, -⟩ := reconstruct_foldl residues (p := p) (hp.trans (by decide))
  have hbig : (2 : ℕ) ^ 191 ≤ 2 ^ (64 * limbCount - 1) :=
    Nat.pow_le_pow_right (by norm_num) (by omega)
  have hprod := two_mul_modulusProduct_lt hp
  have hl0 : limbCount ≠ 0 := by omega
  have hpow : ((2 ^ (64 * limbCount - 1) : ℕ) : ℤ) = 2 ^ (64 * limbCount - 1) := by push_cast; rfl
  change 0 ≤ reconstructCanonical residues p at hlo
  change reconstructCanonical residues p < _ at hhi
  have hfit : ¬ (centeredFromCanonical (reconstructCanonical residues p) (modulusProduct p) <
      -2 ^ (64 * limbCount - 1) ∨ 2 ^ (64 * limbCount - 1) - 1 <
      centeredFromCanonical (reconstructCanonical residues p) (modulusProduct p)) := by
    rw [← hpow, centeredFromCanonical]
    split <;> omega
  simp only [exportExactWideSignedLimbs, hp0.ne', not_lt.2 hp, hl0, not_lt.2 hl, or_self, if_false,
    hfit]
  exact ⟨_, rfl⟩

end Variants

/-! ### The result -/

/-- **Device reconstruction.** For every supported prefix and all residue bytes: every
reconstruction routine holds the host's integer and product, and no pass exceeds 192 bits; every
export cell routine, on any of them or from the residues, agrees with the host export of the cell, for
every bound that a plan admits and every limb count; and where the export runs without a range status
word, no cell fails. -/
theorem deviceReconstruction_refines (residues : ℕ → Int8) (cell elements : ℕ) {p : ℕ}
    (hp0 : 0 < p) (hp : p ≤ maxSupportedPrefix) :
    (∀ s ∈ deviceReconstructions p residues cell elements,
      Reconstructs residues cell elements p s) ∧
    (∀ i < p, PassFits (modulusDevice i) (residueTarget residues cell elements i)
      (reconstructCanonicalWide residues cell elements i)) ∧
    (p = 18 ∨ p = 20 → ∀ i < p / 2, PassFits (pairModulus i) (pairValue residues cell elements i)
      (reconstructCanonicalWideTreePairs (i * 2) residues cell elements)) ∧
    (∀ s ∈ deviceReconstructions p residues cell elements,
      (∀ bound mem, AdmittedBound .boundedI64 p bound →
        CellAgrees (reconstructSigned (deviceCellResidues residues cell elements) p bound.toNat)
          (mem.write cell) mem.raiseIfPresent (exportI64ValueDevice cell s.1 s.2 bound mem)) ∧
      (∀ bound mem, AdmittedBound .boundedU64 p bound →
        CellAgrees (reconstructUnsigned (deviceCellResidues residues cell elements) p bound.toNat)
          (mem.write cell) mem.raiseIfPresent (exportU64ValueDevice cell s.1 bound mem)) ∧
      (∀ limbCount mem, 1 ≤ limbCount → limbCount ≤ 32 →
        CellAgrees
            (exportExactWideSignedLimbs (deviceCellResidues residues cell elements) p limbCount)
            (fun words => some (mem.writeWords (cell * limbCount) limbCount words)) mem.raise
            (exportExactWideSignedLimbsDevice cell s.1 s.2 limbCount mem) ∧
          CellAgrees
            (exportExactWideUnsignedLimbs (deviceCellResidues residues cell elements) p limbCount)
            (fun words => some (mem.writeWords (cell * limbCount) limbCount words)) mem.raise
            (exportExactWideUnsignedLimbsDevice cell s.1 limbCount mem))) ∧
    (∀ bound, AdmittedBound .boundedI64 p bound →
      ∀ routine ∈ exportI64CellRoutines p residues cell elements bound, ∀ mem,
        CellAgrees (reconstructSigned (deviceCellResidues residues cell elements) p bound.toNat)
          (mem.write cell) mem.raiseIfPresent (routine mem)) ∧
    (∀ bound, AdmittedBound .boundedU64 p bound →
      ∀ routine ∈ exportU64CellRoutines p residues cell elements bound, ∀ mem,
        CellAgrees (reconstructUnsigned (deviceCellResidues residues cell elements) p bound.toNat)
          (mem.write cell) mem.raiseIfPresent (routine mem)) ∧
    (∀ limbCount, 1 ≤ limbCount → limbCount ≤ 32 →
      (exactWideSignedExportRequiresStatus limbCount = false → ∃ words,
        exportExactWideSignedLimbs (deviceCellResidues residues cell elements) p limbCount =
          .ok words) ∧
      (exactWideUnsignedExportRequiresStatus limbCount = false → ∃ words,
        exportExactWideUnsignedLimbs (deviceCellResidues residues cell elements) p limbCount =
          .ok words)) := by
  refine ⟨fun s hs => reconstructs_of_mem hp hs,
    (reconstructCanonicalWide_spec residues cell elements hp).2, fun heven =>
      (reconstructCanonicalWideTreePairs_spec residues cell elements hp
        (by rcases heven with rfl | rfl <;> rfl)).2, fun s hs => ?_,
    fun bound hb routine hroutine mem => ?_, fun bound hb routine hroutine mem => ?_,
    fun limbCount _ hl => ?_⟩
  -- any of the routines, under each value and limb routine
  · have hrec := reconstructs_of_mem hp hs
    refine ⟨fun bound mem hb => ?_, fun bound mem hb => ?_, fun limbCount mem hl0 hl => ⟨?_, ?_⟩⟩
    · exact exportI64ValueDevice_agrees hp0 hp hrec ((hb.contract hp).1 rfl) mem
    · exact exportU64ValueDevice_agrees hp0 hp hrec ((hb.contract hp).2 rfl) mem
    · exact exportExactWideSignedLimbsDevice_agrees hp0 hp hrec hl0 hl mem
    · exact exportExactWideUnsignedLimbsDevice_agrees hp0 hp hrec hl0 hl mem
  -- the cell routines are value routines after one of the reconstructions
  · obtain ⟨s, hs, rfl⟩ := exportI64CellRoutines_value hroutine
    exact exportI64ValueDevice_agrees hp0 hp (reconstructs_of_mem hp hs) ((hb.contract hp).1 rfl) mem
  · obtain ⟨s, hs, rfl⟩ := exportU64CellRoutines_value hroutine
    exact exportU64ValueDevice_agrees hp0 hp (reconstructs_of_mem hp hs) ((hb.contract hp).2 rfl) mem
  -- three limbs hold every value of 192 bits
  · simp only [exactWideSignedExportRequiresStatus, exactWideUnsignedExportRequiresStatus,
      decide_eq_false_iff_not, not_lt]
    exact ⟨fun h3 => exportExactWideSignedLimbs_ok hp0 hp _ h3 hl,
      fun h3 => exportExactWideUnsignedLimbs_ok hp0 hp _ h3 hl⟩

/-- A plan with a budget of eighteen moduli, all of them used. -/
def fixedPrefixDesc : GemmDesc :=
  { semantics := .boundedI64, boundKind := .globalMaxAbs, requestedBackend := .hipDirect,
    m := 1, n := 1, k := 1, bound := 100, maxPrefix := 18, flags := { forceFixedPrefix := true } }

/-- A destination that holds zeros, with a clear status word. -/
def clearedDestination : ExportMemory Int64 := ⟨fun _ => 0, some 0⟩

/-- The pairwise tree exports `-1` from its residues under the bound `100`. -/
theorem deviceReconstruction_minus_one :
    exportI64ValueDevice 0 (reconstructCanonicalWideTreePairs 18 (fun _ => -1) 0 1).1
      (reconstructCanonicalWideTreePairs 18 (fun _ => -1) 0 1).2 100 clearedDestination =
        clearedDestination.write 0 (-1) := by
  have hs : reconstructCanonicalWideTreePairs 18 (fun _ => -1) 0 1 ∈
      deviceReconstructions 18 (fun _ => -1) 0 1 := by
    simp only [deviceReconstructions, true_or, if_true, List.mem_append, List.mem_singleton, or_true]
  have hplan : ∃ plan ∈ (rns8CreatePlan { backend := .hipDirect } fixedPrefixDesc).toOption,
      plan.desc.semantics = .boundedI64 ∧ 0 < plan.desc.m ∧ 0 < plan.desc.n ∧
        selectedPrefixForCell plan 0 0 = 18 ∧ boundForCell plan 0 0 = 100 := by
    decide +kernel
  obtain ⟨plan, hmem, hsem, hm, hn, hprefix, hbound⟩ := hplan
  have hok : rns8CreatePlan { backend := .hipDirect } fixedPrefixDesc = .ok plan := by
    cases h : rns8CreatePlan { backend := .hipDirect } fixedPrefixDesc with
    | ok plan' => rw [h] at hmem; rw [Option.some.inj hmem]
    | error status => rw [h] at hmem; cases hmem
  have hagree := ((deviceReconstruction_refines (fun _ => -1) 0 1 (p := 18) (by decide)
    (by decide)).2.2.2.1 _ hs).1 100 clearedDestination
      ⟨_, _, plan, 0, 0, hok, hsem, hm, hn, hprefix, hbound⟩
  have hhost : reconstructSigned (deviceCellResidues (fun _ => -1) 0 1) 18 (100 : UInt64).toNat =
      .ok (-1) := by
    decide +kernel
  rw [hhost] at hagree
  exact hagree

end Rns8
