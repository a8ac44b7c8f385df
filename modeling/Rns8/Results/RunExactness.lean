import Rns8.Results.ExportAtomicity
import Rns8.Results.GarnerInverse
import Rns8.Results.WrittenPlanes

/-!
# What the exports of a run return

The runs of bounded calls carry the integer matrix that each handle stands for. An export at the end
of such a run reads residues of these integers only, so that it returns them: every integer within
the bound of its cell is exported exactly, and an export that succeeds has stored, in every cell, the
only integer within the bound that has the right residue modulo the cell's product.
-/

namespace Rns8

open CenteredResidue LabelledRun

/-! ### Cells -/

section Cells

variable {residues : ℕ → Int8} {p bound : ℕ} {v : ℤ}

/-- A signed cell that is exported is within its bound and has the residues of the cell. -/
theorem reconstructSigned_ok {out : Int64} (hp : p ≤ maxSupportedPrefix)
    (h : ∀ i < p, (residues i).toInt ≡ v [ZMOD modulusAt i])
    (hok : reconstructSigned residues p bound = .ok out) :
    out.toInt ≡ v [ZMOD modulusProduct p] ∧ |out.toInt| ≤ bound := by
  have hp27 : p ≤ 27 := hp.trans (by decide)
  have hpos : 0 < modulusProduct p := modulusProduct_pos (by omega)
  unfold reconstructSigned at hok
  split at hok
  · cases hok
  simp only at hok
  split at hok
  · cases hok
  rw [reconstructCanonical_eq hp27 h] at hok
  obtain ⟨-, -, hmod⟩ := centeredFromCanonical_spec
    (Int.emod_nonneg v (by exact_mod_cast hpos.ne')) (Int.emod_lt_of_pos v (by exact_mod_cast hpos))
  generalize centeredFromCanonical (v % modulusProduct p) (modulusProduct p) = w at hmod hok
  split at hok
  · cases hok
  next hfits =>
  simp only [Bool.or_eq_true, Bool.not_eq_true', decide_eq_true_eq, not_or, not_lt,
    Bool.not_eq_false, fitsInt64, Bool.and_eq_true] at hfits
  obtain ⟨⟨hlo, hhi⟩, hbound⟩ := hfits
  obtain rfl := Except.ok.inj hok
  rw [Int64.toInt_ofInt_of_le hlo (by omega)]
  exact ⟨hmod.trans (Int.mod_modEq v _), hbound⟩

/-- An unsigned cell that is exported is within its bound and has the residues of the cell. -/
theorem reconstructUnsigned_ok {out : UInt64} (hp : p ≤ maxSupportedPrefix)
    (h : ∀ i < p, (residues i).toInt ≡ v [ZMOD modulusAt i])
    (hok : reconstructUnsigned residues p bound = .ok out) :
    (out.toNat : ℤ) ≡ v [ZMOD modulusProduct p] ∧ (out.toNat : ℤ) ≤ bound := by
  have hp27 : p ≤ 27 := hp.trans (by decide)
  have hpos : 0 < modulusProduct p := modulusProduct_pos (by omega)
  unfold reconstructUnsigned at hok
  split at hok
  · cases hok
  simp only at hok
  split at hok
  · cases hok
  rw [reconstructCanonical_eq hp27 h] at hok
  have h0 := Int.emod_nonneg v (show (modulusProduct p : ℤ) ≠ 0 by exact_mod_cast hpos.ne')
  have hmod := Int.mod_modEq v (modulusProduct p)
  generalize v % (modulusProduct p : ℤ) = w at h0 hmod hok
  split at hok
  · cases hok
  next hfits =>
  simp only [Bool.or_eq_true, Bool.not_eq_true', decide_eq_true_eq, not_or, not_lt,
    Bool.not_eq_false, fitsUint64, Bool.and_eq_true] at hfits
  obtain ⟨⟨-, hhi⟩, hbound⟩ := hfits
  obtain rfl := Except.ok.inj hok
  have hw : ((UInt64.ofNat w.toNat).toNat : ℤ) = w := by
    rw [UInt64.toNat_ofNat_of_lt' (show w.toNat < UInt64.size by
      rw [UInt64.size]; omega)]
    omega
  rw [hw]
  exact ⟨hmod, hbound⟩

end Cells

/-! ### Exports -/

/-- What an export under the plan stored, next to the integers that the matrix stands for: zero where
the plan declares it, and elsewhere an integer within the cell's bound, with the right residue. -/
structure ExportsProduced (plan : Plan) (produced : Produced) (stored : ℕ → ℕ → ℤ) : Prop where
  zero : ∀ row < plan.desc.m, ∀ col < plan.desc.n, zeroOutputForCell plan row col = true →
    stored row col = 0
  congruent : ∀ row < plan.desc.m, ∀ col < plan.desc.n, zeroOutputForCell plan row col = false →
    stored row col ≡ produced.value row col
      [ZMOD modulusProduct (selectedPrefixForCell plan row col)]
  bounded : ∀ row < plan.desc.m, ∀ col < plan.desc.n, zeroOutputForCell plan row col = false →
    |stored row col| ≤ boundForCell plan row col

/-- The integers of the matrix are within the bounds that the plan declares for their cells, and in
the range of the destination. -/
def WithinBounds (plan : Plan) (produced : Produced) (inRange : ℤ → Prop) : Prop :=
  ∀ row < plan.desc.m, ∀ col < plan.desc.n,
    if zeroOutputForCell plan row col then produced.value row col = 0
    else |produced.value row col| ≤ boundForCell plan row col ∧ inRange (produced.value row col)

section Exports

variable {ctx : Context} {σ : BoundedState} {plan : MadePlan} {h : Handle} {C : RnsMatrix}

/-- The backend of a plan that an export on the CPU accepts. -/
theorem plan_backend_of_export {plan : Plan} (hcpu : ctx.backend = .cpuReference)
    {semantics : Semantics} {boundKind : BoundKind} {r : ℕ}
    (hvalid : validateExportMatrix ctx plan C semantics boundKind r = .success) :
    plan.backend = .cpuReference := by
  unfold validateExportMatrix at hvalid
  simp only at hvalid
  split at hvalid
  · cases hvalid
  split at hvalid
  · cases hvalid
  next haccept =>
  simp only [Bool.or_eq_true, Bool.not_eq_true', decide_eq_true_eq, not_or, Bool.not_eq_false,
    not_not] at haccept
  have hacc := haccept.1.1
  simp only [contextAcceptsBackend, hcpu, Bool.or_eq_true, beq_iff_eq, Bool.and_eq_true,
    reduceCtorEq, and_false, false_and, or_false] at hacc
  exact hacc.symm

/-- The residues that an accepted export reads in a cell, and the prefix it reads them with. -/
theorem export_cell_reads (hcpu : ctx.backend = .cpuReference) (hσ : σ.Inv) (hm : σ.store h = some C)
    {semantics : Semantics} (hrns : usesRnsStorage semantics = true) {boundKind : BoundKind}
    (hvalid : validateExportMatrix ctx plan C semantics boundKind plan.1.rnsPrefix = .success)
    (hwithin : ExportWithin plan (σ.produced h)) {row col : ℕ} (hrow : row < plan.1.desc.m)
    (hcol : col < plan.1.desc.n) (hzero : zeroOutputForCell plan row col = false) :
    selectedPrefixForCell plan row col ≤ maxSupportedPrefix ∧
      ∀ p < selectedPrefixForCell plan row col, (gatherCellResidues C row col p).toInt ≡
        (σ.produced h).value row col [ZMOD modulusAt p] := by
  obtain ⟨ctx', desc', hcreate⟩ := plan.2
  have hplan := rns8CreatePlan_created hcreate
  obtain ⟨hsem, hexp⟩ := validateExportMatrix_cpu (plan_backend_of_export hcpu hvalid) hrns hvalid
  have hrns' : usesRnsStorage plan.1.desc.semantics = true := by rw [hsem]; exact hrns
  obtain ⟨-, hle, hmax, -⟩ := planScheduleContractMatches_ladder hexp.contract hrns'
  have hsel := hplan.selected_le hrns' hrow hcol
  have h20 : maxSupportedPrefix = 20 := rfl
  refine ⟨by omega, fun p hp => ?_⟩
  have hread := export_reads_current hσ hm hexp.rows hexp.cols hwithin hrow hcol hzero hp
  have hp28 : p < 28 := by omega
  rw [gatherCellResidues, hread]
  exact centeredResidue_modEq _ (modulusAt_pos hp28) (modulusAt_bounds hp28).2

/-- A cell of `rns8_export_i64` in a run. -/
theorem exportCellI64_run (hcpu : ctx.backend = .cpuReference) (hσ : σ.Inv)
    (hm : σ.store h = some C)
    (hvalid : validateExportMatrix ctx plan C .boundedI64 plan.1.desc.boundKind plan.1.rnsPrefix =
      .success) (hwithin : ExportWithin plan (σ.produced h)) {row col : ℕ}
    (hrow : row < plan.1.desc.m) (hcol : col < plan.1.desc.n)
    (hzero : zeroOutputForCell plan row col = false) :
    (∀ out, exportCellI64 plan C row col = .ok out →
      out.toInt ≡ (σ.produced h).value row col
        [ZMOD modulusProduct (selectedPrefixForCell plan row col)] ∧
        |out.toInt| ≤ boundForCell plan row col) ∧
      (|(σ.produced h).value row col| ≤ boundForCell plan row col →
        (σ.produced h).value row col < 2 ^ 63 →
        exportCellI64 plan C row col = .ok (Int64.ofInt ((σ.produced h).value row col))) := by
  obtain ⟨ctx', desc', hcreate⟩ := plan.2
  have hplan := rns8CreatePlan_created hcreate
  obtain ⟨hsem, -⟩ := validateExportMatrix_cpu (plan_backend_of_export hcpu hvalid) rfl hvalid
  obtain ⟨hmax, hres⟩ := export_cell_reads hcpu hσ hm rfl hvalid hwithin hrow hcol hzero
  obtain ⟨h0, -, hb, hfit⟩ := hplan.carries (Or.inl hsem) (hmax.trans (by decide)) hrow hcol
  rw [hsem, boundedRangeFromBound, if_pos rfl] at hfit
  have hcell : exportCellI64 plan C row col = reconstructSigned (gatherCellResidues C row col)
      (selectedPrefixForCell plan row col) (boundForCell plan row col) := by
    rw [exportCellI64, hzero, if_neg Bool.false_ne_true]
  rw [hcell]
  refine ⟨fun out hok => reconstructSigned_ok hmax hres hok, fun hv hlt => ?_⟩
  rw [reconstructSigned_eq h0 hmax (hb hsem) hfit hres hv, if_pos hlt]

/-- A cell of `rns8_export_u64` in a run. -/
theorem exportCellU64_run (hcpu : ctx.backend = .cpuReference) (hσ : σ.Inv)
    (hm : σ.store h = some C)
    (hvalid : validateExportMatrix ctx plan C .boundedU64 plan.1.desc.boundKind plan.1.rnsPrefix =
      .success) (hwithin : ExportWithin plan (σ.produced h)) {row col : ℕ}
    (hrow : row < plan.1.desc.m) (hcol : col < plan.1.desc.n)
    (hzero : zeroOutputForCell plan row col = false) :
    (∀ out, exportCellU64 plan C row col = .ok out →
      (out.toNat : ℤ) ≡ (σ.produced h).value row col
        [ZMOD modulusProduct (selectedPrefixForCell plan row col)] ∧
        (out.toNat : ℤ) ≤ boundForCell plan row col) ∧
      (0 ≤ (σ.produced h).value row col →
        (σ.produced h).value row col ≤ boundForCell plan row col →
        (σ.produced h).value row col < 2 ^ 64 →
        exportCellU64 plan C row col =
          .ok (UInt64.ofNat ((σ.produced h).value row col).toNat)) := by
  obtain ⟨ctx', desc', hcreate⟩ := plan.2
  have hplan := rns8CreatePlan_created hcreate
  obtain ⟨hsem, -⟩ := validateExportMatrix_cpu (plan_backend_of_export hcpu hvalid) rfl hvalid
  obtain ⟨hmax, hres⟩ := export_cell_reads hcpu hσ hm rfl hvalid hwithin hrow hcol hzero
  obtain ⟨h0, -, -, hfit⟩ := hplan.carries (Or.inr hsem) (hmax.trans (by decide)) hrow hcol
  rw [hsem, boundedRangeFromBound, if_neg (by decide)] at hfit
  have hcell : exportCellU64 plan C row col = reconstructUnsigned (gatherCellResidues C row col)
      (selectedPrefixForCell plan row col) (boundForCell plan row col) := by
    rw [exportCellU64, hzero, if_neg Bool.false_ne_true]
  rw [hcell]
  exact ⟨fun out hok => reconstructUnsigned_ok hmax hres hok, fun hv0 hv hlt =>
    reconstructUnsigned_of_fits h0 hmax hfit hres hv0 hv hlt⟩

/-- The cells that an atomic export stored. -/
theorem Atomic.read {α : Type} {call : (ℕ → α) → Status × (ℕ → α)} {m n ld : ℕ}
    {cell : ℕ → ℕ → Except Status α} (hatomic : Atomic call m n ld 1 cell fun value _ => value)
    {dst : ℕ → α} (hok : (call dst).1 = .success) {row col : ℕ} (hrow : row < m) (hcol : col < n) :
    cell row col = .ok ((call dst).2 (row * ld + col)) := by
  obtain ⟨value, hvalue, hstored⟩ := hatomic.written dst hok row hrow col hcol
  have h0 := hstored 0 Nat.one_pos
  rw [Nat.mul_one, Nat.add_zero] at h0
  rw [h0, hvalue]

/-- A residue export that is accepted and staged succeeds when all of its cells do. -/
theorem exportResidues_success {α : Type} [Inhabited α] {env : ExportEnv α} {plan : Plan}
    {semantics : Semantics} {boundKind : BoundKind} {cell : ℕ → ℕ → Except Status α}
    {store : (ℕ → ℕ → α) → (ℕ → α) → ℕ → α} (dst : ℕ → α)
    (hvalid : validateExportMatrix ctx plan C semantics boundKind plan.rnsPrefix = .success)
    (hhost : hipDeviceBackend plan.backend = false) (hstaged : env.staged = true)
    (hcell : ∀ row < plan.desc.m, ∀ col < plan.desc.n, ∃ value, cell row col = .ok value) :
    (exportResidues env ctx plan C semantics boundKind cell store dst).1 = .success := by
  have hok : ∀ row < plan.desc.m, ∀ col < plan.desc.n,
      cell row col = .ok ((cell row col).toOption.getD default) := by
    intro row hrow col hcol
    obtain ⟨value, hvalue⟩ := hcell row hrow col hcol
    rw [hvalue]
    rfl
  obtain ⟨out, hout, -⟩ := stageCells_of_ok hok
  simp [exportResidues, hvalid, hhost, hstaged, hout, exportInto]

/-- A cell that the plan declares zero is exported as zero. -/
theorem exportCell_zero {plan : Plan} {row col : ℕ} (h : zeroOutputForCell plan row col = true) :
    exportCellI64 plan C row col = .ok 0 ∧ exportCellU64 plan C row col = .ok 0 := by
  rw [exportCellI64, exportCellU64, h]
  exact ⟨rfl, rfl⟩

/-- An export that succeeds was accepted. -/
theorem exportResidues_accepted {α : Type} [Inhabited α] {env : ExportEnv α} {plan : Plan}
    {semantics : Semantics} {boundKind : BoundKind} {cell : ℕ → ℕ → Except Status α}
    {store : (ℕ → ℕ → α) → (ℕ → α) → ℕ → α} {dst : ℕ → α}
    (hok : (exportResidues env ctx plan C semantics boundKind cell store dst).1 = .success) :
    validateExportMatrix ctx plan C semantics boundKind plan.rnsPrefix = .success := by
  by_contra hvalid
  rw [exportResidues, if_pos hvalid] at hok
  exact hvalid hok

theorem hostBackend_of_export {plan : Plan} (hcpu : ctx.backend = .cpuReference)
    {semantics : Semantics} {boundKind : BoundKind} {r : ℕ}
    (hvalid : validateExportMatrix ctx plan C semantics boundKind r = .success) :
    hipDeviceBackend plan.backend = false := by
  rw [plan_backend_of_export hcpu hvalid]
  rfl

/-- `rns8_export_i64` at a state of a run. -/
theorem rns8ExportI64_run (hcpu : ctx.backend = .cpuReference) (hσ : σ.Inv) (hm : σ.store h = some C)
    {env : ExportEnv Int64} {dst : ℕ → Int64} {ld : ℕ}
    (hwithin : (BoundedOp.exportI64 env plan h dst ld).WithinWritten ctx σ) :
    ((rns8ExportI64 env ctx plan C dst ld).1 = .success →
      ExportsProduced plan (σ.produced h) fun row col =>
        ((rns8ExportI64 env ctx plan C dst ld).2 (row * ld + col)).toInt) ∧
    (validMatrixAccess plan.1.desc.m plan.1.desc.n ld = true →
      validateExportMatrix ctx plan C .boundedI64 plan.1.desc.boundKind plan.1.rnsPrefix = .success →
      env.staged = true → WithinBounds plan (σ.produced h) (fun v => v < 2 ^ 63) →
      (rns8ExportI64 env ctx plan C dst ld).1 = .success ∧
        ∀ row < plan.1.desc.m, ∀ col < plan.1.desc.n,
          ((rns8ExportI64 env ctx plan C dst ld).2 (row * ld + col)).toInt =
            (σ.produced h).value row col) := by
  constructor
  -- a success: the call was accepted, so the cells are those that the run produced
  · intro hok
    have hvalid : validateExportMatrix ctx plan C .boundedI64 plan.1.desc.boundKind
        plan.1.rnsPrefix = .success := by
      unfold rns8ExportI64 at hok
      split at hok
      · cases hok
      · exact exportResidues_accepted hok
    have hatomic := exportI64_atomic ctx C ld (hostBackend_of_export hcpu hvalid) env
    refine ⟨fun row hrow col hcol hz => ?_, fun row hrow col hcol hz => ?_,
      fun row hrow col hcol hz => ?_⟩
    · have hzero := (exportCell_zero (C := C) hz).1
      rw [← Except.ok.inj (hzero.symm.trans (hatomic.read hok hrow hcol))]
      rfl
    · exact ((exportCellI64_run hcpu hσ hm hvalid (hwithin C hm hvalid) hrow hcol hz).1 _
        (hatomic.read hok hrow hcol)).1
    · exact ((exportCellI64_run hcpu hσ hm hvalid (hwithin C hm hvalid) hrow hcol hz).1 _
        (hatomic.read hok hrow hcol)).2
  · intro haccess hvalid hstaged hbounds
    have hhost := hostBackend_of_export hcpu hvalid
    -- an accepted export within the bounds: every cell reconstructs to the produced integer
    have hcell : ∀ row < plan.1.desc.m, ∀ col < plan.1.desc.n,
        exportCellI64 plan C row col = .ok (Int64.ofInt ((σ.produced h).value row col)) ∧
          (Int64.ofInt ((σ.produced h).value row col)).toInt = (σ.produced h).value row col := by
      intro row hrow col hcol
      have hv := hbounds row hrow col hcol
      cases hz : zeroOutputForCell plan.1 row col with
      | true =>
        rw [hz, if_pos rfl] at hv
        rw [hv]
        exact ⟨(exportCell_zero hz).1, rfl⟩
      | false =>
        rw [hz, if_neg Bool.false_ne_true] at hv
        obtain ⟨ctx', desc', hcreate⟩ := plan.2
        have hplan := rns8CreatePlan_created hcreate
        obtain ⟨hsem, -⟩ := validateExportMatrix_cpu (plan_backend_of_export hcpu hvalid) rfl hvalid
        obtain ⟨hmax, -⟩ := export_cell_reads hcpu hσ hm rfl hvalid (hwithin C hm hvalid) hrow hcol hz
        obtain ⟨-, -, hb, -⟩ := hplan.carries (Or.inl hsem) (hmax.trans (by decide)) hrow hcol
        have hb63 : (boundForCell plan.1 row col : ℤ) ≤ 2 ^ 63 := by exact_mod_cast hb hsem
        have habs := abs_le.1 hv.1
        refine ⟨(exportCellI64_run hcpu hσ hm hvalid (hwithin C hm hvalid) hrow hcol hz).2 hv.1 hv.2,
          Int64.toInt_ofInt_of_le (by omega) hv.2⟩
    have hok : (rns8ExportI64 env ctx plan C dst ld).1 = .success := by
      rw [rns8ExportI64, haccess]
      exact exportResidues_success dst hvalid hhost hstaged
        fun row hrow col hcol => ⟨_, (hcell row hrow col hcol).1⟩
    refine ⟨hok, fun row hrow col hcol => ?_⟩
    have hread := (exportI64_atomic ctx C ld hhost env).read hok hrow hcol
    obtain ⟨hexact, hval⟩ := hcell row hrow col hcol
    rw [← Except.ok.inj (hexact.symm.trans hread), hval]

/-- `rns8_export_u64` at a state of a run. -/
theorem rns8ExportU64_run (hcpu : ctx.backend = .cpuReference) (hσ : σ.Inv) (hm : σ.store h = some C)
    {env : ExportEnv UInt64} {dst : ℕ → UInt64} {ld : ℕ}
    (hwithin : (BoundedOp.exportU64 env plan h dst ld).WithinWritten ctx σ) :
    ((rns8ExportU64 env ctx plan C dst ld).1 = .success →
      ExportsProduced plan (σ.produced h) fun row col =>
        (((rns8ExportU64 env ctx plan C dst ld).2 (row * ld + col)).toNat : ℤ)) ∧
    (validMatrixAccess plan.1.desc.m plan.1.desc.n ld = true →
      validateExportMatrix ctx plan C .boundedU64 plan.1.desc.boundKind plan.1.rnsPrefix = .success →
      env.staged = true → WithinBounds plan (σ.produced h) (fun v => 0 ≤ v ∧ v < 2 ^ 64) →
      (rns8ExportU64 env ctx plan C dst ld).1 = .success ∧
        ∀ row < plan.1.desc.m, ∀ col < plan.1.desc.n,
          (((rns8ExportU64 env ctx plan C dst ld).2 (row * ld + col)).toNat : ℤ) =
            (σ.produced h).value row col) := by
  constructor
  -- a success: the call was accepted, so the cells are those that the run produced
  · intro hok
    have hvalid : validateExportMatrix ctx plan C .boundedU64 plan.1.desc.boundKind
        plan.1.rnsPrefix = .success := by
      unfold rns8ExportU64 at hok
      split at hok
      · cases hok
      · exact exportResidues_accepted hok
    have hatomic := exportU64_atomic ctx C ld (hostBackend_of_export hcpu hvalid) env
    refine ⟨fun row hrow col hcol hz => ?_, fun row hrow col hcol hz => ?_,
      fun row hrow col hcol hz => ?_⟩
    · have hzero := (exportCell_zero (C := C) hz).2
      rw [← Except.ok.inj (hzero.symm.trans (hatomic.read hok hrow hcol))]
      rfl
    · exact ((exportCellU64_run hcpu hσ hm hvalid (hwithin C hm hvalid) hrow hcol hz).1 _
        (hatomic.read hok hrow hcol)).1
    · rw [abs_of_nonneg (Int.natCast_nonneg _)]
      exact ((exportCellU64_run hcpu hσ hm hvalid (hwithin C hm hvalid) hrow hcol hz).1 _
        (hatomic.read hok hrow hcol)).2
  · intro haccess hvalid hstaged hbounds
    have hhost := hostBackend_of_export hcpu hvalid
    -- an accepted export within the bounds: every cell reconstructs to the produced integer
    have hcell : ∀ row < plan.1.desc.m, ∀ col < plan.1.desc.n,
        exportCellU64 plan C row col = .ok (UInt64.ofNat ((σ.produced h).value row col).toNat) ∧
          ((UInt64.ofNat ((σ.produced h).value row col).toNat).toNat : ℤ) =
            (σ.produced h).value row col := by
      intro row hrow col hcol
      have hv := hbounds row hrow col hcol
      cases hz : zeroOutputForCell plan.1 row col with
      | true =>
        rw [hz, if_pos rfl] at hv
        rw [hv]
        exact ⟨(exportCell_zero hz).2, rfl⟩
      | false =>
        rw [hz, if_neg Bool.false_ne_true] at hv
        obtain ⟨habs, h0, hlt⟩ := hv
        rw [abs_of_nonneg h0] at habs
        have hword : ((UInt64.ofNat ((σ.produced h).value row col).toNat).toNat : ℤ) =
            (σ.produced h).value row col := by
          rw [UInt64.toNat_ofNat_of_lt' (show ((σ.produced h).value row col).toNat < UInt64.size by
            rw [UInt64.size]; omega)]
          omega
        exact ⟨(exportCellU64_run hcpu hσ hm hvalid (hwithin C hm hvalid) hrow hcol hz).2 h0 habs hlt,
          hword⟩
    have hok : (rns8ExportU64 env ctx plan C dst ld).1 = .success := by
      rw [rns8ExportU64, haccess]
      exact exportResidues_success dst hvalid hhost hstaged
        fun row hrow col hcol => ⟨_, (hcell row hrow col hcol).1⟩
    refine ⟨hok, fun row hrow col hcol => ?_⟩
    have hread := (exportU64_atomic ctx C ld hhost env).read hok hrow hcol
    obtain ⟨hexact, hval⟩ := hcell row hrow col hcol
    rw [← Except.ok.inj (hexact.symm.trans hread), hval]

end Exports

/-- **The exports of a run return its integers.** In every run of bounded calls on the CPU whose steps
stay within the planes that the producers wrote, an export that succeeds has stored zero where the plan
declares it, and elsewhere an integer within the bound of the cell with the residue of the integer that
the matrix stands for; and an export that is accepted, of integers within the bounds of their cells,
succeeds and stores these integers. -/
theorem boundedRun_exports {ctx : Context} (hcpu : ctx.backend = .cpuReference)
    (pre post : List BoundedOp) (plan : MadePlan) (h : Handle) (ld : ℕ) (C : RnsMatrix)
    (hm : (exec (boundedStep ctx) BoundedState.empty pre).store h = some C) :
    (∀ env dst, Meets (boundedStep ctx) (fun σ op => op.WithinWritten ctx σ) BoundedState.empty
        (pre ++ .exportI64 env plan h dst ld :: post) →
      let produced := (exec (boundedStep ctx) BoundedState.empty pre).produced h
      let result := rns8ExportI64 env ctx plan C dst ld
      (result.1 = .success →
        ExportsProduced plan produced fun row col => (result.2 (row * ld + col)).toInt) ∧
      (validMatrixAccess plan.1.desc.m plan.1.desc.n ld = true →
        validateExportMatrix ctx plan C .boundedI64 plan.1.desc.boundKind plan.1.rnsPrefix =
          .success → env.staged = true → WithinBounds plan produced (fun v => v < 2 ^ 63) →
        result.1 = .success ∧ ∀ row < plan.1.desc.m, ∀ col < plan.1.desc.n,
          (result.2 (row * ld + col)).toInt = produced.value row col)) ∧
    (∀ env dst, Meets (boundedStep ctx) (fun σ op => op.WithinWritten ctx σ) BoundedState.empty
        (pre ++ .exportU64 env plan h dst ld :: post) →
      let produced := (exec (boundedStep ctx) BoundedState.empty pre).produced h
      let result := rns8ExportU64 env ctx plan C dst ld
      (result.1 = .success →
        ExportsProduced plan produced fun row col => ((result.2 (row * ld + col)).toNat : ℤ)) ∧
      (validMatrixAccess plan.1.desc.m plan.1.desc.n ld = true →
        validateExportMatrix ctx plan C .boundedU64 plan.1.desc.boundKind plan.1.rnsPrefix =
          .success → env.staged = true → WithinBounds plan produced (fun v => 0 ≤ v ∧ v < 2 ^ 64) →
        result.1 = .success ∧ ∀ row < plan.1.desc.m, ∀ col < plan.1.desc.n,
          ((result.2 (row * ld + col)).toNat : ℤ) = produced.value row col)) := by
  have hinv : Meets (boundedStep ctx) (fun σ op => op.WithinWritten ctx σ) BoundedState.empty pre →
      (exec (boundedStep ctx) BoundedState.empty pre).Inv := fun hpre =>
    hpre.invariant (fun σ op hσ hw => boundedStep_inv hcpu hσ op hw) BoundedState.inv_empty
  constructor
  · intro env dst hrun
    obtain ⟨hpre, hwithin, -⟩ := (meets_append _ _ _).1 hrun
    exact rns8ExportI64_run hcpu (hinv hpre) hm hwithin
  · intro env dst hrun
    obtain ⟨hpre, hwithin, -⟩ := (meets_append _ _ _).1 hrun
    exact rns8ExportU64_run hcpu (hinv hpre) hm hwithin

/-- The product `5 * 7`, exported under the plan that computed it. -/
theorem boundedRun_exports_scalar :
    ∃ plan ∈ makePlan (scalarDesc 35), ∃ workspace ∈ (rns8CreateWorkspace .cpu plan).toOption,
      ∃ C, (exec (boundedStep .cpu) BoundedState.empty (scalarRun plan workspace)).store 2 = some C ∧
        ((rns8ExportI64 ⟨true, (.success, fun _ => 0), serialRows⟩ .cpu plan C (fun _ => 0) 1).2
          0).toInt = 35 := by
  have hrun : ∃ plan ∈ makePlan (scalarDesc 35),
      ∃ workspace ∈ (rns8CreateWorkspace .cpu plan).toOption,
        let σ := exec (boundedStep .cpu) BoundedState.empty ((scalarRun plan workspace).take 5)
        let σ' := exec (boundedStep .cpu) BoundedState.empty (scalarRun plan workspace)
        (∀ row < plan.1.desc.m, ∀ col < plan.1.desc.n, zeroOutputForCell plan row col = false ∧
          ∀ kk < plan.1.desc.k, selectedPrefixForCell plan row col ≤ (σ.produced 0).written row kk ∧
            selectedPrefixForCell plan row col ≤ (σ.produced 1).written kk col) ∧
        ExportWithin plan (σ'.produced 2) ∧ (σ'.produced 2).value 0 0 = 35 ∧
        plan.1.desc.m = 1 ∧ plan.1.desc.n = 1 ∧ zeroOutputForCell plan 0 0 = false ∧
        boundForCell plan 0 0 = 35 ∧
        (σ'.store 2).any (fun C => decide (validateExportMatrix .cpu plan C .boundedI64
          plan.1.desc.boundKind plan.1.rnsPrefix = .success)) = true := by
    decide +kernel
  obtain ⟨plan, hplan, workspace, hworkspace, hgemm, hexport, hvalue, hm, hn, hzero, hbound, hany⟩ :=
    hrun
  obtain ⟨C, hC, hvalid⟩ := (Option.any_eq_true _ _).1 hany
  refine ⟨plan, hplan, workspace, hworkspace, C, hC, ?_⟩
  have hexact := ((@boundedRun_exports .cpu rfl (scalarRun plan workspace) [] plan 2 1 C hC).1
    ⟨true, (.success, fun _ => 0), serialRows⟩ (fun _ => 0) ?_).2 (by rw [hm, hn]; decide)
    (of_decide_eq_true hvalid) rfl ?_
  · rw [← hvalue]
    exact hexact.2 0 (by rw [hm]; decide) 0 (by rw [hn]; decide)
  · refine ⟨trivial, trivial, trivial, trivial, trivial, fun A B C range _ => ?_, fun C _ _ => hexport,
      trivial⟩
    refine ⟨fun row hrow col hcol _ => (hgemm row hrow col hcol).2, fun _ =>
      ⟨⟨by decide, by decide⟩, fun _ _ => rfl, fun row hrow col hcol htile => ?_⟩⟩
    rw [(hgemm row hrow col hcol).1] at htile
    cases htile
  · intro row hrow col hcol
    rw [hm] at hrow
    rw [hn] at hcol
    obtain rfl : row = 0 := by omega
    obtain rfl : col = 0 := by omega
    rw [hzero, if_neg Bool.false_ne_true, hvalue, hbound]
    decide

end Rns8
