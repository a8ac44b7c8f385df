import Rns8.Api.CpuMatrices

/-!
# Exports from host storage are atomic

An export from host storage either leaves its destination alone and fails, or succeeds and writes the
cells of the matrix, each with the value reconstructed for it, and nothing between or beyond the rows
(`Atomic`). It does not matter which cell is the first to fail: the cells are staged, and the
destination is written when all of them are there.
-/

namespace Rns8

/-- What a call promises of its destination. The cell at `row` and `col` has the elements from
`(row * ld + col) * limbs`, and `word` reads them off its value. -/
structure Atomic {β γ : Type} (call : (ℕ → γ) → Status × (ℕ → γ)) (m n ld limbs : ℕ)
    (cell : ℕ → ℕ → Except Status β) (word : β → ℕ → γ) : Prop where
  failed : ∀ dst, (call dst).1 ≠ .success → (call dst).2 = dst
  written : ∀ dst, (call dst).1 = .success → ∀ row < m, ∀ col < n, ∃ value,
    cell row col = .ok value ∧
      ∀ i < limbs, (call dst).2 ((row * ld + col) * limbs + i) = word value i
  frame : ∀ dst, (call dst).1 = .success → ∀ o,
    (∀ row < m, ∀ col < n, ∀ i < limbs, o ≠ (row * ld + col) * limbs + i) → (call dst).2 o = dst o

/-! ### The two kinds of stores -/

/-- A store of cells writes each cell's word and nothing else. -/
structure StoresCells {β γ : Type} (store : (ℕ → ℕ → β) → (ℕ → γ) → ℕ → γ) (m n ld limbs : ℕ)
    (word : β → ℕ → γ) : Prop where
  written : ∀ value dst, ∀ row < m, ∀ col < n, ∀ i < limbs,
    store value dst ((row * ld + col) * limbs + i) = word (value row col) i
  frame : ∀ value dst o, (∀ row < m, ∀ col < n, ∀ i < limbs, o ≠ (row * ld + col) * limbs + i) →
    store value dst o = dst o

theorem storeCells_storesCells {β : Type} (rows : RowSchedule) {m n ld : ℕ} (hld : n ≤ ld) :
    StoresCells (storeCells rows m n ld) m n ld 1 (fun (value : β) _ => value) where
  written := by
    intro value dst row hrow col hcol i hi
    obtain rfl : i = 0 := by omega
    rw [Nat.mul_one, Nat.add_zero]
    exact storeCells_read rows dst hrow hcol hld
  frame := by
    intro value dst o ho
    refine (storeCells_stores rows hld dst o).2 ?_
    rintro ⟨row, hrow, col, hcol, heq⟩
    exact ho row hrow col hcol 0 (by omega) (by omega)

theorem storeLimbs_storesCells {m n ld limbCount : ℕ} (hld : n ≤ ld) :
    StoresCells (storeLimbs m n ld limbCount) m n ld limbCount fun value i => value i where
  written := by
    intro value dst row hrow col hcol i hi
    rw [(storeLimbs_stores hld dst _).1 ⟨row, hrow, col, hcol, i, hi, rfl⟩]
    obtain ⟨hdiv, hmod⟩ := RowMajor.offset_parts (row * ld + col) hi
    obtain ⟨hrow', hcol'⟩ := RowMajor.offset_parts row (lt_of_lt_of_le hcol hld)
    simp only [hdiv, hmod, hrow', hcol']
  frame := by
    intro value dst o ho
    refine (storeLimbs_stores hld dst o).2 ?_
    rintro ⟨row, hrow, col, hcol, i, hi, heq⟩
    exact ho row hrow col hcol i hi heq

/-! ### Staged exports -/

/-- A call that is refused before it writes. -/
theorem Atomic.of_refused {β γ : Type} {call : (ℕ → γ) → Status × (ℕ → γ)} {m n ld limbs : ℕ}
    {cell : ℕ → ℕ → Except Status β} {word : β → ℕ → γ} {status : Status} (hst : status ≠ .success)
    (h : ∀ dst, call dst = (status, dst)) : Atomic call m n ld limbs cell word where
  failed dst _ := by rw [h]
  written dst hok := absurd (by rw [h] at hok; exact hok) hst
  frame dst hok := absurd (by rw [h] at hok; exact hok) hst

/-- A call that stores cells that are there. -/
theorem Atomic.of_stored {β γ : Type} {call : (ℕ → γ) → Status × (ℕ → γ)} {m n ld limbs : ℕ}
    {cell : ℕ → ℕ → Except Status β} {word : β → ℕ → γ}
    {store : (ℕ → ℕ → β) → (ℕ → γ) → ℕ → γ} (hstore : StoresCells store m n ld limbs word)
    {value : ℕ → ℕ → β} (hcell : ∀ row < m, ∀ col < n, cell row col = .ok (value row col))
    (h : ∀ dst, call dst = (.success, store value dst)) : Atomic call m n ld limbs cell word where
  failed dst hne := absurd (by rw [h]) hne
  written dst _ row hrow col hcol := by
    refine ⟨_, hcell row hrow col hcol, fun i hi => ?_⟩
    rw [h]
    exact hstore.written value dst row hrow col hcol i hi
  frame dst _ o ho := by
    rw [h]
    exact hstore.frame value dst o ho

section Residues

variable {ctx : Context} {plan : Plan} {C : RnsMatrix}

/-- **A staged export is atomic**, for any reconstruction of the cells and any store. -/
theorem exportResidues_atomic {β γ : Type} [Inhabited β] (env : ExportEnv γ) (semantics : Semantics)
    (boundKind : BoundKind) {cell : ℕ → ℕ → Except Status β}
    {store : (ℕ → ℕ → β) → (ℕ → γ) → ℕ → γ} {ld limbs : ℕ} {word : β → ℕ → γ}
    (hhost : hipDeviceBackend plan.backend = false)
    (hne : ∀ row col, cell row col ≠ .error .success)
    (hstore : StoresCells store plan.desc.m plan.desc.n ld limbs word) :
    Atomic (exportResidues env ctx plan C semantics boundKind cell store) plan.desc.m plan.desc.n ld
      limbs cell word := by
  -- refused checks and a failed staging allocation write nothing
  by_cases hvalid : validateExportMatrix ctx plan C semantics boundKind plan.rnsPrefix = .success
  swap
  · exact Atomic.of_refused hvalid fun dst => by simp only [exportResidues, if_pos hvalid]
  by_cases hstaged : env.staged = false
  · refine Atomic.of_refused (show Status.internalError ≠ Status.success by decide) fun dst => ?_
    simp [exportResidues, hvalid, hhost, hstaged]
  have hcall : ∀ dst, exportResidues env ctx plan C semantics boundKind cell store dst =
      exportInto store dst (stageCells plan.desc.m plan.desc.n cell) := by
    intro dst
    simp [exportResidues, hvalid, hhost, hstaged]
  -- the cells are staged before any is stored: the first failing one decides the status
  cases hstage : stageCells plan.desc.m plan.desc.n cell with
  | error status =>
    obtain ⟨row, -, col, -, hcell⟩ := stageCells_error hstage
    have hst : status ≠ .success := fun hst => hne row col (hst ▸ hcell)
    refine Atomic.of_refused hst fun dst => ?_
    rw [hcall, hstage]
    rfl
  | ok value =>
    refine Atomic.of_stored hstore (fun row hrow col hcol => stageCells_ok hstage hne hrow hcol)
      fun dst => ?_
    rw [hcall, hstage]
    rfl

/-! ### The reconstructions never fail with a success -/

theorem reconstructSigned_ne_success (residues : ℕ → Int8) (rnsPrefix bound : ℕ) :
    reconstructSigned residues rnsPrefix bound ≠ .error .success := by
  unfold reconstructSigned
  intro h
  split at h
  · cases h
  dsimp only at h
  split at h
  · next hrange => exact hrange (Except.error.inj h)
  · split at h <;> cases h

theorem reconstructUnsigned_ne_success (residues : ℕ → Int8) (rnsPrefix bound : ℕ) :
    reconstructUnsigned residues rnsPrefix bound ≠ .error .success := by
  unfold reconstructUnsigned
  intro h
  split at h
  · cases h
  dsimp only at h
  split at h
  · next hrange => exact hrange (Except.error.inj h)
  · split at h <;> cases h

theorem exportCellI64_ne_success (plan : Plan) (C : RnsMatrix) (row col : ℕ) :
    exportCellI64 plan C row col ≠ .error .success := by
  unfold exportCellI64
  split
  · exact fun h => by cases h
  · exact reconstructSigned_ne_success _ _ _

theorem exportCellU64_ne_success (plan : Plan) (C : RnsMatrix) (row col : ℕ) :
    exportCellU64 plan C row col ≠ .error .success := by
  unfold exportCellU64
  split
  · exact fun h => by cases h
  · exact reconstructUnsigned_ne_success _ _ _

theorem exportSignedLimbs_ne_success (residues : ℕ → Int8) (rnsPrefix limbCount : ℕ) :
    exportExactWideSignedLimbs residues rnsPrefix limbCount ≠ .error .success := by
  unfold exportExactWideSignedLimbs
  split
  · exact fun h => by cases h
  · dsimp only
    split <;> exact fun h => by cases h

theorem exportUnsignedLimbs_ne_success (residues : ℕ → Int8) (rnsPrefix limbCount : ℕ) :
    exportExactWideUnsignedLimbs residues rnsPrefix limbCount ≠ .error .success := by
  unfold exportExactWideUnsignedLimbs
  split
  · exact fun h => by cases h
  · dsimp only
    split <;> exact fun h => by cases h

/-! ### The six exports -/

/-- The value of a cell of a byte-limb matrix: `wrap_u64_matrix_cell`. -/
def exportCellWrapU64 (C : RnsMatrix) (row col : ℕ) : UInt64 :=
  (⟨(), C.desc.rows, C.desc.cols⟩ : PlaneOperand Unit).wrapCell (fun _ => C.byteLimbs.cell) row col

/-- The value of a cell of a finite matrix. -/
def exportCellFiniteU8 (C : RnsMatrix) (modulus row col : ℕ) : UInt8 :=
  UInt8.ofNat (canonicalFromCentered (C.residues.cell (row * C.desc.cols + col)) modulus).toNat

/-- An accepted leading dimension holds a row. -/
theorem le_of_validMatrixAccess {rows cols ld : ℕ} (h : validMatrixAccess rows cols ld = true) :
    cols ≤ ld := by
  simp only [validMatrixAccess, Bool.and_eq_true, decide_eq_true_eq] at h
  exact h.1.2

theorem le_of_validLimbExportAccess {rows cols ld limbCount : ℕ}
    (h : validLimbExportAccess rows cols ld limbCount = true) : cols ≤ ld := by
  simp only [validLimbExportAccess, Bool.and_eq_true] at h
  exact le_of_validMatrixAccess h.1.1.1.1

/-- A call that refuses some accesses is atomic when it is for the others. -/
theorem Atomic.of_access {β γ : Type} {call : (ℕ → γ) → Status × (ℕ → γ)} {m n ld limbs : ℕ}
    {cell : ℕ → ℕ → Except Status β} {word : β → ℕ → γ} {access : Bool}
    (h : access = true → Atomic call m n ld limbs cell word) :
    Atomic (fun dst => if !access then (.invalidArgument, dst) else call dst) m n ld limbs cell
      word := by
  cases access with
  | false => exact Atomic.of_refused (show Status.invalidArgument ≠ Status.success by decide) fun _ => rfl
  | true => exact h rfl

section Exports

variable (ctx : Context) {plan : Plan} (C : RnsMatrix) (ld : ℕ)
  (hhost : hipDeviceBackend plan.backend = false)
include hhost

theorem exportI64_atomic (env : ExportEnv Int64) :
    Atomic (fun dst => rns8ExportI64 env ctx plan C dst ld) plan.desc.m plan.desc.n ld 1
      (exportCellI64 plan C) fun value _ => value :=
  Atomic.of_access fun haccess => exportResidues_atomic env _ _ hhost (exportCellI64_ne_success plan C)
    (storeCells_storesCells serialRows (le_of_validMatrixAccess haccess))

theorem exportU64_atomic (env : ExportEnv UInt64) :
    Atomic (fun dst => rns8ExportU64 env ctx plan C dst ld) plan.desc.m plan.desc.n ld 1
      (exportCellU64 plan C) fun value _ => value :=
  Atomic.of_access fun haccess => exportResidues_atomic env _ _ hhost (exportCellU64_ne_success plan C)
    (storeCells_storesCells serialRows (le_of_validMatrixAccess haccess))

theorem exportSignedLimbs_atomic (env : ExportEnv UInt64) (limbCount : ℕ) :
    Atomic (fun dst => rns8ExportExactWideSignedLimbs env ctx plan C dst ld limbCount) plan.desc.m
      plan.desc.n ld limbCount (fun row col => exportExactWideSignedLimbs
        (gatherCellResidues C row col) plan.rnsPrefix limbCount) fun value i => value i :=
  Atomic.of_access fun haccess => exportResidues_atomic env _ _ hhost
    (fun _ _ => exportSignedLimbs_ne_success _ _ _)
    (storeLimbs_storesCells (le_of_validLimbExportAccess haccess))

theorem exportUnsignedLimbs_atomic (env : ExportEnv UInt64) (limbCount : ℕ) :
    Atomic (fun dst => rns8ExportExactWideUnsignedLimbs env ctx plan C dst ld limbCount) plan.desc.m
      plan.desc.n ld limbCount (fun row col => exportExactWideUnsignedLimbs
        (gatherCellResidues C row col) plan.rnsPrefix limbCount) fun value i => value i :=
  Atomic.of_access fun haccess => exportResidues_atomic env _ _ hhost
    (fun _ _ => exportUnsignedLimbs_ne_success _ _ _)
    (storeLimbs_storesCells (le_of_validLimbExportAccess haccess))

theorem exportWrapU64_atomic (env : ExportEnv UInt64) :
    Atomic (fun dst => rns8ExportWrapU64 env ctx plan C dst ld) plan.desc.m plan.desc.n ld 1
      (fun row col => .ok (exportCellWrapU64 C row col)) fun value _ => value := by
  refine Atomic.of_access fun haccess => ?_
  by_cases hvalid : validateExportMatrix ctx plan C .wrapU64Mod2_64 .none 0 = .success
  swap
  · exact Atomic.of_refused hvalid fun dst => by simp only [if_pos hvalid]
  by_cases hbackend : plan.backend = .wrap64ByteLimb
  · cases hcurrent : C.hostByteLimbsCurrent with
    | false =>
      refine Atomic.of_refused (show Status.invalidArgument ≠ Status.success by decide) fun dst => ?_
      simp [hvalid, hbackend]
    | true =>
      refine Atomic.of_stored (storeCells_storesCells env.rows (le_of_validMatrixAccess haccess))
        (fun _ _ _ _ => rfl) fun dst => ?_
      simp only [hvalid, hbackend, ne_eq, not_true_eq_false, if_false, if_true, Bool.not_true,
        Bool.false_eq_true]
      rfl
  · have hdirect : plan.backend ≠ .hipDirect := fun h => by rw [h] at hhost; cases hhost
    refine Atomic.of_refused (show Status.unsupportedBackend ≠ Status.success by decide) fun dst => ?_
    simp [hvalid, hbackend, hdirect]

theorem exportFiniteU8_atomic (env : ExportEnv UInt8) (modulus : ℕ) :
    Atomic (fun dst => rns8ExportFiniteU8 env ctx plan modulus C dst ld) plan.desc.m plan.desc.n ld 1
      (fun row col => .ok (exportCellFiniteU8 C modulus row col)) fun value _ => value := by
  refine Atomic.of_access fun haccess => ?_
  by_cases hvalid : validateFiniteExportMatrix ctx plan modulus C = .success
  swap
  · exact Atomic.of_refused hvalid fun dst => by simp only [if_pos hvalid]
  have hresident : hipResidentRnsBackend plan.backend = false := (Bool.or_eq_false_iff.1 hhost).1
  by_cases hbackend : plan.backend = .cpuReference
  · have hmatrix := validateFiniteExportMatrix_spec hvalid
    have hvalue : exportCellFiniteU8 C modulus = fun row col => UInt8.ofNat
        (canonicalFromCentered (C.residues.cell (row * plan.desc.n + col)) modulus).toNat := by
      funext row col
      rw [exportCellFiniteU8, hmatrix.cols]
    refine Atomic.of_stored (storeCells_storesCells env.rows (le_of_validMatrixAccess haccess))
      (fun _ _ _ _ => rfl) fun dst => ?_
    simp [hvalid, hbackend, hipResidentRnsBackend, hvalue, hmatrix.rows, hmatrix.cols]
  · refine Atomic.of_refused (show Status.unsupportedBackend ≠ Status.success by decide) fun dst => ?_
    simp [hvalid, hresident, hbackend]

end Exports

end Residues

/-- **Exports from host storage are atomic**: all six entry points, for every plan on a host backend,
every matrix and every access. -/
theorem hostExports_atomic (ctx : Context) (plan : Plan) (C : RnsMatrix) (ld : ℕ)
    (hhost : hipDeviceBackend plan.backend = false) :
    (∀ env, Atomic (fun dst => rns8ExportI64 env ctx plan C dst ld) plan.desc.m plan.desc.n ld 1
      (exportCellI64 plan C) fun value _ => value) ∧
    (∀ env, Atomic (fun dst => rns8ExportU64 env ctx plan C dst ld) plan.desc.m plan.desc.n ld 1
      (exportCellU64 plan C) fun value _ => value) ∧
    (∀ env, Atomic (fun dst => rns8ExportWrapU64 env ctx plan C dst ld) plan.desc.m plan.desc.n ld 1
      (fun row col => .ok (exportCellWrapU64 C row col)) fun value _ => value) ∧
    (∀ env modulus, Atomic (fun dst => rns8ExportFiniteU8 env ctx plan modulus C dst ld) plan.desc.m
      plan.desc.n ld 1 (fun row col => .ok (exportCellFiniteU8 C modulus row col))
      fun value _ => value) ∧
    (∀ env limbCount, Atomic
      (fun dst => rns8ExportExactWideSignedLimbs env ctx plan C dst ld limbCount) plan.desc.m
      plan.desc.n ld limbCount (fun row col => exportExactWideSignedLimbs
        (gatherCellResidues C row col) plan.rnsPrefix limbCount) fun value i => value i) ∧
    (∀ env limbCount, Atomic
      (fun dst => rns8ExportExactWideUnsignedLimbs env ctx plan C dst ld limbCount) plan.desc.m
      plan.desc.n ld limbCount (fun row col => exportExactWideUnsignedLimbs
        (gatherCellResidues C row col) plan.rnsPrefix limbCount) fun value i => value i) :=
  ⟨exportI64_atomic ctx C ld hhost, exportU64_atomic ctx C ld hhost,
    exportWrapU64_atomic ctx C ld hhost, exportFiniteU8_atomic ctx C ld hhost,
    exportSignedLimbs_atomic ctx C ld hhost, exportUnsignedLimbs_atomic ctx C ld hhost⟩

/-- A row of two cells under the bound `100`. -/
def rowDesc : GemmDesc :=
  { semantics := .boundedI64, boundKind := .globalMaxAbs, requestedBackend := .cpuReference,
    m := 1, n := 2, k := 1, bound := 100, maxPrefix := 1, flags := { forceFixedPrefix := true } }

/-- The storage of the row. -/
def rowMatrixDesc : MatrixDesc :=
  { rows := 1, cols := 2, semantics := .boundedI64, boundKind := .globalMaxAbs, maxPrefix := 1 }

/-- The value `-128` of the second cell is out of range: the first cell is not written either. -/
theorem hostExports_atomic_row : ∃ plan ∈ (rns8CreatePlan { backend := .cpuReference } rowDesc).toOption,
    ∃ C ∈ (rns8CreateMatrix (.ok 1) { backend := .cpuReference } rowMatrixDesc).toOption,
      let D := C.withPlanes fun o => if o = 0 then 5 else -128
      let call := rns8ExportI64 ⟨true, (.success, fun _ => 0), serialRows⟩ { backend := .cpuReference }
        plan D (fun _ => 7) 2
      call.1 = .rangeError ∧ call.2 = fun _ => 7 := by
  have hrun : ∃ plan ∈ (rns8CreatePlan { backend := .cpuReference } rowDesc).toOption,
      ∃ C ∈ (rns8CreateMatrix (.ok 1) { backend := .cpuReference } rowMatrixDesc).toOption,
        hipDeviceBackend plan.backend = false ∧
          (rns8ExportI64 ⟨true, (.success, fun _ => 0), serialRows⟩ { backend := .cpuReference } plan
            (C.withPlanes fun o => if o = 0 then 5 else -128) (fun _ => 7) 2).1 = .rangeError := by
    decide +kernel
  obtain ⟨plan, hplan, C, hC, hhost, hst⟩ := hrun
  refine ⟨plan, hplan, C, hC, hst, ?_⟩
  exact ((hostExports_atomic _ plan _ 2 hhost).1 _).failed _ (by rw [hst]; decide)

end Rns8
