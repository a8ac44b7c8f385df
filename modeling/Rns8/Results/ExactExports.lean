import Rns8.Results.ExactRuns
import Rns8.Results.LimbExport
import Rns8.Results.RunExactness

/-!
# What the limb exports of a run return

A live exact-wide matrix determines its integers: no others have its residues and respect its proof
(`Proven.unique`). A limb export reads these residues under the prefix of its plan, and the range check
of the export makes the integers the only ones for that prefix too, so that the words it stores are
those of the integers (`exactRun_exports`).
-/

namespace Rns8

open CenteredResidue LabelledRun WordLimbs

/-! ### One matrix, one integer matrix -/

/-- The integers that a range proof admits at a cell. -/
structure Admitted (matrix : RnsMatrix) (row col : ℕ) (x : ℤ) : Prop where
  residues : ∀ p < matrix.exactRangePrefix,
    (matrix.residues.cell (residueIndex matrix p row col)).toInt ≡ x [ZMOD modulusAt p]
  magnitude : |x| ≤ matrix.exactMaxMagnitude
  unsigned : matrix.desc.semantics = .exactWideUnsigned → 0 ≤ x

/-- Two integers of one range with the residues of a product that is longer are equal. -/
theorem eq_of_exactRangeFits {semantics : Semantics} {bound x y : ℤ} {p : ℕ} (hp : p ≤ 28)
    (hexact : exactWideSemantics semantics = true)
    (hfits : exactRangeFits semantics bound (modulusProduct p) = true) (hx : |x| ≤ bound)
    (hy : |y| ≤ bound) (hnonneg : semantics = .exactWideUnsigned → 0 ≤ x ∧ 0 ≤ y)
    (hmod : ∀ i < p, x ≡ y [ZMOD modulusAt i]) : x = y := by
  obtain ⟨k, hk⟩ := (modEq_modulusProduct hp hmod).dvd
  simp only [exactRangeFits, Bool.and_eq_true, decide_eq_true_eq] at hfits
  obtain ⟨hx1, hx2⟩ := abs_le.1 hx
  obtain ⟨hy1, hy2⟩ := abs_le.1 hy
  have hperiod : |y - x| < modulusProduct p := by
    rw [abs_lt]
    split at hfits
    · next hsigned =>
      have hlt := of_decide_eq_true hfits.2
      constructor <;> omega
    · next hunsigned =>
      have hlt := of_decide_eq_true hfits.2
      have hkind : semantics = .exactWideUnsigned := by
        cases semantics <;> simp_all [exactWideSemantics]
      obtain ⟨h0x, h0y⟩ := hnonneg hkind
      constructor <;> omega
  have hzero : y - x = 0 := Int.eq_zero_of_abs_lt_dvd ⟨k, hk⟩ hperiod
  omega

/-- **A proven matrix determines its integers.** -/
theorem Proven.unique {matrix : RnsMatrix} {value : ℕ → ℕ → ℤ} (hs : ExactStorage matrix)
    (hm : Proven matrix value) {row col : ℕ} (hrow : row < matrix.desc.rows)
    (hcol : col < matrix.desc.cols) (x : ℤ) : Admitted matrix row col x ↔ x = value row col := by
  have hmax := hs.prefix_le.2
  have hprefix := hm.prefix_le
  have h20 : maxSupportedPrefix = 20 := rfl
  constructor
  · intro hx
    exact eq_of_exactRangeFits (by omega) hs.exact hm.fits hx.magnitude
      (hm.range.magnitude row hrow col hcol)
      (fun hkind => ⟨hx.unsigned hkind, hm.nonneg hkind row hrow col hcol⟩)
      fun p hp => (hx.residues p hp).symm.trans (hm.modEq hs hp hrow hcol)
  · rintro rfl
    exact ⟨fun p hp => hm.modEq hs hp hrow hcol, hm.range.magnitude row hrow col hcol,
      fun hkind => hm.nonneg hkind row hrow col hcol⟩

/-! ### Cells -/

section Cells

variable {residues : ℕ → Int8} {p limbCount : ℕ} {v : ℤ}

/-- **A signed cell** exports the words of its integer when these hold it. -/
theorem exportSignedLimbs_of_residues (hp : 0 < p ∧ p ≤ maxSupportedPrefix)
    (hlimbs : 0 < limbCount ∧ limbCount ≤ 32)
    (h : ∀ i < p, (residues i).toInt ≡ v [ZMOD modulusAt i]) (hv : 2 * |v| < modulusProduct p) :
    (FitsSigned v limbCount → ∃ words, exportExactWideSignedLimbs residues p limbCount = .ok words ∧
      signed 64 (fun i => ((words i).toNat : ℤ)) limbCount = v) ∧
    (¬FitsSigned v limbCount →
      exportExactWideSignedLimbs residues p limbCount = .error .rangeError) := by
  obtain ⟨hyes, hno⟩ := exportExactWideSignedLimbs_of_value hp hlimbs
    (centeredFromCanonical_reconstruct (hp.2.trans (by decide)) h hv)
  refine ⟨fun hfits => ?_, hno⟩
  obtain ⟨words, hok, hwords⟩ := hyes hfits
  refine ⟨words, hok, ?_⟩
  rw [signed_congr hwords]
  exact signed_word_of_fits (by omega) hfits.1 hfits.2

/-- **An unsigned cell** exports the words of its integer when these hold it. -/
theorem exportUnsignedLimbs_of_residues (hp : 0 < p ∧ p ≤ maxSupportedPrefix)
    (hlimbs : 0 < limbCount ∧ limbCount ≤ 32)
    (h : ∀ i < p, (residues i).toInt ≡ v [ZMOD modulusAt i]) (h0 : 0 ≤ v)
    (hv : v < modulusProduct p) :
    (FitsUnsigned v limbCount → ∃ words,
      exportExactWideUnsignedLimbs residues p limbCount = .ok words ∧
        value 64 (fun i => ((words i).toNat : ℤ)) limbCount = v) ∧
    (¬FitsUnsigned v limbCount →
      exportExactWideUnsignedLimbs residues p limbCount = .error .rangeError) := by
  have hval : reconstructCanonical residues p = v := by
    rw [reconstructCanonical_eq (hp.2.trans (by decide)) h]
    exact Int.emod_eq_of_lt h0 hv
  obtain ⟨hyes, hno⟩ := exportExactWideUnsignedLimbs_of_value hp hlimbs hval
  refine ⟨fun hfits => ?_, hno⟩
  obtain ⟨words, hok, hwords⟩ := hyes hfits
  refine ⟨words, hok, ?_⟩
  rw [value_congr hwords]
  exact value_word_of_fits hfits.1 hfits.2

end Cells

/-! ### Exports -/

/-- What a limb export returns for the integers `value`: the words that it stores decode to them, and
an export that is accepted succeeds exactly when the limbs hold all of them. -/
structure LimbsReturn (call : (ℕ → UInt64) → Status × (ℕ → UInt64)) (accepted : Prop) (plan : Plan)
    (ld limbCount : ℕ) (fits : ℤ → Prop) (decode : (ℕ → ℤ) → ℕ → ℤ) (value : ℕ → ℕ → ℤ) : Prop where
  exact : ∀ dst, (call dst).1 = .success → ∀ row < plan.desc.m, ∀ col < plan.desc.n,
    decode (fun i => ((call dst).2 ((row * ld + col) * limbCount + i)).toNat) limbCount =
      value row col
  success : accepted → (∀ row < plan.desc.m, ∀ col < plan.desc.n, fits (value row col)) →
    ∀ dst, (call dst).1 = .success
  range : accepted → ¬(∀ row < plan.desc.m, ∀ col < plan.desc.n, fits (value row col)) →
    ∀ dst, call dst = (.rangeError, dst)

/-- The export is called with a valid access, its matrix is accepted and the staging is allocated. -/
def LimbsAccepted (env : ExportEnv UInt64) (ctx : Context) (plan : Plan) (C : RnsMatrix)
    (semantics : Semantics) (ld limbCount : ℕ) : Prop :=
  validLimbExportAccess plan.desc.m plan.desc.n ld limbCount = true ∧
    validateExportMatrix ctx plan C semantics .none plan.rnsPrefix = .success ∧ env.staged = true

section Exports

variable {ctx : Context} {plan : Plan} {C : RnsMatrix} {ld limbCount : ℕ}

/-- **The rule of a limb export**: cells that return the words of their integers, or a range error
where the words do not hold it. -/
theorem LimbsReturn.of_cells {env : ExportEnv UInt64} {semantics : Semantics} {fits : ℤ → Prop}
    {decode : (ℕ → ℤ) → ℕ → ℤ} {value : ℕ → ℕ → ℤ} {cell : ℕ → ℕ → Except Status (ℕ → UInt64)}
    {call : (ℕ → UInt64) → Status × (ℕ → UInt64)} (hcpu : ctx.backend = .cpuReference)
    (hcall : ∀ dst, call dst =
      if !validLimbExportAccess plan.desc.m plan.desc.n ld limbCount then (.invalidArgument, dst)
      else exportResidues env ctx plan C semantics .none cell
        (storeLimbs plan.desc.m plan.desc.n ld limbCount) dst)
    (hatomic : hipDeviceBackend plan.backend = false →
      Atomic call plan.desc.m plan.desc.n ld limbCount cell fun value i => value i)
    (hne : ∀ row col, cell row col ≠ .error .success)
    (hcongr : ∀ (f g : ℕ → ℤ), (∀ i < limbCount, f i = g i) → decode f limbCount = decode g limbCount)
    (hcells : validLimbExportAccess plan.desc.m plan.desc.n ld limbCount = true →
      validateExportMatrix ctx plan C semantics .none plan.rnsPrefix = .success →
      ∀ row < plan.desc.m, ∀ col < plan.desc.n,
        (fits (value row col) → ∃ words, cell row col = .ok words ∧
          decode (fun i => ((words i).toNat : ℤ)) limbCount = value row col) ∧
        (¬fits (value row col) → cell row col = .error .rangeError)) :
    LimbsReturn call (LimbsAccepted env ctx plan C semantics ld limbCount) plan ld limbCount fits decode
      value := by
  -- an accepted call is the staged loop over the cells
  have hrun : LimbsAccepted env ctx plan C semantics ld limbCount → ∀ dst,
      call dst = exportInto (storeLimbs plan.desc.m plan.desc.n ld limbCount) dst
        (stageCells plan.desc.m plan.desc.n cell) := by
    rintro ⟨haccess, hvalid, hstaged⟩ dst
    rw [hcall, haccess]
    simp [exportResidues, hvalid, hostBackend_of_export hcpu hvalid, hstaged]
  refine ⟨fun dst hok row hrow col hcol => ?_, fun haccepted hfits dst => ?_,
    fun haccepted hfits dst => ?_⟩
  -- a success has passed both checks, and its words are those of the staged cells
  · have haccess : validLimbExportAccess plan.desc.m plan.desc.n ld limbCount = true := by
      by_contra hno
      rw [hcall, if_pos (by simpa using hno)] at hok
      cases hok
    have hvalid : validateExportMatrix ctx plan C semantics .none plan.rnsPrefix = .success := by
      by_contra hno
      rw [hcall, haccess, Bool.not_true, if_neg Bool.false_ne_true, exportResidues,
        if_pos hno] at hok
      exact hno hok
    obtain ⟨words, hcell, hstored⟩ := (hatomic (hostBackend_of_export hcpu hvalid)).written dst hok
      row hrow col hcol
    obtain ⟨hyes, hno⟩ := hcells haccess hvalid row hrow col hcol
    -- a cell out of range would have failed the call
    have hfits : fits (value row col) := by
      by_contra hnot
      rw [hno hnot] at hcell
      cases hcell
    obtain ⟨words', hcell', hdecode⟩ := hyes hfits
    obtain rfl := Except.ok.inj (hcell.symm.trans hcell')
    rw [← hdecode]
    exact hcongr _ _ fun i hi => by rw [hstored i hi]
  · obtain ⟨haccess, hvalid, -⟩ := id haccepted
    rw [hrun haccepted]
    have hok : ∀ row < plan.desc.m, ∀ col < plan.desc.n,
        cell row col = .ok ((cell row col).toOption.getD default) := by
      intro row hrow col hcol
      obtain ⟨words, hcell, -⟩ := (hcells haccess hvalid row hrow col hcol).1 (hfits row hrow col hcol)
      rw [hcell]
      rfl
    obtain ⟨out, hout, -⟩ := stageCells_of_ok hok
    rw [hout]
    rfl
  -- every cell in range: the staging succeeds
  · obtain ⟨haccess, hvalid, -⟩ := id haccepted
    rw [hrun haccepted]
    have hcell := hcells haccess hvalid
    -- some cell out of range: the staging stops at the first, with its status
    cases hstage : stageCells plan.desc.m plan.desc.n cell with
    | error status =>
      obtain ⟨row, hrow, col, hcol, herror⟩ := stageCells_error hstage
      have hrange : status = .rangeError := by
        obtain ⟨hyes, hno⟩ := hcell row hrow col hcol
        by_cases hf : fits (value row col)
        · obtain ⟨words, hwords, -⟩ := hyes hf
          rw [hwords] at herror
          cases herror
        · exact Except.error.inj (herror.symm.trans (hno hf))
      rw [hrange]
      rfl
    | ok words =>
      -- had the staging succeeded, every cell would be in range
      refine absurd (fun row hrow col hcol => ?_) hfits
      by_contra hnot
      have herror := (hcell row hrow col hcol).2 hnot
      rw [stageCells_ok hstage hne hrow hcol] at herror
      cases herror

/-- A plan under which a live matrix is exported: its prefix is proven and carries the magnitude. -/
theorem export_prefix {held : Held} (hcpu : ctx.backend = .cpuReference) (hm : HoldsExact held C)
    {semantics : Semantics} (hexact : exactWideSemantics semantics = true)
    (hvalid : validateExportMatrix ctx plan C semantics .none plan.rnsPrefix = .success) :
    Proven C held.value ∧ C.desc.semantics = semantics ∧
      (C.desc.rows = plan.desc.m ∧ C.desc.cols = plan.desc.n) ∧
      (0 < plan.rnsPrefix ∧ plan.rnsPrefix ≤ C.exactRangePrefix) ∧
      exactRangeFits semantics C.exactMaxMagnitude (modulusProduct plan.rnsPrefix) = true := by
  obtain ⟨hsem, hexp⟩ := validateExportMatrix_cpu (plan_backend_of_export hcpu hvalid)
    (usesRnsStorage_of_exact hexact) hvalid
  obtain ⟨hproven, -⟩ := hm.proven hexp.current
  have hpos := hproven.prefix_pos
  obtain ⟨hle, hfits⟩ := hexp.proven (by rw [hsem]; exact hexact) (by omega)
  obtain ⟨h0, -, -, hproduct⟩ := planScheduleContractMatches_ladder hexp.contract
    (by rw [hsem]; exact usesRnsStorage_of_exact hexact)
  rw [hproduct, hsem] at hfits
  exact ⟨hproven, hexp.semantics.trans hsem, ⟨hexp.rows, hexp.cols⟩, ⟨h0, hle⟩, hfits⟩

theorem limbCount_of_access (h : validLimbExportAccess plan.desc.m plan.desc.n ld limbCount = true) :
    0 < limbCount ∧ limbCount ≤ 32 := by
  simp only [validLimbExportAccess, Bool.and_eq_true, decide_eq_true_eq] at h
  omega

theorem rns8ExportExactWideSignedLimbs_held {held : Held} (hcpu : ctx.backend = .cpuReference)
    (hm : HoldsExact held C) (env : ExportEnv UInt64) :
    LimbsReturn (fun dst => rns8ExportExactWideSignedLimbs env ctx plan C dst ld limbCount)
      (LimbsAccepted env ctx plan C .exactWideSigned ld limbCount) plan ld limbCount
      (FitsSigned · limbCount) (signed 64) held.value := by
  refine LimbsReturn.of_cells hcpu (fun _ => rfl)
    (fun hhost => exportSignedLimbs_atomic ctx C ld hhost env limbCount)
    (fun _ _ => exportSignedLimbs_ne_success _ _ _)
    (fun f g h => signed_congr h) fun haccess hvalid row hrow col hcol => ?_
  obtain ⟨hproven, -, ⟨hrows, hcols⟩, ⟨h0, hle⟩, hfits⟩ := export_prefix hcpu hm rfl hvalid
  have hmax := hm.storage.prefix_le.2
  have hprefix := hproven.prefix_le
  have hrow' : row < C.desc.rows := by rwa [hrows]
  have hcol' : col < C.desc.cols := by rwa [hcols]
  have hmag := hproven.range.magnitude row hrow' col hcol'
  simp only [exactRangeFits, if_true, Bool.and_eq_true, decide_eq_true_eq] at hfits
  exact exportSignedLimbs_of_residues ⟨h0, by have : maxSupportedPrefix = 20 := rfl; omega⟩
    (limbCount_of_access haccess)
    (fun p hp => hproven.modEq hm.storage (by omega) hrow' hcol') (by omega)

theorem rns8ExportExactWideUnsignedLimbs_held {held : Held} (hcpu : ctx.backend = .cpuReference)
    (hm : HoldsExact held C) (env : ExportEnv UInt64) :
    LimbsReturn (fun dst => rns8ExportExactWideUnsignedLimbs env ctx plan C dst ld limbCount)
      (LimbsAccepted env ctx plan C .exactWideUnsigned ld limbCount) plan ld limbCount
      (FitsUnsigned · limbCount) (value 64) held.value := by
  refine LimbsReturn.of_cells hcpu (fun _ => rfl)
    (fun hhost => exportUnsignedLimbs_atomic ctx C ld hhost env limbCount)
    (fun _ _ => exportUnsignedLimbs_ne_success _ _ _)
    (fun f g h => value_congr h) fun haccess hvalid row hrow col hcol => ?_
  obtain ⟨hproven, hsem, ⟨hrows, hcols⟩, ⟨h0, hle⟩, hfits⟩ := export_prefix hcpu hm rfl hvalid
  have hmax := hm.storage.prefix_le.2
  have hprefix := hproven.prefix_le
  have hrow' : row < C.desc.rows := by rwa [hrows]
  have hcol' : col < C.desc.cols := by rwa [hcols]
  have hmag := hproven.range.magnitude row hrow' col hcol'
  have hnonneg := hproven.nonneg hsem row hrow' col hcol'
  rw [abs_of_nonneg hnonneg] at hmag
  simp only [exactRangeFits, reduceCtorEq, if_false, Bool.and_eq_true, decide_eq_true_eq] at hfits
  exact exportUnsignedLimbs_of_residues ⟨h0, by have : maxSupportedPrefix = 20 := rfl; omega⟩
    (limbCount_of_access haccess)
    (fun p hp => hproven.modEq hm.storage (by omega) hrow' hcol') hnonneg (by omega)

end Exports

/-- **The matrices of a run determine what their exports return.** In every run of exact-wide calls on
the CPU, each live matrix that is current has one integer matrix with its residues within its proof,
the one that the calls computed; every limb export of it, under any plan, returns these integers. -/
theorem exactRun_exports {ctx : Context} (hcpu : ctx.backend = .cpuReference) (ops : List ExactOp)
    {h : Handle} {C : RnsMatrix} (hm : (exec (exactStep ctx) ExactState.empty ops).store h = some C) :
    let held := (exec (exactStep ctx) ExactState.empty ops).held h
    (C.hostResiduesCurrent = true → Proven C held.value ∧ ∀ row < C.desc.rows, ∀ col < C.desc.cols,
      ∀ x, Admitted C row col x ↔ x = held.value row col) ∧
    ∀ (env : ExportEnv UInt64) (plan : Plan) (ld limbCount : ℕ),
      LimbsReturn (fun dst => rns8ExportExactWideSignedLimbs env ctx plan C dst ld limbCount)
        (LimbsAccepted env ctx plan C .exactWideSigned ld limbCount) plan ld limbCount
        (FitsSigned · limbCount) (signed 64) held.value ∧
      LimbsReturn (fun dst => rns8ExportExactWideUnsignedLimbs env ctx plan C dst ld limbCount)
        (LimbsAccepted env ctx plan C .exactWideUnsigned ld limbCount) plan ld limbCount
        (FitsUnsigned · limbCount) (value 64) held.value := by
  have hholds := (exactRun_inv hcpu ops).dense h C hm
  refine ⟨fun hcurrent => ⟨(hholds.proven hcurrent).1, fun row hrow col hcol x => ?_⟩,
    fun env plan ld limbCount => ⟨rns8ExportExactWideSignedLimbs_held hcpu hholds env,
      rns8ExportExactWideUnsignedLimbs_held hcpu hholds env⟩⟩
  exact (hholds.proven hcurrent).1.unique hholds.storage hrow hcol x

/-- The product `5 * 7` is exported in one limb. -/
theorem exactRun_exports_scalar :
    ∃ plan ∈ makePlan exactScalarDesc, ∃ workspace ∈ (rns8CreateWorkspace .cpu plan).toOption,
      let σ := exec (exactStep .cpu) ExactState.empty (exactScalarRun plan workspace)
      ∃ C ∈ σ.store 2, ∃ words, rns8ExportExactWideSignedLimbs ⟨true, (.success, fun _ => 0),
          serialRows⟩ .cpu plan C (fun _ => 0) 1 1 = (.success, words) ∧
        signed 64 (fun i => ((words ((0 * 1 + 0) * 1 + i)).toNat : ℤ)) 1 = (σ.held 2).value 0 0 := by
  have hcall : ∃ plan ∈ makePlan exactScalarDesc,
      ∃ workspace ∈ (rns8CreateWorkspace .cpu plan).toOption,
        ∃ C ∈ (exec (exactStep .cpu) ExactState.empty (exactScalarRun plan workspace)).store 2,
          (0 < plan.1.desc.m ∧ 0 < plan.1.desc.n) ∧
          (rns8ExportExactWideSignedLimbs ⟨true, (.success, fun _ => 0), serialRows⟩ .cpu plan C
            (fun _ => 0) 1 1).1 = .success := by
    decide +kernel
  obtain ⟨plan, hplan, workspace, hworkspace, C, hm, ⟨hrow, hcol⟩, hst⟩ := hcall
  exact ⟨plan, hplan, workspace, hworkspace, C, hm, _, Prod.ext hst rfl,
    ((exactRun_exports rfl (exactScalarRun plan workspace) hm).2 ⟨true, (.success, fun _ => 0),
      serialRows⟩ plan 1 1).1.exact _ hst 0 hrow 0 hcol⟩

end Rns8
