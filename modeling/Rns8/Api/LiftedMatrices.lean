import Rns8.Api.CpuMatrices
import Rns8.Api.ExactLift

/-!
# Lifts of proven matrices

An exact-wide matrix is *proven* for an integer matrix when its first planes hold the residues of
these integers and its range proof excludes every other candidate (`Proven`). On a proven matrix of
the CPU none of the rejections of a lift is taken: the staged value of each cell is its integer
(`liftCell_eq`), and the lift either stops before it writes or leaves `liftedTo`, the matrix with the
missing planes of the integers (`rns8LiftExactWideCpu_eq`).
-/

namespace Rns8

open CenteredResidue

/-! ### Rejections -/

section Rejections

variable {ctx : Context} {matrix : RnsMatrix} {lift : ExactCpuLift} {status : Status}

theorem exactCpuStorage_error {target : ℕ} {requireCurrent : Bool}
    (h : exactCpuStorage ctx matrix target requireCurrent = .error status) : status ≠ .success := by
  unfold exactCpuStorage at h
  split at h
  · cases h; simp
  split at h
  · cases h; simp
  split at h
  · cases h; simp
  split at h
  · split at h
    · cases h; simp
    · cases h
  · cases h; simp

theorem prepareExactCpuLift_error {target : ℕ}
    (h : prepareExactCpuLift ctx matrix target = .error status) : status ≠ .success := by
  unfold prepareExactCpuLift at h
  split at h
  · next hstorage =>
    obtain rfl := Except.error.inj h
    exact exactCpuStorage_error hstorage
  simp only at h
  split at h
  · cases h; simp
  split at h
  · cases h; simp
  · cases h

theorem liftCell_error {cell : ℕ} (h : liftCell matrix lift cell = .error status) :
    status ≠ .success := by
  unfold liftCell at h
  dsimp only at h
  generalize (if matrix.desc.semantics = .exactWideSigned then _ else _ : ℤ) = value at h
  split at h
  · cases h; simp
  split at h
  · cases h; simp
  · cases h

theorem stageExactCpuLift_error {alloc : Bool}
    (h : stageExactCpuLift alloc matrix lift = .error status) : status ≠ .success := by
  unfold stageExactCpuLift at h
  split at h
  · cases h
  split at h
  · cases h; simp
  split at h
  · next hstage =>
    obtain rfl := Except.error.inj h
    obtain ⟨one, -, cell, -, hcell⟩ := stageCells_error hstage
    exact liftCell_error hcell
  · cases h

/-- **A lift that fails leaves the matrix as it was.** -/
theorem rns8LiftExactWideCpu_failed {alloc : Bool} {target budget : ℕ}
    (h : (rns8LiftExactWideCpu alloc ctx matrix target budget).1 ≠ .success) :
    (rns8LiftExactWideCpu alloc ctx matrix target budget).2 = matrix := by
  unfold rns8LiftExactWideCpu at h ⊢
  split at h
  · rfl
  split at h
  · next hbudget => rw [if_pos hbudget]
  next hbudget =>
  rw [if_neg hbudget]
  split at h
  · rfl
  · exact absurd rfl h

end Rejections

/-! ### Proven matrices -/

/-- The storage of an exact-wide matrix on the CPU. -/
structure ExactStorage (matrix : RnsMatrix) : Prop where
  exact : exactWideSemantics matrix.desc.semantics = true
  backend : matrix.backend = .cpuReference
  valid : validateMatrixDesc matrix.desc matrix.rnsPrefix = .success
  maxPrefix : matrix.desc.maxPrefix = matrix.rnsPrefix
  storage : rnsMatrixStorageMatches matrix .cpuReference matrix.desc.rows matrix.desc.cols
    matrix.rnsPrefix = true

/-- The first planes of the matrix hold the integers `value`, and its range proof is one of them. -/
structure Proven (matrix : RnsMatrix) (value : ℕ → ℕ → ℤ) : Prop where
  prefix_pos : 0 < matrix.exactRangePrefix
  prefix_le : matrix.exactRangePrefix ≤ matrix.rnsPrefix
  range : ExactProof matrix value
  fits : exactRangeFits matrix.desc.semantics matrix.exactMaxMagnitude
    (modulusProduct matrix.exactRangePrefix) = true
  nonneg : matrix.desc.semantics = .exactWideUnsigned → ∀ row < matrix.desc.rows,
    ∀ col < matrix.desc.cols, 0 ≤ value row col
  planes : ∀ p < matrix.exactRangePrefix, ∀ row < matrix.desc.rows, ∀ col < matrix.desc.cols,
    matrix.residues.cell (residueIndex matrix p row col) =
      centeredResidue (value row col) (modulusAt p)

theorem usesRnsStorage_of_exact {semantics : Semantics} (h : exactWideSemantics semantics = true) :
    usesRnsStorage semantics = true := by
  cases semantics <;> simp_all [exactWideSemantics, usesRnsStorage]

/-- The cells of a matrix whose storage is sized. -/
theorem ExactStorage.cells {matrix : RnsMatrix} (h : ExactStorage matrix) :
    (0 < matrix.desc.rows ∧ 0 < matrix.desc.cols) ∧
      matrixCellCount matrix.desc.rows matrix.desc.cols = some (matrix.desc.rows * matrix.desc.cols) ∧
      ∃ capacity, rnsResidueCount matrix.desc.rows matrix.desc.cols matrix.rnsPrefix = some capacity := by
  obtain ⟨hdims, -⟩ := validateMatrixDesc_rns h.valid (usesRnsStorage_of_exact h.exact)
  have hstorage := h.storage
  unfold rnsMatrixStorageMatches at hstorage
  rw [if_neg (lt_irrefl _)] at hstorage
  split at hstorage
  · cases hstorage
  next capacity hcount =>
  refine ⟨hdims, ?_, capacity, hcount⟩
  unfold rnsResidueCount at hcount
  split at hcount
  · cases hcount
  cases hcells : matrixCellCount matrix.desc.rows matrix.desc.cols with
  | none => rw [hcells] at hcount; cases hcount
  | some cells => obtain ⟨-, -, rfl⟩ := matrixCellCount_eq_some hcells; rfl

theorem ExactStorage.prefix_le {matrix : RnsMatrix} (h : ExactStorage matrix) :
    0 < matrix.rnsPrefix ∧ matrix.rnsPrefix ≤ 20 :=
  (validateMatrixDesc_rns h.valid (usesRnsStorage_of_exact h.exact)).2

theorem ExactStorage.device {matrix : RnsMatrix} (h : ExactStorage matrix) :
    matrix.deviceResiduesCurrent = false := by
  have hstorage := h.storage
  unfold rnsMatrixStorageMatches at hstorage
  rw [if_neg (lt_irrefl _)] at hstorage
  split at hstorage
  · cases hstorage
  · simp only [residueDeviceStorageMatches, hipResidentRnsBackend, Bool.and_eq_true,
      Bool.not_eq_true', Bool.false_eq_true, if_false] at hstorage
    exact hstorage.2.2

section Lifts

variable {ctx : Context} {matrix : RnsMatrix} {value : ℕ → ℕ → ℤ}

/-- The storage checks of a lift pass. -/
theorem ExactStorage.exactCpuStorage (h : ExactStorage matrix) (hcpu : ctx.backend = .cpuReference)
    {target : ℕ} (h0 : 0 < target) (hle : target ≤ matrix.rnsPrefix) {requireCurrent : Bool}
    (hcurrent : requireCurrent = true → matrix.hostResiduesCurrent = true) :
    Rns8.exactCpuStorage ctx matrix target requireCurrent =
      .ok (matrix.desc.rows * matrix.desc.cols) := by
  obtain ⟨-, hcells, capacity, hcount⟩ := h.cells
  have hmax := h.prefix_le.2
  have h20 : maxSupportedPrefix = 20 := rfl
  have hcond : (requireCurrent && !rnsResidueStateCurrentForBackend matrix ctx.backend) = false := by
    cases requireCurrent with
    | false => rfl
    | true =>
      rw [hcpu]
      simp [rnsResidueStateCurrentForBackend, hipResidentRnsBackend, hcurrent rfl, h.device]
  unfold Rns8.exactCpuStorage
  rw [if_neg (by rw [hcpu, h.backend]; simp), if_neg (by simp [hcpu]), if_neg, hcells, hcount]
  · simp only
    rw [hcond, hcpu, h.storage]
    rfl
  · rw [h.exact, h.valid, h.maxPrefix]
    simp only [ne_eq, not_true_eq_false, or_false, false_or, Bool.true_eq_false]
    omega

/-- The lift that is prepared for a matrix. -/
def preparedLift (matrix : RnsMatrix) (target : ℕ) : ExactCpuLift :=
  let cells := matrix.desc.rows * matrix.desc.cols
  ({ sourcePrefix := matrix.exactRangePrefix
     cells := cells
     sourceCount := cells * matrix.exactRangePrefix
     product := modulusProduct matrix.exactRangePrefix } : ExactCpuLift).select target

/-- The bytes that a lift of the matrix stages. -/
def liftBytes (matrix : RnsMatrix) (target : ℕ) : ℕ :=
  matrix.desc.rows * matrix.desc.cols * (target - matrix.exactRangePrefix)

theorem preparedLift_bytes (matrix : RnsMatrix) (target target' : ℕ) :
    ((preparedLift matrix target).select target').stagedCount = liftBytes matrix target' := by
  unfold preparedLift ExactCpuLift.select liftBytes
  dsimp only
  split
  · rfl
  · next h => rw [Nat.sub_eq_zero_of_le (Nat.le_of_not_lt h), Nat.mul_zero]

theorem prepareExactCpuLift_eq (hs : ExactStorage matrix) (hm : Proven matrix value)
    (hcpu : ctx.backend = .cpuReference) (hcurrent : matrix.hostResiduesCurrent = true) {target : ℕ}
    (h0 : 0 < target) (hle : target ≤ matrix.rnsPrefix) :
    prepareExactCpuLift ctx matrix target = .ok (preparedLift matrix target) := by
  have hpos := hm.prefix_pos
  have hprefix := hm.prefix_le
  have hguard : ¬(matrix.exactRangePrefix = 0 ∨ matrix.rnsPrefix < matrix.exactRangePrefix) := by
    omega
  unfold prepareExactCpuLift
  rw [hs.exactCpuStorage hcpu h0 hle fun _ => hcurrent]
  simp only
  rw [if_neg hguard, hm.fits]
  rfl

/-- What the storage checks of a lift establish. -/
theorem exactCpuStorage_ok {target : ℕ} {requireCurrent : Bool} {cells : ℕ}
    (h : Rns8.exactCpuStorage ctx matrix target requireCurrent = .ok cells) :
    cells = matrix.desc.rows * matrix.desc.cols ∧ (0 < target ∧ target ≤ matrix.rnsPrefix) ∧
      (requireCurrent = true → matrix.hostResiduesCurrent = true) := by
  unfold Rns8.exactCpuStorage at h
  split at h
  · cases h
  split at h
  · cases h
  next hback =>
  split at h
  · cases h
  next hchecks =>
  split at h
  · next cells' capacity hcells hcapacity =>
    split at h
    · cases h
    next hcurrent =>
    obtain rfl := Except.ok.inj h
    obtain ⟨-, -, rfl⟩ := matrixCellCount_eq_some hcells
    rw [not_not.1 hback] at hcurrent
    simp only [rnsResidueStateCurrentForBackend, hipResidentRnsBackend, Bool.false_eq_true, if_false,
      Bool.or_eq_true, Bool.not_eq_true', not_or, Bool.not_eq_false, Bool.and_eq_true,
      not_and] at hcurrent
    refine ⟨rfl, by omega, fun hrequire => ?_⟩
    exact (hcurrent.2 hrequire).1
  · cases h

/-- A lift that was prepared is the one of the matrix, which is current. -/
theorem prepareExactCpuLift_ok {target : ℕ} {lift : ExactCpuLift}
    (h : prepareExactCpuLift ctx matrix target = .ok lift) :
    lift = preparedLift matrix target ∧ matrix.hostResiduesCurrent = true := by
  unfold prepareExactCpuLift at h
  split at h
  · cases h
  next cells hstorage =>
  simp only at h
  split at h
  · cases h
  split at h
  · cases h
  obtain rfl := Except.ok.inj h
  obtain ⟨rfl, -, hcurrent⟩ := exactCpuStorage_ok hstorage
  exact ⟨rfl, hcurrent rfl⟩

/-- A lift that succeeds was asked for planes that a current matrix has. -/
theorem rns8LiftExactWideCpu_accepted {alloc : Bool} {target budget : ℕ}
    (h : (rns8LiftExactWideCpu alloc ctx matrix target budget).1 = .success) :
    matrix.hostResiduesCurrent = true ∧ 0 < target ∧ target ≤ matrix.rnsPrefix := by
  unfold rns8LiftExactWideCpu at h
  split at h
  · next hprepare => exact absurd h (prepareExactCpuLift_error hprepare)
  next hprepare =>
  obtain ⟨-, hcurrent⟩ := prepareExactCpuLift_ok hprepare
  unfold prepareExactCpuLift at hprepare
  split at hprepare
  · cases hprepare
  next hstorage => exact ⟨hcurrent, (exactCpuStorage_ok hstorage).2.1⟩

/-! ### Staging -/

/-- The offset of a cell of a plane, counted by planes and by rows. -/
theorem residueIndex_eq (matrix : RnsMatrix) (p row col : ℕ) : residueIndex matrix p row col =
    matrix.desc.rows * matrix.desc.cols * p + (row * matrix.desc.cols + col) := by
  unfold residueIndex
  ring

/-- A centered residue is one of the bytes that a lift accepts. -/
theorem centeredResidue_accepted (v : ℤ) {modulus : ℕ} (hm : 0 < modulus) (hb : modulus ≤ 256) :
    (decide ((centeredResidue v modulus).toInt < -((modulus : ℤ) / 2)) ||
      decide (((modulus : ℤ) - 1) / 2 < (centeredResidue v modulus).toInt)) = false := by
  rw [centeredResidue_toInt v hm hb]
  have hlo := Int.le_bmod (x := v) hm
  have hhi := Int.bmod_lt (x := v) hm
  simp only [Bool.or_eq_false_iff, decide_eq_false_iff_not]
  omega

/-- **The staged value of a cell is its integer**; none of the rejections is taken. -/
theorem liftCell_eq (hs : ExactStorage matrix) (hm : Proven matrix value) {lift : ExactCpuLift}
    (hsource : lift.sourcePrefix = matrix.exactRangePrefix)
    (hcells : lift.cells = matrix.desc.rows * matrix.desc.cols)
    (hproduct : lift.product = modulusProduct matrix.exactRangePrefix) {row col : ℕ}
    (hrow : row < matrix.desc.rows) (hcol : col < matrix.desc.cols) :
    liftCell matrix lift (row * matrix.desc.cols + col) = .ok (value row col) := by
  have hsupported := hs.prefix_le.2
  have hprefix := hm.prefix_le
  have hread : ∀ p < matrix.exactRangePrefix,
      matrix.residues.cell (lift.cells * p + (row * matrix.desc.cols + col)) =
        centeredResidue (value row col) (modulusAt p) := fun p hp => by
    rw [hcells, ← residueIndex_eq]
    exact hm.planes p hp row hrow col hcol
  -- the stored bytes are centered residues, so none is refused
  have haccepted : ((List.range lift.sourcePrefix).any fun p =>
      decide ((matrix.residues.cell (lift.cells * p + (row * matrix.desc.cols + col))).toInt <
          -((modulusAt p : ℤ) / 2)) ||
        decide (((modulusAt p : ℤ) - 1) / 2 <
          (matrix.residues.cell (lift.cells * p + (row * matrix.desc.cols + col))).toInt)) =
        false := by
    rw [List.any_eq_false]
    intro p hp
    have hp : p < matrix.exactRangePrefix := hsource ▸ List.mem_range.1 hp
    have hp28 : p < 28 := by omega
    rw [hread p hp, centeredResidue_accepted _ (modulusAt_pos hp28) (modulusAt_bounds hp28).2]
    exact Bool.false_ne_true
  -- and they are residues of the integer, which the proven prefix carries
  have hmod : ∀ p < matrix.exactRangePrefix,
      (matrix.residues.cell (lift.cells * p + (row * matrix.desc.cols + col))).toInt ≡
        value row col [ZMOD modulusAt p] := fun p hp => by
    have hp28 : p < 28 := by omega
    rw [hread p hp]
    exact centeredResidue_modEq _ (modulusAt_pos hp28) (modulusAt_bounds hp28).2
  have hmag := hm.range.magnitude row hrow col hcol
  have hfits := hm.fits
  simp only [exactRangeFits, Bool.and_eq_true, decide_eq_true_eq] at hfits
  -- signed values are centered, unsigned ones are canonical
  have hvalue : (if matrix.desc.semantics = .exactWideSigned then
      centeredFromCanonical (reconstructCanonical (fun p => matrix.residues.cell
        (lift.cells * p + (row * matrix.desc.cols + col))) lift.sourcePrefix) lift.product
      else reconstructCanonical (fun p => matrix.residues.cell
        (lift.cells * p + (row * matrix.desc.cols + col))) lift.sourcePrefix) = value row col := by
    rw [hsource, hproduct]
    split
    · next hsigned =>
      rw [if_pos hsigned, decide_eq_true_eq] at hfits
      exact centeredFromCanonical_reconstruct (by omega) hmod (by omega)
    · next hunsigned =>
      rw [if_neg hunsigned, decide_eq_true_eq] at hfits
      have hexact := hs.exact
      have hkind : matrix.desc.semantics = .exactWideUnsigned := by
        cases hk : matrix.desc.semantics <;> simp_all [exactWideSemantics]
      have h0 := hm.nonneg hkind row hrow col hcol
      rw [abs_of_nonneg h0] at hmag
      rw [reconstructCanonical_eq (by omega) hmod]
      exact Int.emod_eq_of_lt h0 (by omega)
  unfold liftCell
  simp only
  rw [haccepted, if_neg Bool.false_ne_true, hvalue, if_neg (not_lt.2 hmag)]

/-- The integer of a cell, by its offset in a plane. -/
def valueAt (matrix : RnsMatrix) (value : ℕ → ℕ → ℤ) (o : ℕ) : ℤ :=
  value (o / matrix.desc.cols) (o % matrix.desc.cols)

/-- What a lift of a proven matrix stages. -/
def stagedLift (matrix : RnsMatrix) (value : ℕ → ℕ → ℤ) (lift : ExactCpuLift) : ExactCpuLift :=
  if lift.stagedCount = 0 then lift
  else
    { lift with
      suffix := fun o => centeredResidue (valueAt matrix value (o % lift.cells))
        (modulusAt (lift.sourcePrefix + o / lift.cells)) }

theorem stageExactCpuLift_eq (hs : ExactStorage matrix) (hm : Proven matrix value) {lift : ExactCpuLift}
    (hsource : lift.sourcePrefix = matrix.exactRangePrefix)
    (hcells : lift.cells = matrix.desc.rows * matrix.desc.cols)
    (hproduct : lift.product = modulusProduct matrix.exactRangePrefix) (alloc : Bool) :
    stageExactCpuLift alloc matrix lift =
      if lift.stagedCount ≠ 0 ∧ alloc = false then .error .internalError
      else .ok (stagedLift matrix value lift) := by
  obtain ⟨⟨hrows, hcols⟩, -⟩ := hs.cells
  have hpos : 0 < lift.cells := by rw [hcells]; exact Nat.mul_pos hrows hcols
  unfold stageExactCpuLift stagedLift
  by_cases hcount : lift.stagedCount = 0
  · rw [if_pos hcount, if_neg (fun h => h.1 hcount), if_pos hcount]
  rw [if_neg hcount, if_neg hcount]
  by_cases halloc : alloc = false
  · rw [if_pos halloc, if_pos ⟨hcount, halloc⟩]
  rw [if_neg halloc, if_neg (fun h => halloc h.2)]
  -- the loop lifts every cell of the plane without a rejection
  have hcell : ∀ one < 1, ∀ cell < lift.cells, liftCell matrix lift cell =
      .ok (valueAt matrix value cell) := by
    intro one _ cell hcell
    rw [hcells] at hcell
    have hcut : cell / matrix.desc.cols * matrix.desc.cols + cell % matrix.desc.cols = cell := by
      rw [Nat.mul_comm]; exact Nat.div_add_mod _ _
    have hrow : cell / matrix.desc.cols < matrix.desc.rows :=
      Nat.div_lt_of_lt_mul (by rwa [Nat.mul_comm] at hcell)
    have hlift := liftCell_eq hs hm hsource hcells hproduct hrow (Nat.mod_lt cell hcols)
    rwa [hcut] at hlift
  obtain ⟨out, hout, hread⟩ := stageCells_of_ok hcell
  rw [hout]
  simp only
  congr 2
  funext o
  rw [hread 0 Nat.one_pos _ (Nat.mod_lt o hpos)]

/-! ### The lifted matrix -/

/-- `matrix` with other cells in its residue storage and another proven prefix. -/
def RnsMatrix.provenTo (matrix : RnsMatrix) (cell : ℕ → Int8) (rnsPrefix : ℕ) : RnsMatrix :=
  { matrix with residues := { matrix.residues with cell }, exactRangePrefix := rnsPrefix }

/-- The cells of a lifted matrix: the planes from the proven prefix to `target` are new. -/
def liftedCells (matrix : RnsMatrix) (value : ℕ → ℕ → ℤ) (target : ℕ) : ℕ → Int8 := fun o =>
  let cells := matrix.desc.rows * matrix.desc.cols
  if cells * matrix.exactRangePrefix ≤ o ∧ o < cells * target then
    centeredResidue (valueAt matrix value (o % cells)) (modulusAt (o / cells))
  else matrix.residues.cell o

/-- The matrix with the planes of the integers up to `target`. -/
def liftedTo (matrix : RnsMatrix) (value : ℕ → ℕ → ℤ) (target : ℕ) : RnsMatrix :=
  if target ≤ matrix.exactRangePrefix then matrix
  else matrix.provenTo (liftedCells matrix value target) target

theorem select_stagedCount (lift : ExactCpuLift) (target : ℕ) (hcells : 0 < lift.cells) :
    (lift.select target).stagedCount = 0 ↔ target ≤ lift.sourcePrefix := by
  unfold ExactCpuLift.select
  simp only
  split
  · next h =>
    have hpos := Nat.mul_pos hcells (Nat.sub_pos_of_lt h)
    omega
  · next h => simpa using h

/-- What a staged lift commits, once its target is chosen. -/
theorem commit_stagedLift (hs : ExactStorage matrix) (target target' : ℕ) :
    commitExactCpuLift matrix (stagedLift matrix value ((preparedLift matrix target).select target')) =
      liftedTo matrix value target' := by
  obtain ⟨⟨hrows, hcols⟩, -⟩ := hs.cells
  have hpos : 0 < matrix.desc.rows * matrix.desc.cols := Nat.mul_pos hrows hcols
  have hzero := select_stagedCount (preparedLift matrix target) target' hpos
  change _ ↔ target' ≤ matrix.exactRangePrefix at hzero
  unfold stagedLift commitExactCpuLift liftedTo
  -- nothing to stage below the proven prefix
  by_cases hle : target' ≤ matrix.exactRangePrefix
  · simp only [if_pos (hzero.2 hle), if_pos hle]
  have hne := mt hzero.1 hle
  simp only [if_neg hne, if_neg hle]
  have hcount : ((preparedLift matrix target).select target').stagedCount =
      matrix.desc.rows * matrix.desc.cols * (target' - matrix.exactRangePrefix) :=
    if_pos (Nat.lt_of_not_le hle)
  rw [hcount]
  have hend : matrix.desc.rows * matrix.desc.cols * matrix.exactRangePrefix +
      matrix.desc.rows * matrix.desc.cols * (target' - matrix.exactRangePrefix) =
        matrix.desc.rows * matrix.desc.cols * target' := by
    rw [← Nat.mul_add]
    congr 1
    omega
  -- the staged planes are copied behind the proven ones
  have hfun : (fun o => if matrix.desc.rows * matrix.desc.cols * matrix.exactRangePrefix ≤ o ∧
        o < matrix.desc.rows * matrix.desc.cols * target' then
      centeredResidue (valueAt matrix value ((o - matrix.desc.rows * matrix.desc.cols *
          matrix.exactRangePrefix) % (matrix.desc.rows * matrix.desc.cols)))
        (modulusAt (matrix.exactRangePrefix + (o - matrix.desc.rows * matrix.desc.cols *
          matrix.exactRangePrefix) / (matrix.desc.rows * matrix.desc.cols)))
      else matrix.residues.cell o) = liftedCells matrix value target' := by
    funext o
    unfold liftedCells
    dsimp only
    split
    · next hin =>
      obtain ⟨r, rfl⟩ := Nat.exists_eq_add_of_le hin.1
      rw [Nat.add_sub_cancel_left, Nat.mul_add_mod, Nat.mul_add_div hpos]
    · rfl
  rw [← hfun, ← hend]
  rfl

/-- **A lift of a proven matrix** stops at its budget or at a failing allocation, before it writes, or
it leaves the matrix with the planes of its integers. -/
theorem rns8LiftExactWideCpu_eq (hs : ExactStorage matrix) (hm : Proven matrix value)
    (hcpu : ctx.backend = .cpuReference) (hcurrent : matrix.hostResiduesCurrent = true) {target : ℕ}
    (h0 : 0 < target) (hle : target ≤ matrix.rnsPrefix) (alloc : Bool) (budget : ℕ) :
    rns8LiftExactWideCpu alloc ctx matrix target budget =
      if budget < (preparedLift matrix target).stagedCount then (.workspaceTooSmall, matrix)
      else if (preparedLift matrix target).stagedCount ≠ 0 ∧ alloc = false then
        (.internalError, matrix)
      else (.success, liftedTo matrix value target) := by
  unfold rns8LiftExactWideCpu
  rw [prepareExactCpuLift_eq hs hm hcpu hcurrent h0 hle]
  simp only
  split
  · rfl
  rw [stageExactCpuLift_eq hs hm rfl rfl rfl alloc]
  by_cases hfail : (preparedLift matrix target).stagedCount ≠ 0 ∧ alloc = false
  · rw [if_pos hfail, if_pos hfail]
  · rw [if_neg hfail, if_neg hfail]
    exact congrArg (Prod.mk Status.success) (commit_stagedLift hs target target)

/-- A lift changes planes and the proven prefix only. -/
theorem liftedTo_keeps (matrix : RnsMatrix) (value : ℕ → ℕ → ℤ) (target : ℕ) :
    liftedTo matrix value target = matrix.provenTo (liftedTo matrix value target).residues.cell
      (max matrix.exactRangePrefix target) := by
  unfold liftedTo
  split
  · next h => rw [max_eq_left h]; rfl
  · next h => rw [max_eq_right (Nat.le_of_not_le h)]; rfl

theorem liftedTo_storage (h : ExactStorage matrix) (target : ℕ) :
    ExactStorage (liftedTo matrix value target) := by
  rw [liftedTo_keeps]
  exact ⟨h.exact, h.backend, h.valid, h.maxPrefix, h.storage⟩

/-- The planes of a lifted matrix hold its integers. -/
theorem liftedTo_read (hm : Proven matrix value) {target p row col : ℕ}
    (hp : p < max matrix.exactRangePrefix target) (hrow : row < matrix.desc.rows)
    (hcol : col < matrix.desc.cols) :
    (liftedTo matrix value target).residues.cell (residueIndex matrix p row col) =
      centeredResidue (value row col) (modulusAt p) := by
  unfold liftedTo
  split
  · next hle => exact hm.planes p (by rwa [max_eq_left hle] at hp) row hrow col hcol
  next hle =>
  rw [max_eq_right (Nat.le_of_not_le hle)] at hp
  change liftedCells matrix value target _ = _
  unfold liftedCells
  dsimp only
  have hin : row * matrix.desc.cols + col < matrix.desc.rows * matrix.desc.cols :=
    RowMajor.offset_lt hcol hrow
  -- a proven plane lies before the copied range, a lifted one inside it
  by_cases hsource : p < matrix.exactRangePrefix
  · rw [if_neg]
    · exact hm.planes p hsource row hrow col hcol
    · rintro ⟨hge, -⟩
      rw [residueIndex_eq] at hge
      have hmul := Nat.mul_le_mul_left (matrix.desc.rows * matrix.desc.cols) hsource
      rw [Nat.mul_succ] at hmul
      omega
  · rw [if_pos, residueIndex_eq, Nat.mul_add_mod, Nat.mod_eq_of_lt hin,
      Nat.mul_add_div (Nat.zero_lt_of_lt hin), Nat.div_eq_of_lt hin, Nat.add_zero, valueAt]
    · obtain ⟨hdiv, hmod⟩ := RowMajor.offset_parts row hcol
      rw [hdiv, hmod]
    · rw [residueIndex_eq]
      have hlo := Nat.mul_le_mul_left (matrix.desc.rows * matrix.desc.cols) (Nat.le_of_not_lt hsource)
      have hhi := Nat.mul_le_mul_left (matrix.desc.rows * matrix.desc.cols) hp
      rw [Nat.mul_succ] at hhi
      omega

/-- **A lifted matrix is proven for the same integers.** -/
theorem liftedTo_proven (hs : ExactStorage matrix) (hm : Proven matrix value) {target : ℕ}
    (hle : target ≤ matrix.rnsPrefix) : Proven (liftedTo matrix value target) value := by
  have hprefix := hm.prefix_le
  have hmax : max matrix.exactRangePrefix target ≤ 28 := by
    have := hs.prefix_le.2
    omega
  have hkeeps := liftedTo_keeps matrix value target
  have hread : ∀ p < max matrix.exactRangePrefix target, ∀ row < matrix.desc.rows,
      ∀ col < matrix.desc.cols, (liftedTo matrix value target).residues.cell
        (residueIndex matrix p row col) = centeredResidue (value row col) (modulusAt p) :=
    fun p hp row hrow col hcol => liftedTo_read hm hp hrow hcol
  generalize (liftedTo matrix value target).residues.cell = cell at hkeeps hread
  rw [hkeeps]
  refine ⟨lt_of_lt_of_le hm.prefix_pos (le_max_left _ _), max_le hprefix hle,
    ⟨hm.range.nonneg, hm.range.magnitude, hm.range.ranges⟩, ?_, hm.nonneg, hread⟩
  have hfits := hm.fits
  -- a magnitude that the proven prefix carries is carried by a longer one
  have hproduct : (modulusProduct matrix.exactRangePrefix : ℤ) ≤
      modulusProduct (max matrix.exactRangePrefix target) := by
    exact_mod_cast modulusProduct_le (le_max_left _ _) hmax
  change exactRangeFits matrix.desc.semantics matrix.exactMaxMagnitude _ = true
  simp only [exactRangeFits, Bool.and_eq_true, decide_eq_true_eq] at hfits ⊢
  refine ⟨hfits.1, ?_⟩
  split
  · next hsigned =>
    have h := hfits.2
    rw [if_pos hsigned, decide_eq_true_eq] at h
    exact decide_eq_true (lt_of_lt_of_le h hproduct)
  · next hunsigned =>
    have h := hfits.2
    rw [if_neg hunsigned, decide_eq_true_eq] at h
    exact decide_eq_true (lt_of_lt_of_le h hproduct)

/-- **Lifts compose**: a lift and a second one are the lift to the longer prefix. -/
theorem liftedTo_liftedTo (matrix : RnsMatrix) (value : ℕ → ℕ → ℤ) (target target' : ℕ) :
    liftedTo (liftedTo matrix value target) value target' =
      liftedTo matrix value (max target target') := by
  by_cases hle : target ≤ matrix.exactRangePrefix
  · have hfirst : liftedTo matrix value target = matrix := if_pos hle
    rw [hfirst]
    unfold liftedTo
    by_cases hle' : target' ≤ matrix.exactRangePrefix
    · rw [if_pos hle', if_pos (max_le hle hle')]
    · rw [max_eq_right (hle.trans (Nat.le_of_not_le hle'))]
  have hlt := Nat.lt_of_not_le hle
  have hfirst : liftedTo matrix value target =
      matrix.provenTo (liftedCells matrix value target) target := if_neg hle
  by_cases hle' : target' ≤ target
  · rw [max_eq_left hle', hfirst]
    exact if_pos hle'
  have hlt' := Nat.lt_of_not_le hle'
  have hdirect : liftedTo matrix value target' =
      matrix.provenTo (liftedCells matrix value target') target' := if_neg (by omega)
  have hsecond : liftedTo (matrix.provenTo (liftedCells matrix value target) target) value target' =
      matrix.provenTo (liftedCells (matrix.provenTo (liftedCells matrix value target) target) value
        target') target' := if_neg hle'
  rw [max_eq_right hlt'.le, hfirst, hsecond, hdirect]
  congr 1
  funext o
  -- the two suffixes are adjacent
  have h1 := Nat.mul_le_mul_left (matrix.desc.rows * matrix.desc.cols) hlt.le
  have h2 := Nat.mul_le_mul_left (matrix.desc.rows * matrix.desc.cols) hlt'.le
  change (if matrix.desc.rows * matrix.desc.cols * target ≤ o ∧
      o < matrix.desc.rows * matrix.desc.cols * target' then
    centeredResidue (valueAt matrix value (o % (matrix.desc.rows * matrix.desc.cols)))
      (modulusAt (o / (matrix.desc.rows * matrix.desc.cols)))
    else liftedCells matrix value target o) = liftedCells matrix value target' o
  unfold liftedCells
  dsimp only
  split_ifs <;> first | rfl | omega

/-- **The planes of a lifted matrix are those of a pack** of its integers into as many planes. -/
theorem liftedTo_packed (hs : ExactStorage matrix) (hm : Proven matrix value) {target q : ℕ}
    (hq : q ≤ max matrix.exactRangePrefix target) (fresh : ℕ → Int8) {o : ℕ}
    (ho : o < q * (matrix.desc.rows * matrix.desc.cols)) :
    (liftedTo matrix value target).residues.cell o =
      packPlanes q matrix.desc.rows matrix.desc.cols modulusAt value fresh o := by
  obtain ⟨⟨hrows, hcols⟩, -⟩ := hs.cells
  have hcells : 0 < matrix.desc.rows * matrix.desc.cols := Nat.mul_pos hrows hcols
  have hp : o / (matrix.desc.rows * matrix.desc.cols) < q :=
    Nat.div_lt_of_lt_mul (by rwa [Nat.mul_comm] at ho)
  have hcell := Nat.mod_lt o hcells
  have hrow : o % (matrix.desc.rows * matrix.desc.cols) / matrix.desc.cols < matrix.desc.rows :=
    Nat.div_lt_of_lt_mul (lt_of_lt_of_eq hcell (Nat.mul_comm _ _))
  have hcol := Nat.mod_lt (o % (matrix.desc.rows * matrix.desc.cols)) hcols
  have hindex : residueIndex matrix (o / (matrix.desc.rows * matrix.desc.cols))
      (o % (matrix.desc.rows * matrix.desc.cols) / matrix.desc.cols)
      (o % (matrix.desc.rows * matrix.desc.cols) % matrix.desc.cols) = o := by
    rw [residueIndex_eq, Nat.div_add_mod', Nat.div_add_mod]
  have hread := liftedTo_read hm (lt_of_lt_of_le hp hq) hrow hcol
  have hpack := packPlanes_read modulusAt value fresh hp hrow hcol
  change packPlanes _ _ _ _ _ _ (residueIndex matrix _ _ _) = _ at hpack
  rw [hindex] at hread hpack
  rw [hread, hpack]

end Lifts

end Rns8
