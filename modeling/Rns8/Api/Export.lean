import Rns8.Api.Gemm
import Rns8.Reconstruct.Crt

/-!
# The export entry points

`api_export.cpp`. On a host-resident backend the cells are reconstructed into a staging buffer, which
reaches the destination only when no cell failed: the first failing cell decides the status. On a
device-resident backend the outcome is the environment's.
-/

namespace Rns8

open ByteLimbs

/-! ### Validation -/

/-- `validate_export_matrix`. -/
def validateExportMatrix (ctx : Context) (plan : Plan) (C : RnsMatrix) (semantics : Semantics)
    (boundKind : BoundKind) (rnsPrefix : ℕ) : Status :=
  let storagePrefix := if usesRnsStorage semantics then rnsStoragePrefixForPlan plan else rnsPrefix
  let storageBoundKind := if usesRnsStorage semantics then storageBoundKindForPlan plan else boundKind
  if !planScheduleContractMatches plan then .invalidArgument
  else if !contextAcceptsBackend ctx plan.backend ||
      !matrixBackendCompatibleWithPlan ctx C plan.backend ||
      decide (plan.desc.semantics ≠ semantics) then .invalidArgument
  else if hipDeviceBackend plan.backend = true ∧ C.hipDeviceId ≠ ctx.deviceId then .invalidArgument
  else if !matrixDescriptorMatches C semantics storageBoundKind plan.desc.m plan.desc.n storagePrefix
      plan.desc.tileM plan.desc.tileN then .invalidArgument
  else if nativeVectorBackend plan.backend then
    if boundedNativeStorageMatches C semantics plan.desc.m plan.desc.n &&
      boundedNativeStateCurrent C then .success else .invalidArgument
  else if usesRnsStorage semantics = true ∧
      (rnsMatrixStorageMatches C plan.backend plan.desc.m plan.desc.n storagePrefix = false ∨
        rnsResidueStateCurrentForBackend C plan.backend = false) then .invalidArgument
  else if exactWideSemantics semantics = true ∧ C.exactRangePrefix ≠ 0 ∧
      (C.exactRangePrefix < rnsPrefix ∨
        exactRangeFits semantics C.exactMaxMagnitude plan.modulusProduct = false) then .rangeError
  else if semantics = .wrapU64Mod2_64 ∧
      (wrapMatrixStorageMatches C plan.backend plan.desc.m plan.desc.n = false ∨
        wrapByteLimbStateCurrentForBackend C plan.backend = false) then .invalidArgument
  else .success

/-- `validate_finite_export_matrix`. -/
def validateFiniteExportMatrix (ctx : Context) (plan : Plan) (modulus : ℕ) (C : RnsMatrix) : Status :=
  if !planScheduleContractMatches plan || !usesFiniteStorage plan.desc.semantics ||
      !validFiniteModulusForSemantics plan.desc.semantics modulus ||
      decide (plan.desc.finiteModulus ≠ modulus) then .invalidArgument
  else if !contextAcceptsBackend ctx plan.backend ||
      !matrixBackendCompatibleWithPlan ctx C plan.backend then .invalidArgument
  else if hipResidentRnsBackend plan.backend = true ∧ C.hipDeviceId ≠ ctx.deviceId then .invalidArgument
  else if !matrixDescriptorMatches C plan.desc.semantics .none plan.desc.m plan.desc.n 0 plan.desc.tileM
      plan.desc.tileN then .invalidArgument
  else if !finiteMatrixStorageMatches C plan.backend plan.desc.m plan.desc.n ||
      !rnsResidueStateCurrentForBackend C plan.backend || decide (C.finiteModulus ≠ modulus) then
    .invalidArgument
  else .success

/-- `valid_limb_export_access`. -/
def validLimbExportAccess (rows cols ld limbCount : ℕ) : Bool :=
  validMatrixAccess rows cols ld && decide (limbCount ≠ 0) && decide (limbCount ≤ 32) &&
    decide (ld ≤ int64Max / limbCount) && decide (rows ≤ int64Max / (ld * limbCount))

/-! ### Staging -/

/-- `gather_cell_residues`. -/
def gatherCellResidues (matrix : RnsMatrix) (row col : ℕ) : ℕ → Int8 :=
  fun p => matrix.residues.cell (residueIndex matrix p row col)

/-- The status of a cell, `cell_status[index]`. -/
def cellStatus {β : Type} : Except Status β → Status
  | .ok _ => .success
  | .error status => status

/-- The staged cells: the first cell that failed decides the status. -/
def stageCells {β : Type} [Inhabited β] (m n : ℕ) (cell : ℕ → ℕ → Except Status β) :
    Except Status (ℕ → ℕ → β) :=
  match (List.range (m * n)).find? fun i => decide (cellStatus (cell (i / n) (i % n)) ≠ .success) with
  | some i => .error (cellStatus (cell (i / n) (i % n)))
  | none => .ok fun row col => match cell row col with
    | .ok value => value
    | .error _ => default

/-- `dst[row * ld + col] = value(row, col)` over all cells, row by row. -/
def storeCells {β : Type} (rows : RowSchedule) (m n ld : ℕ) (value : ℕ → ℕ → β) (dst : ℕ → β) :
    ℕ → β :=
  (rows.order m).foldl (fun dst row => (List.range n).foldl
    (fun dst col => Function.update dst (row * ld + col) (value row col)) dst) dst

/-- The words of a limb export: word `i` of the cell at `row` and `col` is
`dst[(row * ld + col) * limb_count + i]`. -/
def storeLimbs (m n ld limbCount : ℕ) (value : ℕ → ℕ → ℕ → UInt64) (dst : ℕ → UInt64) : ℕ → UInt64 :=
  (List.range m).foldl (fun dst row => (List.range n).foldl (fun dst col =>
    (List.range limbCount).foldl (fun dst i =>
      Function.update dst ((row * ld + col) * limbCount + i) (value row col i)) dst) dst) dst

/-- The end of an export: the destination is written only on success. -/
def exportInto {β γ : Type} (store : (ℕ → ℕ → β) → (ℕ → γ) → ℕ → γ) (dst : ℕ → γ) :
    Except Status (ℕ → ℕ → β) → Status × (ℕ → γ)
  | .ok value => (.success, store value dst)
  | .error status => (status, dst)

/-- What the environment answers during an export: the allocation of the staging buffers, the status
and destination of a device export, and the order of the rows that the parallel loops write. -/
structure ExportEnv (β : Type) where
  staged : Bool
  device : Status × (ℕ → β)
  rows : RowSchedule

/-! ### The entry points -/

/-- The cell of `rns8_export_i64`. -/
def exportCellI64 (plan : Plan) (C : RnsMatrix) (row col : ℕ) : Except Status Int64 :=
  if zeroOutputForCell plan row col then .ok 0
  else reconstructSigned (gatherCellResidues C row col) (selectedPrefixForCell plan row col)
    (boundForCell plan row col)

/-- The cell of `rns8_export_u64`. -/
def exportCellU64 (plan : Plan) (C : RnsMatrix) (row col : ℕ) : Except Status UInt64 :=
  if zeroOutputForCell plan row col then .ok 0
  else reconstructUnsigned (gatherCellResidues C row col) (selectedPrefixForCell plan row col)
    (boundForCell plan row col)

/-- The body of a residue export: `cell` reconstructs a cell on the host. -/
def exportResidues {β γ : Type} [Inhabited β] (env : ExportEnv γ) (ctx : Context) (plan : Plan)
    (C : RnsMatrix) (semantics : Semantics) (boundKind : BoundKind)
    (cell : ℕ → ℕ → Except Status β) (store : (ℕ → ℕ → β) → (ℕ → γ) → ℕ → γ) (dst : ℕ → γ) :
    Status × (ℕ → γ) :=
  let exportStatus := validateExportMatrix ctx plan C semantics boundKind plan.rnsPrefix
  if exportStatus ≠ .success then (exportStatus, dst)
  else if hipDeviceBackend plan.backend then env.device
  else if env.staged = false then (.internalError, dst)
  else exportInto store dst (stageCells plan.desc.m plan.desc.n cell)

/-- `rns8_export_i64`. -/
def rns8ExportI64 (env : ExportEnv Int64) (ctx : Context) (plan : Plan) (C : RnsMatrix)
    (dst : ℕ → Int64) (ld : ℕ) : Status × (ℕ → Int64) :=
  if !validMatrixAccess plan.desc.m plan.desc.n ld then (.invalidArgument, dst)
  else exportResidues env ctx plan C .boundedI64 plan.desc.boundKind (exportCellI64 plan C)
    (storeCells serialRows plan.desc.m plan.desc.n ld) dst

/-- `rns8_export_u64`. -/
def rns8ExportU64 (env : ExportEnv UInt64) (ctx : Context) (plan : Plan) (C : RnsMatrix)
    (dst : ℕ → UInt64) (ld : ℕ) : Status × (ℕ → UInt64) :=
  if !validMatrixAccess plan.desc.m plan.desc.n ld then (.invalidArgument, dst)
  else exportResidues env ctx plan C .boundedU64 plan.desc.boundKind (exportCellU64 plan C)
    (storeCells serialRows plan.desc.m plan.desc.n ld) dst

/-- `rns8_export_exact_wide_signed_limbs`. -/
def rns8ExportExactWideSignedLimbs (env : ExportEnv UInt64) (ctx : Context) (plan : Plan)
    (C : RnsMatrix) (dst : ℕ → UInt64) (ld limbCount : ℕ) : Status × (ℕ → UInt64) :=
  if !validLimbExportAccess plan.desc.m plan.desc.n ld limbCount then (.invalidArgument, dst)
  else exportResidues env ctx plan C .exactWideSigned .none (fun row col =>
    exportExactWideSignedLimbs (gatherCellResidues C row col) plan.rnsPrefix limbCount)
    (storeLimbs plan.desc.m plan.desc.n ld limbCount) dst

/-- `rns8_export_exact_wide_unsigned_limbs`. -/
def rns8ExportExactWideUnsignedLimbs (env : ExportEnv UInt64) (ctx : Context) (plan : Plan)
    (C : RnsMatrix) (dst : ℕ → UInt64) (ld limbCount : ℕ) : Status × (ℕ → UInt64) :=
  if !validLimbExportAccess plan.desc.m plan.desc.n ld limbCount then (.invalidArgument, dst)
  else exportResidues env ctx plan C .exactWideUnsigned .none (fun row col =>
    exportExactWideUnsignedLimbs (gatherCellResidues C row col) plan.rnsPrefix limbCount)
    (storeLimbs plan.desc.m plan.desc.n ld limbCount) dst

/-- `rns8_export_wrap_u64`. -/
def rns8ExportWrapU64 (env : ExportEnv UInt64) (ctx : Context) (plan : Plan) (C : RnsMatrix)
    (dst : ℕ → UInt64) (ld : ℕ) : Status × (ℕ → UInt64) :=
  if !validMatrixAccess plan.desc.m plan.desc.n ld then (.invalidArgument, dst)
  else
    let exportStatus := validateExportMatrix ctx plan C .wrapU64Mod2_64 .none 0
    if exportStatus ≠ .success then (exportStatus, dst)
    else if plan.backend = .wrap64ByteLimb then
      if !C.hostByteLimbsCurrent then (.invalidArgument, dst)
      else
        let operand : PlaneOperand Unit := ⟨(), C.desc.rows, C.desc.cols⟩
        (.success, storeCells env.rows plan.desc.m plan.desc.n ld
          (operand.wrapCell fun _ => C.byteLimbs.cell) dst)
    else if plan.backend = .hipDirect then env.device
    else (.unsupportedBackend, dst)

/-- `rns8_export_finite_u8`. -/
def rns8ExportFiniteU8 (env : ExportEnv UInt8) (ctx : Context) (plan : Plan) (modulus : ℕ)
    (C : RnsMatrix) (dst : ℕ → UInt8) (ld : ℕ) : Status × (ℕ → UInt8) :=
  if !validMatrixAccess plan.desc.m plan.desc.n ld then (.invalidArgument, dst)
  else
    let exportStatus := validateFiniteExportMatrix ctx plan modulus C
    if exportStatus ≠ .success then (exportStatus, dst)
    else if hipResidentRnsBackend plan.backend then env.device
    else if plan.backend = .cpuReference then
      (.success, storeCells env.rows C.desc.rows C.desc.cols ld (fun row col => UInt8.ofNat
        (canonicalFromCentered (C.residues.cell (row * C.desc.cols + col)) modulus).toNat) dst)
    else (.unsupportedBackend, dst)

/-! ### What staging delivers -/

section Staging

variable {β : Type} [Inhabited β] {m n ld : ℕ} {cell : ℕ → ℕ → Except Status β}
  {value : ℕ → ℕ → β}

/-- Every row-major index of the output is a cell, and every cell has one. -/
theorem cell_of_index {i : ℕ} (hi : i < m * n) : i / n < m ∧ i % n < n := by
  have hn : 0 < n := by
    rcases Nat.eq_zero_or_pos n with rfl | hn
    · simp at hi
    · exact hn
  exact ⟨Nat.div_lt_of_lt_mul (by rwa [Nat.mul_comm] at hi), Nat.mod_lt _ hn⟩

theorem index_of_cell {row col : ℕ} (hrow : row < m) (hcol : col < n) :
    ∃ i ∈ List.range (m * n), i / n = row ∧ i % n = col := by
  refine ⟨row * n + col, List.mem_range.2 (RowMajor.offset_lt hcol hrow), ?_, ?_⟩
  · rw [Nat.mul_comm, Nat.mul_add_div (by omega), Nat.div_eq_of_lt hcol, Nat.add_zero]
  · rw [Nat.mul_comm, Nat.mul_add_mod, Nat.mod_eq_of_lt hcol]

omit [Inhabited β] in
theorem cellStatus_eq_success {e : Except Status β} (h : cellStatus e = .success)
    (hne : e ≠ .error .success) : ∃ value, e = .ok value := by
  cases e with
  | ok value => exact ⟨value, rfl⟩
  | error status => exact absurd (by rw [show status = .success from h]) hne

/-- Staging succeeds when every cell does, with the cells' values. -/
theorem stageCells_of_ok (h : ∀ row < m, ∀ col < n, cell row col = .ok (value row col)) :
    ∃ out, stageCells m n cell = .ok out ∧ ∀ row < m, ∀ col < n, out row col = value row col := by
  have hnone : ((List.range (m * n)).find? fun i =>
      decide (cellStatus (cell (i / n) (i % n)) ≠ .success)) = none := by
    rw [List.find?_eq_none]
    intro i hi
    obtain ⟨h1, h2⟩ := cell_of_index (List.mem_range.1 hi)
    simp [h _ h1 _ h2, cellStatus]
  refine ⟨_, by rw [stageCells, hnone], fun row hrow col hcol => ?_⟩
  simp only [h row hrow col hcol]

/-- A staged cell has the value of the cell. -/
theorem stageCells_ok {out : ℕ → ℕ → β} (h : stageCells m n cell = .ok out)
    (hne : ∀ row col, cell row col ≠ .error .success) {row col : ℕ} (hrow : row < m) (hcol : col < n) :
    cell row col = .ok (out row col) := by
  unfold stageCells at h
  split at h
  · cases h
  · next hnone =>
    obtain rfl := Except.ok.inj h
    obtain ⟨i, hi, rfl, rfl⟩ := index_of_cell hrow hcol
    have hs := List.find?_eq_none.1 hnone i hi
    simp only [decide_eq_true_eq, not_not] at hs
    obtain ⟨v, hv⟩ := cellStatus_eq_success hs (hne _ _)
    simp only [hv]

/-- Staging fails with the status of a cell that failed. -/
theorem stageCells_error {status : Status} (h : stageCells m n cell = .error status) :
    ∃ row < m, ∃ col < n, cell row col = .error status := by
  unfold stageCells at h
  split at h
  · next i hi =>
    have hmem := List.mem_of_find?_eq_some hi
    have hs := List.find?_some hi
    obtain ⟨h1, h2⟩ := cell_of_index (List.mem_range.1 hmem)
    refine ⟨_, h1, _, h2, ?_⟩
    simp only [decide_eq_true_eq] at hs
    have h := Except.error.inj h
    cases hc : cell (i / n) (i % n) with
    | ok value => rw [hc] at hs; exact absurd rfl hs
    | error status' => rw [hc] at h; rw [← h]; rfl
  · cases h

omit [Inhabited β] in
/-- **The stores of an export**: the `m * n` cells, each with its value. -/
theorem storeCells_stores (rows : RowSchedule) (hld : n ≤ ld) :
    LoopFold.Stores (storeCells rows m n ld value)
      (fun o => ∃ row < m, ∃ col < n, o = row * ld + col) fun o => value (o / ld) (o % ld) := by
  have hrow : ∀ row ∈ rows.order m, LoopFold.Stores
      (fun dst => (List.range n).foldl
        (fun dst col => Function.update dst (row * ld + col) (value row col)) dst)
      (fun o => ∃ col ∈ List.range n, o = row * ld + col) fun o => value (o / ld) (o % ld) := by
    intro row _
    refine LoopFold.Stores.foldl fun col hcol => LoopFold.stores_update _ _ ?_
    obtain ⟨hdiv, hmod⟩ := RowMajor.offset_parts row (lt_of_lt_of_le (List.mem_range.1 hcol) hld)
    rw [hdiv, hmod]
  refine (LoopFold.Stores.foldl hrow).congr fun o => ?_
  simp only [(rows.perm m).mem_iff, List.mem_range]

omit [Inhabited β] in
/-- The order of the rows does not matter. -/
theorem storeCells_serial (rows : RowSchedule) (hld : n ≤ ld) :
    storeCells rows m n ld value = storeCells serialRows m n ld value :=
  (storeCells_stores rows hld).unique (storeCells_stores serialRows hld)

omit [Inhabited β] in
theorem storeCells_read (rows : RowSchedule) (dst : ℕ → β) {row col : ℕ} (hrow : row < m)
    (hcol : col < n) (hld : n ≤ ld) :
    storeCells rows m n ld value dst (row * ld + col) = value row col := by
  obtain ⟨hdiv, hmod⟩ := RowMajor.offset_parts row (lt_of_lt_of_le hcol hld)
  rw [(storeCells_stores rows hld dst _).1 ⟨row, hrow, col, hcol, rfl⟩]
  simp only [hdiv, hmod]

/-- **The stores of a limb export**: all limbs of the `m * n` cells. -/
theorem storeLimbs_stores {limbCount : ℕ} {value : ℕ → ℕ → ℕ → UInt64} (hld : n ≤ ld) :
    LoopFold.Stores (storeLimbs m n ld limbCount value)
      (fun o => ∃ row < m, ∃ col < n, ∃ i < limbCount, o = (row * ld + col) * limbCount + i)
      fun o => value (o / limbCount / ld) (o / limbCount % ld) (o % limbCount) := by
  have hcell : ∀ row, ∀ col < n, LoopFold.Stores
      (fun dst => (List.range limbCount).foldl (fun dst i =>
        Function.update dst ((row * ld + col) * limbCount + i) (value row col i)) dst)
      (fun o => ∃ i ∈ List.range limbCount, o = (row * ld + col) * limbCount + i)
      fun o => value (o / limbCount / ld) (o / limbCount % ld) (o % limbCount) := by
    intro row col hcol
    refine LoopFold.Stores.foldl fun i hi => LoopFold.stores_update _ _ ?_
    obtain ⟨hdiv, hmod⟩ := RowMajor.offset_parts (row * ld + col) (List.mem_range.1 hi)
    obtain ⟨hrow', hcol'⟩ := RowMajor.offset_parts row (lt_of_lt_of_le hcol hld)
    rw [hdiv, hmod, hrow', hcol']
  have hrow : ∀ row ∈ List.range m, _ := fun row _ =>
    LoopFold.Stores.foldl fun col hcol => hcell row col (List.mem_range.1 hcol)
  refine (LoopFold.Stores.foldl hrow).congr fun o => ?_
  simp only [List.mem_range]

end Staging

end Rns8
