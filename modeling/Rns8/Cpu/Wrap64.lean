import Rns8.Cpu.GemmRns
import Rns8.Lib.ByteLimbs

/-!
# The wrapping GEMM of the CPU reference

`cpu_gemm_wrap_u64` run by a team over the byte-limb storage of all matrices. A row is accumulated
before any of its bytes is stored, and stored byte by byte, so that a worker which reads a row of an
output that is also the right operand may find it stored in part.
-/

namespace Rns8

open ByteLimbs

/-- The bytes of every byte-limb buffer. -/
abbrev Limbs (ι : Type) := ι → ℕ → UInt8

variable {ι : Type} [DecidableEq ι]

/-- `wrap_byte_limb_index`. -/
def PlaneOperand.limbIndex (M : PlaneOperand ι) (row col limb : ℕ) : ℕ :=
  (row * M.cols + col) * 8 + limb

/-- `wrap_u64_matrix_cell`. -/
def PlaneOperand.wrapCell (M : PlaneOperand ι) (mem : Limbs ι) (row col : ℕ) : UInt64 :=
  load fun l => mem M.buf (M.limbIndex row col l)

/-- What `cpu_gemm_wrap_u64` is run with. -/
structure WrapArgs (ι : Type) where
  A : PlaneOperand ι
  B : PlaneOperand ι
  C : PlaneOperand ι
  m : ℕ
  n : ℕ
  k : ℕ

variable (g : WrapArgs ι)

/-- `row_acc[col]` after the first `kk` passes, modulo `2 ^ 64`. -/
def wrapPartial (mem : Limbs ι) (row col kk : ℕ) : UInt64 :=
  (List.range kk).foldl
    (fun acc kk => acc + g.A.wrapCell mem row kk * g.B.wrapCell mem kk col) 0

/-- The dot product of a row with a column, modulo `2 ^ 64`. -/
def wrapRowAcc (mem : Limbs ι) (row col : ℕ) : UInt64 := wrapPartial g mem row col g.k

/-- The byte-limb buffers and the row accumulator of every worker. -/
structure WrapState (ι : Type) where
  mem : Limbs ι
  acc : ℕ → ℕ → UInt64

/-- One action of a worker. -/
def wrapStep (s : WrapState ι) : ℕ × WrapAction → WrapState ι
  | (w, .clearAcc) => { s with acc := Function.update s.acc w fun _ => 0 }
  | (w, .accumulate row kk col) =>
    { s with
      acc := Function.update s.acc w (Function.update (s.acc w) col
        (s.acc w col + g.A.wrapCell s.mem row kk * g.B.wrapCell s.mem kk col)) }
  | (w, .store row i) =>
    { s with
      mem := fun b o => if b = g.C.buf ∧ o = g.C.limbIndex row (i / 8) (i % 8) then
        limb (s.acc w (i / 8)) (i % 8) else s.mem b o }

/-- The row loop of `cpu_gemm_wrap_u64`; the accumulators start out as vectors of zeros. -/
def wrapLoop (team : RowTeam WrapAction) (mem : Limbs ι) : Limbs ι :=
  (LabelledRun.exec (wrapStep g) ⟨mem, fun _ _ => 0⟩
    (team.events g.m (wrapRowActions g.n g.k))).mem

omit [DecidableEq ι] in
theorem wrapPartial_succ (mem : Limbs ι) (row col kk : ℕ) : wrapPartial g mem row col (kk + 1) =
    wrapPartial g mem row col kk + g.A.wrapCell mem row kk * g.B.wrapCell mem kk col := by
  rw [wrapPartial, List.range_succ, List.foldl_append]
  rfl

omit [DecidableEq ι] in
/-- The accumulator of a row is the dot product modulo `2 ^ 64`. -/
theorem wrapRowAcc_eq (mem : Limbs ι) (row col : ℕ) :
    wrapRowAcc g mem row col = UInt64.ofNat (∑ kk ∈ Finset.range g.k,
      (g.A.wrapCell mem row kk).toNat * (g.B.wrapCell mem kk col).toNat) := by
  unfold wrapRowAcc
  induction g.k with
  | zero => rfl
  | succ k ih =>
    rw [wrapPartial_succ, ih, Finset.sum_range_succ, UInt64.ofNat_add, UInt64.ofNat_mul,
      UInt64.ofNat_toNat, UInt64.ofNat_toNat]

omit [DecidableEq ι] in
theorem limbIndex_inj {M : PlaneOperand ι} {row col l row' col' l' : ℕ} (hcol : col < M.cols)
    (hcol' : col' < M.cols) (hl : l < 8) (hl' : l' < 8)
    (h : M.limbIndex row col l = M.limbIndex row' col' l') : row = row' ∧ col = col' ∧ l = l' := by
  obtain ⟨hcell, rfl⟩ := RowMajor.eq_of_offset_eq hl hl' h
  obtain ⟨rfl, rfl⟩ := RowMajor.eq_of_offset_eq hcol hcol' hcell
  exact ⟨rfl, rfl, rfl⟩

/-- The loop changes no buffer but the output's. -/
theorem wrapLoop_of_ne (team : RowTeam WrapAction) (mem : Limbs ι) {b : ι} (hb : b ≠ g.C.buf) :
    wrapLoop g team mem b = mem b := by
  refine LoopFold.foldl_read_of_frame (fun s : WrapState ι => s.mem b) (fun s e _ => ?_) _
  obtain ⟨w, a⟩ := e
  cases a with
  | clearAcc => rfl
  | accumulate row kk col => rfl
  | store row i =>
    funext o
    exact if_neg fun h => hb h.1

/-! ### The entry point -/

/-- The bytes of the byte-limb storage of every live matrix. -/
def Store.limbs (s : Store) : Limbs Handle := fun h => match s h with
  | some matrix => matrix.byteLimbs.cell
  | none => fun _ => 0

/-- `wrap64_cpu_plan_metadata_is_clean`. -/
def wrap64CpuPlanMetadataIsClean (plan : Plan) : Bool :=
  plan.desc.tileBounds.isNone && decide (plan.desc.tileBoundsCount = 0) && plan.tileBounds.isEmpty &&
    plan.tileSchedule.isEmpty && decide (plan.scheduleMinRequiredPrefix = 0) &&
    decide (plan.scheduleMaxRequiredPrefix = 0) && decide (plan.scheduleMinSelectedPrefix = 0) &&
    decide (plan.scheduleMaxSelectedPrefix = 0) && decide (plan.schedulePrefixGroupCount = 0) &&
    decide (plan.scheduleRangeBitLength = 0) && !plan.scheduleAdaptivePrefixActive &&
    !plan.scheduleAdaptiveSkipActive && decide (plan.scheduleFlags = ({} : TileFlags))

/-- `wrap64_cpu_storage_matches`. -/
def wrap64CpuStorageMatches (matrix : RnsMatrix) (rows cols : ℕ) : Bool :=
  match wrapByteLimbBytes rows cols with
  | none => false
  | some expectedLimbs =>
    matrix.backend == .wrap64ByteLimb && matrix.desc.semantics == .wrapU64Mod2_64 &&
      matrix.desc.boundKind == .none && decide (matrix.desc.rows = rows) &&
      decide (matrix.desc.cols = cols) && matrix.desc.logicalLayout == .rowMajor &&
      decide (matrix.desc.cols ≤ matrix.desc.logicalLd) && decide (matrix.rnsPrefix = 0) &&
      decide (matrix.desc.maxPrefix = 0) && decide (matrix.residues.size = 0) &&
      decide (matrix.byteLimbs.size = expectedLimbs) && !matrix.hostResiduesCurrent &&
      !matrix.deviceResiduesCurrent && !matrix.deviceByteLimbsCurrent &&
      matrix.hipResidues.isNone && matrix.hipByteLimbs.isNone && decide (matrix.hipUploadBytes = 0) &&
      decide (matrix.hipExportBytes = 0) && decide (matrix.hipStatusBytes = 0)

/-- The row loop of a plan over three matrices. -/
def wrapArgs (plan : Plan) (a b c : Handle) (A B C : RnsMatrix) : WrapArgs Handle :=
  ⟨A.operand a, B.operand b, C.operand c, plan.desc.m, plan.desc.n, plan.desc.k⟩

/-- `cpu_gemm_wrap_u64`. The accumulator of a row is allocated before the first row is written. -/
def cpuGemmWrapU64 (env : CpuEnv) (plan : Plan) (a b c : Handle) (A B C : RnsMatrix)
    (mem : Limbs Handle) : Status × Limbs Handle :=
  if plan.backend ≠ .wrap64ByteLimb ∨ plan.desc.semantics ≠ .wrapU64Mod2_64 ∨
      plan.desc.boundKind ≠ .none ∨ plan.desc.bound ≠ 0 ∨ plan.rnsPrefix ≠ 0 ∨
      plan.desc.maxPrefix ≠ 0 ∨ wrap64CpuPlanMetadataIsClean plan = false then
    (.invalidArgument, mem)
  else if !wrap64CpuStorageMatches A plan.desc.m plan.desc.k ||
      !wrap64CpuStorageMatches B plan.desc.k plan.desc.n ||
      !wrap64CpuStorageMatches C plan.desc.m plan.desc.n then (.invalidArgument, mem)
  else if !A.hostByteLimbsCurrent || !B.hostByteLimbsCurrent then (.invalidArgument, mem)
  else if !env.allocOk 0 then (.internalError, mem)
  else (.success, wrapLoop (wrapArgs plan a b c A B C) env.wrapTeam mem)

/-- Storage that matches has the dimensions it is matched against. -/
theorem wrap64CpuStorageMatches_dims {matrix : RnsMatrix} {rows cols : ℕ}
    (h : wrap64CpuStorageMatches matrix rows cols = true) :
    matrix.desc.rows = rows ∧ matrix.desc.cols = cols := by
  unfold wrap64CpuStorageMatches at h
  split at h
  · cases h
  · simp only [Bool.and_eq_true, decide_eq_true_eq] at h
    tauto

/-- A wrapping GEMM that fails has written nothing, and one that succeeds has run its row loop. -/
theorem cpuGemmWrapU64_cases (env : CpuEnv) (plan : Plan) (a b c : Handle) (A B C : RnsMatrix)
    (mem : Limbs Handle) :
    ((cpuGemmWrapU64 env plan a b c A B C mem).1 ≠ .success ∧
        (cpuGemmWrapU64 env plan a b c A B C mem).2 = mem) ∨
      ((A.desc.cols = plan.desc.k ∧ B.desc.cols = plan.desc.n ∧ C.desc.cols = plan.desc.n) ∧
        cpuGemmWrapU64 env plan a b c A B C mem =
          (.success, wrapLoop (wrapArgs plan a b c A B C) env.wrapTeam mem)) := by
  unfold cpuGemmWrapU64
  split
  · exact Or.inl ⟨by simp, rfl⟩
  · split
    · exact Or.inl ⟨by simp, rfl⟩
    · next hst =>
      simp only [Bool.or_eq_true, Bool.not_eq_true', not_or, Bool.not_eq_false] at hst
      split
      · exact Or.inl ⟨by simp, rfl⟩
      · split
        · exact Or.inl ⟨by simp, rfl⟩
        · exact Or.inr ⟨⟨(wrap64CpuStorageMatches_dims hst.1.1).2,
            (wrap64CpuStorageMatches_dims hst.1.2).2, (wrap64CpuStorageMatches_dims hst.2).2⟩, rfl⟩

/-- Whether `cpu_gemm_wrap_u64` reaches its row loop does not depend on what happens in it. -/
theorem cpuGemmWrapU64_of_success {env : CpuEnv} {plan : Plan} {a b c : Handle} {A B C : RnsMatrix}
    {mem : Limbs Handle} (h : (cpuGemmWrapU64 env plan a b c A B C mem).1 = .success) :
    (A.desc.cols = plan.desc.k ∧ B.desc.cols = plan.desc.n ∧ C.desc.cols = plan.desc.n) ∧
      ∀ cpu : CpuEnv, cpu.allocOk 0 = true → cpuGemmWrapU64 cpu plan a b c A B C mem =
        (.success, wrapLoop (wrapArgs plan a b c A B C) cpu.wrapTeam mem) := by
  have hdims : A.desc.cols = plan.desc.k ∧ B.desc.cols = plan.desc.n ∧ C.desc.cols = plan.desc.n := by
    rcases cpuGemmWrapU64_cases env plan a b c A B C mem with ⟨hst, -⟩ | ⟨hdims, -⟩
    · exact absurd h hst
    · exact hdims
  refine ⟨hdims, fun cpu halloc => ?_⟩
  unfold cpuGemmWrapU64 at h ⊢
  split at h
  · cases h
  next hplan =>
  split at h
  · cases h
  next hst =>
  split at h
  · cases h
  next hcur =>
  rw [if_neg hplan, if_neg hst, if_neg hcur, if_neg (by simp [halloc])]

end Rns8
