import Rns8.Api.CpuMatrices
import Rns8.Lib.LabelledRun

/-!
# Which residue planes a bounded operation may read

A pack writes every plane of its matrix; a GEMM writes the planes its plan selects for a cell and
leaves the others as they were. The entry points compare a plan with the storage of a matrix but not
with what was written there. The runs below carry, next to the store, the integer matrix each handle
stands for and the number of planes its producer wrote in each cell; in a run whose plans stay within
the written planes, every plane that an accepted call reads holds the residue of the current integer
(`reads_current`).
-/

namespace Rns8

open CenteredResidue LabelledRun

/-! ### Operations -/

/-- `RNS8_SEMANTICS_BOUNDED_I64` and `RNS8_SEMANTICS_BOUNDED_U64`. -/
def boundedSemantics (semantics : Semantics) : Bool :=
  decide (semantics = .boundedI64) || decide (semantics = .boundedU64)

/-- A plan that `rns8_create_plan` returned. -/
abbrev MadePlan := { plan : Plan // ∃ ctx desc, rns8CreatePlan ctx desc = .ok plan }

/-- A call on bounded matrices. -/
inductive BoundedOp
  | create (env : CreateEnv) (h : Handle)
      (desc : { desc : MatrixDesc // boundedSemantics desc.semantics = true })
  | packI64 (env : PackEnv Int64) (h : Handle) (src : ℕ → Int64) (ld : ℕ) (version : UInt64)
  | packU64 (env : PackEnv UInt64) (h : Handle) (src : ℕ → UInt64) (ld : ℕ) (version : UInt64)
  | gemmRns (env : GemmEnv) (plan : MadePlan) (workspace : Workspace) (a b c : Handle)
  | exportI64 (env : ExportEnv Int64) (plan : MadePlan) (h : Handle) (dst : ℕ → Int64) (ld : ℕ)
  | exportU64 (env : ExportEnv UInt64) (plan : MadePlan) (h : Handle) (dst : ℕ → UInt64) (ld : ℕ)

/-- The call of a function on the matrix behind a handle. -/
def onMatrix (h : Handle) (s : Store) (f : RnsMatrix → Status × RnsMatrix) : Status × Store :=
  match s h with
  | some matrix => ((f matrix).1, s.set h (f matrix).2)
  | none => (.invalidArgument, s)

/-- The call: its status and the store it leaves. An export changes no matrix. -/
def BoundedOp.call (ctx : Context) : BoundedOp → Store → Status × Store
  | create env h desc, s => match rns8CreateMatrix env ctx desc with
    | .ok matrix => (.success, s.set h matrix)
    | .error status => (status, s)
  | packI64 env h src ld version, s =>
    onMatrix h s fun matrix => rns8PackI64 env ctx matrix src ld version
  | packU64 env h src ld version, s =>
    onMatrix h s fun matrix => rns8PackU64 env ctx matrix src ld version
  | gemmRns env plan workspace a b c, s => rns8GemmRns env ctx plan workspace a b c s
  | exportI64 env plan h dst ld, s =>
    onMatrix h s fun C => ((rns8ExportI64 env ctx plan C dst ld).1, C)
  | exportU64 env plan h dst ld, s =>
    onMatrix h s fun C => ((rns8ExportU64 env ctx plan C dst ld).1, C)

/-! ### Runs -/

/-- What the producer of a matrix made of it: the integer matrix it stands for and the number of
planes it wrote in each cell. -/
structure Produced where
  value : ℕ → ℕ → ℤ
  written : ℕ → ℕ → ℕ

/-- A state of a run: the live matrices and what their producers made of them. -/
structure BoundedState where
  store : Store
  produced : Handle → Produced

/-- No matrix is live. -/
def BoundedState.empty : BoundedState := ⟨fun _ => none, fun _ => ⟨fun _ _ => 0, fun _ _ => 0⟩⟩

/-- The number of planes of the matrix behind a handle. -/
def Store.planeCount (s : Store) (h : Handle) : ℕ := ((s h).map RnsMatrix.rnsPrefix).getD 0

/-- What a successful call produced, in the store `s` it leaves. -/
def BoundedOp.produced (σ : BoundedState) (s : Store) : BoundedOp → Handle → Produced
  | create _ h _ => Function.update σ.produced h ⟨fun _ _ => 0, fun _ _ => s.planeCount h⟩
  | packI64 _ h src ld _ =>
    Function.update σ.produced h ⟨sourceI64 src ld, fun _ _ => s.planeCount h⟩
  | packU64 _ h src ld _ =>
    Function.update σ.produced h ⟨sourceU64 src ld, fun _ _ => s.planeCount h⟩
  | gemmRns _ plan _ a b c => Function.update σ.produced c
      ⟨matProduct plan.1.desc.k (σ.produced a).value (σ.produced b).value,
        selectedPrefixForCell plan⟩
  | exportI64 .. | exportU64 .. => σ.produced

/-- One step of a run. -/
def boundedStep (ctx : Context) (σ : BoundedState) (op : BoundedOp) : BoundedState where
  store := (op.call ctx σ.store).2
  produced := if (op.call ctx σ.store).1 = .success then op.produced σ (op.call ctx σ.store).2
    else σ.produced

/-! ### Reads -/

/-- The plane holds the residue of the current integer of the matrix at the cell. -/
def HoldsCurrent (produced : Produced) (matrix : RnsMatrix) (p row col : ℕ) : Prop :=
  matrix.residues.cell (residueIndex matrix p row col) =
    centeredResidue (produced.value row col) (modulusAt p)

/-- **Every plane that the call reads is current.** A GEMM that is accepted reads, for each of its
kernel calls that multiplies, the rows of `A` and the columns of `B` of the cells the call covers; an
export reads the selected planes of the cells that are not declared zero. -/
def BoundedOp.ReadsCurrent (ctx : Context) (σ : BoundedState) : BoundedOp → Prop
  | gemmRns _ plan workspace a b c => ∀ A B C range,
      GemmRnsCall ctx plan workspace a b c σ.store A B C range →
      ∀ call ∈ cpuGemmCalls plan, call.zeroOutput = false → ∀ row col,
        call.Covers call.plane row col → ∀ kk < plan.1.desc.k,
          HoldsCurrent (σ.produced a) A call.plane row kk ∧
            HoldsCurrent (σ.produced b) B call.plane kk col
  | exportI64 _ plan h _ _ => ∀ C ∈ σ.store h,
      validateExportMatrix ctx plan C .boundedI64 plan.1.desc.boundKind plan.1.rnsPrefix = .success →
      ∀ row < plan.1.desc.m, ∀ col < plan.1.desc.n, zeroOutputForCell plan row col = false →
        ∀ p < selectedPrefixForCell plan row col, HoldsCurrent (σ.produced h) C p row col
  | exportU64 _ plan h _ _ => ∀ C ∈ σ.store h,
      validateExportMatrix ctx plan C .boundedU64 plan.1.desc.boundKind plan.1.rnsPrefix = .success →
      ∀ row < plan.1.desc.m, ∀ col < plan.1.desc.n, zeroOutputForCell plan row col = false →
        ∀ p < selectedPrefixForCell plan row col, HoldsCurrent (σ.produced h) C p row col
  | _ => True

/-- The planes that an export under the plan reads were written by the producer of the matrix. -/
def ExportWithin (plan : Plan) (produced : Produced) : Prop :=
  ∀ row < plan.desc.m, ∀ col < plan.desc.n, zeroOutputForCell plan row col = false →
    selectedPrefixForCell plan row col ≤ produced.written row col

/-- **The condition on a step.** A GEMM that is accepted selects no more planes for a cell than the
producers of its operands wrote in the row of `A` and the column of `B`. Unless it fails before it
writes, it has an output of its own, allocates its accumulators and declares zero only what is zero.
An export that is accepted selects no more planes for a cell than its producer wrote there. -/
def BoundedOp.WithinWritten (ctx : Context) (σ : BoundedState) : BoundedOp → Prop
  | gemmRns env plan workspace a b c => ∀ A B C range,
      GemmRnsCall ctx plan workspace a b c σ.store A B C range →
      (∀ row < plan.1.desc.m, ∀ col < plan.1.desc.n, zeroOutputForCell plan row col = false →
        ∀ kk < plan.1.desc.k,
          selectedPrefixForCell plan row col ≤ (σ.produced a).written row kk ∧
            selectedPrefixForCell plan row col ≤ (σ.produced b).written kk col) ∧
      (¬ FailsAtOnce env.cpu (cpuGemmCalls plan) → (a ≠ c ∧ b ≠ c) ∧
        (∀ i < (cpuGemmCalls plan).length, env.cpu.allocOk i = true) ∧
        ∀ row < plan.1.desc.m, ∀ col < plan.1.desc.n, zeroOutputForCell plan row col = true →
          matProduct plan.1.desc.k (σ.produced a).value (σ.produced b).value row col = 0)
  | exportI64 _ plan h _ _ => ∀ C ∈ σ.store h,
      validateExportMatrix ctx plan C .boundedI64 plan.1.desc.boundKind plan.1.rnsPrefix = .success →
      ExportWithin plan (σ.produced h)
  | exportU64 _ plan h _ _ => ∀ C ∈ σ.store h,
      validateExportMatrix ctx plan C .boundedU64 plan.1.desc.boundKind plan.1.rnsPrefix = .success →
      ExportWithin plan (σ.produced h)
  | _ => True

/-! ### The invariant -/

/-- A live matrix holds its integer in the planes that its producer wrote. -/
structure HoldsWritten (produced : Produced) (matrix : RnsMatrix) : Prop where
  semantics : boundedSemantics matrix.desc.semantics = true
  current : ∀ row < matrix.desc.rows, ∀ col < matrix.desc.cols, ∀ p < produced.written row col,
    HoldsCurrent produced matrix p row col

/-- Every live matrix holds its integer in the planes that its producer wrote. -/
def BoundedState.Inv (σ : BoundedState) : Prop :=
  ∀ h, ∀ matrix ∈ σ.store h, HoldsWritten (σ.produced h) matrix

theorem BoundedState.inv_empty : BoundedState.empty.Inv := fun _ _ hm => by
  simp [BoundedState.empty] at hm

/-- A step that changes one matrix keeps the invariant when it keeps it for that matrix. -/
theorem BoundedState.Inv.update {σ : BoundedState} (hσ : σ.Inv) {h : Handle} {matrix : RnsMatrix}
    {produced : Produced} (hm : HoldsWritten produced matrix) :
    BoundedState.Inv ⟨σ.store.set h matrix, Function.update σ.produced h produced⟩ := by
  intro h' matrix' (hmem : σ.store.set h matrix h' = some matrix')
  change HoldsWritten (Function.update σ.produced h produced h') matrix'
  by_cases hh : h' = h
  · subst hh
    rw [Store.set_self] at hmem
    obtain rfl := Option.some.inj hmem
    rwa [Function.update_self]
  · rw [Store.set_of_ne _ _ hh] at hmem
    rw [Function.update_of_ne hh]
    exact hσ h' matrix' hmem

theorem usesRnsStorage_of_bounded {semantics : Semantics} (h : boundedSemantics semantics = true) :
    usesRnsStorage semantics = true := by
  cases semantics <;> simp_all [boundedSemantics, usesRnsStorage]

theorem FreshRnsMatrix.holdsWritten {desc : MatrixDesc} {matrix : RnsMatrix}
    (hb : boundedSemantics desc.semantics = true) (h : FreshRnsMatrix desc matrix) :
    HoldsWritten ⟨fun _ _ => 0, fun _ _ => matrix.rnsPrefix⟩ matrix where
  semantics := by rw [h.semantics]; exact hb
  current := by
    intro row _ col _ p hp
    have hle := h.prefix_le
    have hp' : p < matrix.rnsPrefix := hp
    have h20 : maxSupportedPrefix = 20 := rfl
    rw [HoldsCurrent, h.cells, centeredResidue_zero (modulusAt_pos (by omega))]

theorem packedMatrix_holdsWritten {matrix : RnsMatrix} {source : PackSource} {version : UInt64}
    {proof : ℤ × MatrixRanges} (hb : boundedSemantics matrix.desc.semantics = true) :
    HoldsWritten ⟨source.value, fun _ _ => matrix.rnsPrefix⟩
      (packedMatrix matrix source version proof) := by
  obtain ⟨hdesc, -, -, -⟩ := packedMatrix_desc matrix source version proof
  constructor
  · rw [hdesc]; exact hb
  · rw [hdesc]
    intro row hrow col hcol p hp
    rw [HoldsCurrent, residueIndex, hdesc]
    exact packedMatrix_read matrix source version proof hp hrow hcol

/-! ### Steps -/

section Steps

variable {ctx : Context} {σ : BoundedState}

theorem boundedStep_of_rejected {op : BoundedOp} (hst : (op.call ctx σ.store).1 ≠ .success)
    (hs : (op.call ctx σ.store).2 = σ.store) : boundedStep ctx σ op = σ := by
  simp [boundedStep, hst, hs]

theorem boundedStep_of_success {op : BoundedOp} {s : Store}
    (h : op.call ctx σ.store = (.success, s)) : boundedStep ctx σ op = ⟨s, op.produced σ s⟩ := by
  simp [boundedStep, h]

theorem boundedStep_inv_create (hcpu : ctx.backend = .cpuReference) (hσ : σ.Inv) (env : CreateEnv)
    (h : Handle) (desc : { desc : MatrixDesc // boundedSemantics desc.semantics = true }) :
    (boundedStep ctx σ (.create env h desc)).Inv := by
  cases hc : rns8CreateMatrix env ctx desc with
  | error status =>
    rw [boundedStep_of_rejected (by simpa [BoundedOp.call, hc] using rns8CreateMatrix_cpu_error hcpu hc)
      (by simp [BoundedOp.call, hc])]
    exact hσ
  | ok matrix =>
    have hfresh := rns8CreateMatrix_cpu hcpu (usesRnsStorage_of_bounded desc.2) hc
    rw [boundedStep_of_success (s := σ.store.set h matrix) (by simp [BoundedOp.call, hc])]
    simp only [BoundedOp.produced, Store.planeCount, Store.set_self, Option.map_some,
      Option.getD_some]
    exact hσ.update (hfresh.holdsWritten desc.2)

/-- A call on one matrix that rejects or packs a source keeps the invariant. -/
theorem inv_of_pack (hσ : σ.Inv) {op : BoundedOp} {h : Handle} {f : RnsMatrix → Status × RnsMatrix}
    (source : PackSource) (hcall : op.call ctx σ.store = onMatrix h σ.store f)
    (hf : ∀ matrix ∈ σ.store h, ((f matrix).1 ≠ .success ∧ (f matrix).2 = matrix) ∨
      ∃ version proof, f matrix = (.success, packedMatrix matrix source version proof))
    (hproduced : ∀ s, op.produced σ s =
      Function.update σ.produced h ⟨source.value, fun _ _ => s.planeCount h⟩) :
    (boundedStep ctx σ op).Inv := by
  cases hm : σ.store h with
  | none =>
    rw [boundedStep_of_rejected (by simp [hcall, onMatrix, hm]) (by simp [hcall, onMatrix, hm])]
    exact hσ
  | some matrix =>
    have heq : op.call ctx σ.store = ((f matrix).1, σ.store.set h (f matrix).2) := by
      rw [hcall, onMatrix, hm]
    rcases hf matrix hm with ⟨hst, hkeep⟩ | ⟨version, proof, hpack⟩
    · rw [boundedStep_of_rejected (by rw [heq]; exact hst)
        (by rw [heq, hkeep]; exact Store.set_same _ hm)]
      exact hσ
    · rw [hpack] at heq
      rw [boundedStep_of_success heq, hproduced]
      simp only [Store.planeCount, Store.set_self, Option.map_some, Option.getD_some]
      rw [(packedMatrix_desc matrix source version proof).2.2.1]
      exact hσ.update (packedMatrix_holdsWritten (hσ h matrix hm).semantics)

/-- The planes that an accepted GEMM reads are current. -/
theorem gemm_reads_current (hcpu : ctx.backend = .cpuReference) (hσ : σ.Inv) {env : GemmEnv}
    {plan : MadePlan} {workspace : Workspace} {a b c : Handle}
    (hwithin : (BoundedOp.gemmRns env plan workspace a b c).WithinWritten ctx σ) {A B C : RnsMatrix}
    {range : ℤ × MatrixRanges}
    (hcall : GemmRnsCall ctx plan workspace a b c σ.store A B C range) {row col p : ℕ}
    (hrow : row < plan.1.desc.m) (hcol : col < plan.1.desc.n)
    (hzero : zeroOutputForCell plan row col = false) (hp : p < selectedPrefixForCell plan row col)
    {kk : ℕ} (hkk : kk < plan.1.desc.k) :
    HoldsCurrent (σ.produced a) A p row kk ∧ HoldsCurrent (σ.produced b) B p kk col := by
  have hbackend := plan_backend_of_workspace hcpu hcall.workspace
  have hops := validateRnsGemmOperands_cpu hbackend hcall.operands
  obtain ⟨hwa, hwb⟩ := (hwithin A B C range hcall).1 row hrow col hcol hzero kk hkk
  constructor
  · exact (hσ a A hcall.left).current row (by rw [hops.left.rows]; exact hrow) kk
      (by rw [hops.left.cols]; exact hkk) p (by omega)
  · exact (hσ b B hcall.right).current kk (by rw [hops.right.rows]; exact hkk) col
      (by rw [hops.right.cols]; exact hcol) p (by omega)

/-- An accepted GEMM of a bounded plan has nothing to invalidate and no range to commit. -/
theorem bounded_not_exact {semantics : Semantics} (h : boundedSemantics semantics = true) :
    exactWideSemantics semantics = false := by
  cases semantics <;> simp_all [boundedSemantics, exactWideSemantics]

theorem boundedStep_inv_gemm (hcpu : ctx.backend = .cpuReference) (hσ : σ.Inv) (env : GemmEnv)
    (plan : MadePlan) (workspace : Workspace) (a b c : Handle)
    (hwithin : (BoundedOp.gemmRns env plan workspace a b c).WithinWritten ctx σ) :
    (boundedStep ctx σ (.gemmRns env plan workspace a b c)).Inv := by
  -- a rejected call changes nothing
  by_cases hws : validatePlanContextWorkspace ctx plan workspace = .success
  swap
  · have hrejected := rns8GemmRns_of_workspace env a b c σ.store hws
    have hsame : boundedStep ctx σ (.gemmRns env plan workspace a b c) = σ :=
      boundedStep_of_rejected hrejected.1 hrejected.2
    rw [hsame]
    exact hσ
  have hbackend := plan_backend_of_workspace hcpu hws
  rcases rns8GemmRns_cpu env ctx workspace a b c σ.store hbackend with ⟨hst, hkeep⟩ |
    ⟨A, B, C, range, hcall, heq⟩
  · have hsame : boundedStep ctx σ (.gemmRns env plan workspace a b c) = σ :=
      boundedStep_of_rejected hst hkeep
    rw [hsame]
    exact hσ
  have hwrites := (hwithin A B C range hcall).2
  have hops := validateRnsGemmOperands_cpu hbackend hcall.operands
  have hexact : exactWideSemantics plan.1.desc.semantics = false := by
    rw [← hops.left.semantics]
    exact bounded_not_exact (hσ a A hcall.left).semantics
  -- bounded outputs are not invalidated before the kernel
  have hprepared : preparedOutput plan.1 C = C := by simp [preparedOutput, hexact]
  rw [hprepared] at heq
  -- a call that fails wrote nothing: its first allocation failed, or none did
  by_cases hst : (cpuBranchGemmRns env plan a b c A B C range σ.store).1 = .success
  swap
  · have hkeep := cpuBranchGemmRns_failed (or_iff_not_imp_left.2 fun h => (hwrites h).2.1)
      (planes_of_some hcall.out) hst
    rw [boundedStep_of_rejected (by rw [BoundedOp.call, heq]; exact hst)
      (by rw [BoundedOp.call, heq, hkeep]; exact Store.set_same _ hcall.out)]
    exact hσ
  -- a success has run the whole loop, and each of its cells is the residue of the product
  obtain ⟨hshape, mem, hloop, hout⟩ := cpuBranchGemmRns_success hst
  have hfails : ¬ FailsAtOnce env.cpu (cpuGemmCalls plan) := fun h => by
    rw [kernelLoop_of_failsAtOnce _ h] at hloop
    cases hloop
  obtain ⟨⟨hac, hbc⟩, -, hzeros⟩ := hwrites hfails
  have hmade := plan.2
  obtain ⟨ctx', desc', hcreate⟩ := hmade
  have hplan := rns8CreatePlan_created hcreate
  obtain ⟨-, hle, hmax, -⟩ := planScheduleContractMatches_ladder
    (validatePlanContextWorkspace_success hws).1 hops.semantics
  have h20 : maxSupportedPrefix = 20 := rfl
  rw [boundedStep_of_success (s := σ.store.set c (committedOutput plan A B C (mem c) range))
    (by rw [BoundedOp.call, heq, hout]; exact Prod.ext hst rfl)]
  refine hσ.update ⟨by rw [committedOutput_desc]; exact (hσ c C hcall.out).semantics, ?_⟩
  rw [committedOutput_desc, hops.out.rows, hops.out.cols]
  intro row hrow col hcol p hp
  rw [HoldsCurrent, committedOutput_cell, residueIndex, committedOutput_desc]
  refine scheduledLoop_residues hplan (by omega) ⟨hops.out.rows, hops.out.cols⟩ hac hbc hloop
    (fun r hr q hq p' hp' => ?_) hrow hcol hp
  split
  -- a declared zero is zero by the side condition
  · next hz => exact hzeros r hr q hq hz
  · next hz =>
    have hz : zeroOutputForCell plan.1 r q = false := by simpa using hz
    -- elsewhere the planes read are current, so their dot product has the residue
    have hp28 : p' < 28 := by
      have := (hplan.selected_le hops.semantics hr hq)
      omega
    rw [cellDot_eq_residueDot (planes_of_some hcall.left) (planes_of_some hcall.right)]
    exact residueDot_modEq hp28
      (fun kk hkk => (gemm_reads_current hcpu hσ hwithin hcall hr hq hz hp' hkk).1)
      (fun kk hkk => (gemm_reads_current hcpu hσ hwithin hcall hr hq hz hp' hkk).2)

/-- An export changes no matrix. -/
theorem boundedStep_inv_export (hσ : σ.Inv) {op : BoundedOp} {h : Handle} {f : RnsMatrix → Status}
    (hcall : op.call ctx σ.store = onMatrix h σ.store fun C => (f C, C))
    (hproduced : ∀ s, op.produced σ s = σ.produced) : (boundedStep ctx σ op).Inv := by
  have hs : (op.call ctx σ.store).2 = σ.store := by
    rw [hcall, onMatrix]
    split
    · next hm => exact Store.set_same _ hm
    · rfl
  unfold boundedStep
  rw [hproduced, hs, ite_self]
  exact hσ

/-- **The step lemma.** A step within the written planes keeps the invariant. -/
theorem boundedStep_inv (hcpu : ctx.backend = .cpuReference) (hσ : σ.Inv) (op : BoundedOp)
    (hwithin : op.WithinWritten ctx σ) : (boundedStep ctx σ op).Inv := by
  cases op with
  | create env h desc => exact boundedStep_inv_create hcpu hσ env h desc
  | packI64 env h src ld version =>
    refine inv_of_pack hσ (packSourceI64 env ctx src ld) rfl (fun matrix _ => ?_) fun _ => rfl
    rcases rns8PackI64_cpu env matrix src ld version hcpu with h1 | ⟨-, proof, -, h2⟩
    · exact Or.inl h1
    · exact Or.inr ⟨version, proof, h2⟩
  | packU64 env h src ld version =>
    refine inv_of_pack hσ (packSourceU64 env ctx src ld) rfl (fun matrix hm => ?_) fun _ => rfl
    have hrns := usesRnsStorage_of_bounded (hσ h matrix hm).semantics
    rcases rns8PackU64_cpu env matrix src ld version hcpu hrns with h1 | ⟨-, proof, -, h2⟩
    · exact Or.inl h1
    · exact Or.inr ⟨version, proof, h2⟩
  | gemmRns env plan workspace a b c =>
    exact boundedStep_inv_gemm hcpu hσ env plan workspace a b c hwithin
  | exportI64 env plan h dst ld =>
    exact boundedStep_inv_export hσ (f := fun C => (rns8ExportI64 env ctx plan C dst ld).1) rfl
      fun _ => rfl
  | exportU64 env plan h dst ld =>
    exact boundedStep_inv_export hσ (f := fun C => (rns8ExportU64 env ctx plan C dst ld).1) rfl
      fun _ => rfl

/-- The planes that an accepted export reads are current. -/
theorem export_reads_current (hσ : σ.Inv) {plan : Plan} {h : Handle} {C : RnsMatrix}
    (hm : σ.store h = some C) (hrows : C.desc.rows = plan.desc.m) (hcols : C.desc.cols = plan.desc.n)
    (hwithin : ExportWithin plan (σ.produced h)) {row col p : ℕ} (hrow : row < plan.desc.m)
    (hcol : col < plan.desc.n) (hzero : zeroOutputForCell plan row col = false)
    (hp : p < selectedPrefixForCell plan row col) : HoldsCurrent (σ.produced h) C p row col :=
  (hσ h C hm).current row (by rw [hrows]; exact hrow) col (by rw [hcols]; exact hcol) p
    (lt_of_lt_of_le hp (hwithin row hrow col hcol hzero))

/-- At a step within the written planes, everything the call reads is current. -/
theorem readsCurrent_of_inv (hcpu : ctx.backend = .cpuReference) (hσ : σ.Inv) (op : BoundedOp)
    (hwithin : op.WithinWritten ctx σ) : op.ReadsCurrent ctx σ := by
  cases op with
  | create env h desc => trivial
  | packI64 env h src ld version => trivial
  | packU64 env h src ld version => trivial
  | gemmRns env plan workspace a b c =>
    intro A B C range hcall call hmem hz row col hc kk hkk
    obtain ⟨ctx', desc', hcreate⟩ := plan.2
    have hgrid := (rns8CreatePlan_created hcreate).grid
    have hin := (cpuGemmCalls_callPlan hgrid).fits _ hmem _ _ _ hc
    have hp := (exists_covers_iff hgrid hin.1 hin.2).1 ⟨call, hmem, hc⟩
    rw [zeroOutput_eq_of_covers hgrid hmem hc] at hz
    exact gemm_reads_current hcpu hσ hwithin hcall hin.1 hin.2 hz hp hkk
  | exportI64 env plan h dst ld =>
    intro C hm hvalid row hrow col hcol hzero p hp
    obtain ⟨hrows, hcols⟩ := validateExportMatrix_dims hvalid
    exact export_reads_current hσ hm hrows hcols (hwithin C hm hvalid) hrow hcol hzero hp
  | exportU64 env plan h dst ld =>
    intro C hm hvalid row hrow col hcol hzero p hp
    obtain ⟨hrows, hcols⟩ := validateExportMatrix_dims hvalid
    exact export_reads_current hσ hm hrows hcols (hwithin C hm hvalid) hrow hcol hzero hp

end Steps

/-- **No unwritten plane is read.** In every run of bounded calls on the CPU whose steps stay within
the planes that the producers wrote, each plane that an accepted GEMM or export reads holds the
residue of the current integer of its matrix. -/
theorem reads_current {ctx : Context} (hcpu : ctx.backend = .cpuReference)
    {pre post : List BoundedOp} {op : BoundedOp}
    (hrun : Meets (boundedStep ctx) (fun σ op => op.WithinWritten ctx σ) BoundedState.empty
      (pre ++ op :: post)) :
    op.ReadsCurrent ctx (exec (boundedStep ctx) BoundedState.empty pre) :=
  hrun.at_step (Q := fun σ op => op.ReadsCurrent ctx σ)
    (fun _ op hσ hwithin => boundedStep_inv hcpu hσ op hwithin)
    (fun _ op hσ hwithin => readsCurrent_of_inv hcpu hσ op hwithin) BoundedState.inv_empty

/-! ### A plane that was not written -/

/-- The plan of a descriptor on the CPU. -/
def makePlan (desc : GemmDesc) : Option MadePlan :=
  match h : rns8CreatePlan .cpu desc with
  | .ok plan => some ⟨plan, .cpu, desc, h⟩
  | .error _ => none

/-- `5 * 7` into a new matrix. -/
def scalarRun (plan : MadePlan) (workspace : Workspace) : List BoundedOp :=
  [.create (.ok 1) 0 ⟨scalarMatrixDesc, rfl⟩, .create (.ok 2) 1 ⟨scalarMatrixDesc, rfl⟩,
    .create (.ok 3) 2 ⟨scalarMatrixDesc, rfl⟩, .packI64 (.ok _) 0 (fun _ => 5) 1 0,
    .packI64 (.ok _) 1 (fun _ => 7) 1 0, .gemmRns .ok plan workspace 0 1 2]

/-- The export of the product under a plan. -/
def scalarExport (plan : MadePlan) : BoundedOp :=
  .exportI64 ⟨true, (.success, fun _ => 0), serialRows⟩ plan 2 (fun _ => 0) 1

instance (produced : Produced) (matrix : RnsMatrix) (p row col : ℕ) :
    Decidable (HoldsCurrent produced matrix p row col) :=
  inferInstanceAs (Decidable (_ = _))

instance (plan : Plan) (produced : Produced) : Decidable (ExportWithin plan produced) :=
  inferInstanceAs (Decidable (∀ row < plan.desc.m, ∀ col < plan.desc.n, _ → _))

instance (ctx : Context) (σ : BoundedState) (plan : MadePlan) :
    Decidable ((scalarExport plan).ReadsCurrent ctx σ) :=
  inferInstanceAs (Decidable (∀ C ∈ σ.store 2, _ → ∀ row < plan.1.desc.m, ∀ col < plan.1.desc.n,
    _ → ∀ p < _, HoldsCurrent (σ.produced 2) C p row col))

/-- **An unwritten plane is read.** The product `35` was written under the bound `35`, which needs one
plane; an export under the bound `10000` reads two, and is accepted. -/
theorem unwritten_plane_read :
    ∃ plan ∈ makePlan (scalarDesc 35), ∃ workspace ∈ (rns8CreateWorkspace .cpu plan).toOption,
      ∃ plan' ∈ makePlan (scalarDesc 10000),
        let σ := exec (boundedStep .cpu) BoundedState.empty (scalarRun plan workspace)
        ((scalarExport plan').call .cpu σ.store).1 = .success ∧
          ¬ (scalarExport plan').ReadsCurrent .cpu σ := by
  decide +kernel

/-- Under the bound that the product was written for, the export reads what was written. -/
theorem reads_current_scalar :
    ∃ plan ∈ makePlan (scalarDesc 35), ∃ workspace ∈ (rns8CreateWorkspace .cpu plan).toOption,
      (scalarExport plan).ReadsCurrent .cpu
        (exec (boundedStep .cpu) BoundedState.empty (scalarRun plan workspace)) := by
  have hrun : ∃ plan ∈ makePlan (scalarDesc 35),
      ∃ workspace ∈ (rns8CreateWorkspace .cpu plan).toOption,
        let σ := exec (boundedStep .cpu) BoundedState.empty ((scalarRun plan workspace).take 5)
        (∀ row < plan.1.desc.m, ∀ col < plan.1.desc.n, zeroOutputForCell plan row col = false ∧
          ∀ kk < plan.1.desc.k, selectedPrefixForCell plan row col ≤ (σ.produced 0).written row kk ∧
            selectedPrefixForCell plan row col ≤ (σ.produced 1).written kk col) ∧
        ExportWithin plan ((exec (boundedStep .cpu) BoundedState.empty
          (scalarRun plan workspace)).produced 2) := by
    decide +kernel
  obtain ⟨plan, hplan, workspace, hworkspace, hgemm, hexport⟩ := hrun
  refine ⟨plan, hplan, workspace, hworkspace, @reads_current _ rfl _ [] _ ?_⟩
  refine ⟨trivial, trivial, trivial, trivial, trivial, fun A B C range _ => ?_, fun C _ _ => hexport,
    trivial⟩
  refine ⟨fun row hrow col hcol _ => (hgemm row hrow col hcol).2, fun _ =>
    ⟨⟨by decide, by decide⟩, fun _ _ => rfl, fun row hrow col hcol hzero => ?_⟩⟩
  rw [(hgemm row hrow col hcol).1] at hzero
  cases hzero

end Rns8
