import Rns8.Api.FiniteMatrices
import Rns8.Results.ExportAtomicity
import Rns8.Lib.LabelledRun

/-!
# Finite ring and field GEMMs end to end

Runs of creations, packs, GEMMs and exports of finite matrices on the CPU. Next to the store a run
carries the integer matrix that each handle stands for: the source bytes after a pack, the product
of the operands' matrices after a GEMM. In a run whose GEMMs write a matrix of their own, a known
matrix holds the centered residues of its integers (`FiniteState.Inv`), every well-formed call
succeeds, and an export writes the canonical representatives (`finiteRun_answers`).
-/

namespace Rns8

open CenteredResidue LabelledRun

/-! ### Operations -/

/-- A call on finite matrices. -/
inductive FiniteOp
  | create (env : CreateEnv) (h : Handle)
      (desc : { desc : MatrixDesc // usesFiniteStorage desc.semantics = true })
  | pack (env : PackEnv UInt8) (h : Handle) (modulus : ℕ) (src : ℕ → UInt8) (ld : ℕ)
      (version : UInt64)
  | gemm (env : GemmEnv) (plan : Plan) (workspace : Workspace) (modulus : ℕ) (a b c : Handle)
  | exportU8 (env : ExportEnv UInt8) (plan : Plan) (modulus : ℕ) (h : Handle) (dst : ℕ → UInt8)
      (ld : ℕ)

/-- The call: its status and the store it leaves. An export changes no matrix. -/
def FiniteOp.call (ctx : Context) : FiniteOp → Store → Status × Store
  | create env h desc, s => match rns8CreateMatrix env ctx desc with
    | .ok matrix => (.success, s.set h matrix)
    | .error status => (status, s)
  | pack env h modulus src ld version, s => match s h with
    | some matrix =>
      let result := rns8PackFiniteU8 env ctx matrix modulus src ld version
      (result.1, s.set h result.2)
    | none => (.invalidArgument, s)
  | gemm env plan workspace modulus a b c, s =>
    rns8GemmFiniteU8 env ctx plan workspace modulus a b c s
  | exportU8 env plan modulus h dst ld, s => match s h with
    | some matrix => ((rns8ExportFiniteU8 env ctx plan modulus matrix dst ld).1, s)
    | none => (.invalidArgument, s)

/-! ### Runs -/

/-- The integer matrix that a finite matrix stands for, and its modulus. -/
structure FiniteValue where
  modulus : ℕ
  value : ℕ → ℕ → ℤ

/-- A state of a run: the live matrices and what they stand for, where that is known. -/
structure FiniteState where
  store : Store
  known : Handle → Option FiniteValue

/-- No matrix is live. -/
def FiniteState.empty : FiniteState := ⟨fun _ => none, fun _ => none⟩

/-- The integers of a handle, zero where they are not known. -/
def FiniteState.value (σ : FiniteState) (h : Handle) : ℕ → ℕ → ℤ :=
  ((σ.known h).map FiniteValue.value).getD fun _ _ => 0

/-- What the matrices stand for after a successful call. -/
def FiniteOp.known (σ : FiniteState) : FiniteOp → Handle → Option FiniteValue
  | create _ h _ => Function.update σ.known h none
  | pack _ h modulus src ld _ => Function.update σ.known h (some ⟨modulus, sourceU8 src ld⟩)
  | gemm _ plan _ modulus a b c =>
    Function.update σ.known c (some ⟨modulus, matProduct plan.desc.k (σ.value a) (σ.value b)⟩)
  | exportU8 .. => σ.known

/-- One step of a run. -/
def finiteStep (ctx : Context) (σ : FiniteState) (op : FiniteOp) : FiniteState where
  store := (op.call ctx σ.store).2
  known := if (op.call ctx σ.store).1 = .success then op.known σ else σ.known

/-- **The condition on a step.** A GEMM that is accepted and allocates its accumulator writes a matrix
that is neither of its operands. -/
def FiniteOp.Separate (ctx : Context) (σ : FiniteState) : FiniteOp → Prop
  | gemm env plan workspace modulus a b c => ∀ A B C,
      GemmFiniteCall ctx plan workspace modulus a b c σ.store A B C → env.cpu.allocOk 0 = true →
      a ≠ c ∧ b ≠ c
  | _ => True

/-! ### What a call answers -/

/-- The matrix of a handle stands for a known integer matrix of the modulus. -/
def FiniteState.Knows (σ : FiniteState) (h : Handle) (modulus : ℕ) : Prop :=
  ∃ v ∈ σ.known h, v.modulus = modulus

/-- A finite plan of the modulus that `rns8_create_plan` made for the context. -/
structure FinitePlan (ctx : Context) (modulus : ℕ) (plan : Plan) : Prop where
  made : ∃ desc, rns8CreatePlan ctx desc = .ok plan
  finite : usesFiniteStorage plan.desc.semantics = true
  modulus_eq : plan.desc.finiteModulus = modulus

/-- **The answer of a call.** A pack with a valid access and modulus succeeds; a GEMM of known
operands of the plan's shapes and modulus succeeds when its allocation does; an export of a known
matrix succeeds, and whenever an export does, it writes the canonical representatives of the integers
of its matrix. -/
def FiniteOp.Answers (ctx : Context) (σ : FiniteState) (op : FiniteOp) : Prop :=
  match op with
  | create .. => True
  | pack _ h modulus _ ld _ => ∀ matrix ∈ σ.store h,
      validMatrixAccess matrix.desc.rows matrix.desc.cols ld = true →
      validFiniteModulusForSemantics matrix.desc.semantics modulus = true →
      (op.call ctx σ.store).1 = .success
  | gemm env plan workspace modulus a b c => ∀ A ∈ σ.store a, ∀ B ∈ σ.store b, ∀ C ∈ σ.store c,
      FinitePlan ctx modulus plan → rns8CreateWorkspace ctx plan = .ok workspace →
      HasShape A plan.desc.semantics plan.desc.m plan.desc.k →
      HasShape B plan.desc.semantics plan.desc.k plan.desc.n →
      HasShape C plan.desc.semantics plan.desc.m plan.desc.n →
      σ.Knows a modulus → σ.Knows b modulus → env.cpu.allocOk 0 = true →
      (op.call ctx σ.store).1 = .success
  | exportU8 env plan modulus h dst ld => ∀ C ∈ σ.store h,
      (FinitePlan ctx modulus plan → HasShape C plan.desc.semantics plan.desc.m plan.desc.n →
        σ.Knows h modulus → validMatrixAccess plan.desc.m plan.desc.n ld = true →
        (op.call ctx σ.store).1 = .success) ∧
      ((op.call ctx σ.store).1 = .success → σ.Knows h modulus ∧
        ∀ row < plan.desc.m, ∀ col < plan.desc.n,
          (((rns8ExportFiniteU8 env ctx plan modulus C dst ld).2 (row * ld + col)).toNat : ℤ) =
            σ.value h row col % modulus)

/-! ### The invariant -/

/-- A live matrix holds the centered residues of the integers it stands for, and has no current
value where they are not known. -/
structure HoldsFinite (known : Option FiniteValue) (matrix : RnsMatrix) : Prop where
  finite : FiniteMatrix matrix
  unknown : known = none → rnsResidueStateCurrentForBackend matrix .cpuReference = false
  current : ∀ v ∈ known, CurrentFinite matrix v.modulus ∧ (0 < v.modulus ∧ v.modulus ≤ 256) ∧
    ∀ row < matrix.desc.rows, ∀ col < matrix.desc.cols,
      matrix.residues.cell (residueIndex matrix 0 row col) =
        centeredResidue (v.value row col) v.modulus

/-- Every live matrix holds what it stands for. -/
def FiniteState.Inv (σ : FiniteState) : Prop :=
  ∀ h, ∀ matrix ∈ σ.store h, HoldsFinite (σ.known h) matrix

theorem FiniteState.inv_empty : FiniteState.empty.Inv := fun _ _ hm => by
  simp [FiniteState.empty] at hm

/-- A step that changes one matrix keeps the invariant when it keeps it for that matrix. -/
theorem FiniteState.Inv.update {σ : FiniteState} (hσ : σ.Inv) {h : Handle} {matrix : RnsMatrix}
    {known : Option FiniteValue} (hm : HoldsFinite known matrix) :
    FiniteState.Inv ⟨σ.store.set h matrix, Function.update σ.known h known⟩ := by
  intro h' matrix' (hmem : σ.store.set h matrix h' = some matrix')
  change HoldsFinite (Function.update σ.known h known h') matrix'
  by_cases hh : h' = h
  · subst hh
    rw [Store.set_self] at hmem
    obtain rfl := Option.some.inj hmem
    rwa [Function.update_self]
  · rw [Store.set_of_ne _ _ hh] at hmem
    rw [Function.update_of_ne hh]
    exact hσ h' matrix' hmem

/-! ### Steps -/

section Steps

variable {ctx : Context} {σ : FiniteState}

theorem finiteStep_of_rejected {op : FiniteOp} (hst : (op.call ctx σ.store).1 ≠ .success)
    (hs : (op.call ctx σ.store).2 = σ.store) : finiteStep ctx σ op = σ := by
  simp [finiteStep, hst, hs]

theorem finiteStep_of_success {op : FiniteOp} {s : Store}
    (h : op.call ctx σ.store = (.success, s)) : finiteStep ctx σ op = ⟨s, op.known σ⟩ := by
  simp [finiteStep, h]

theorem finiteStep_inv_create (hcpu : ctx.backend = .cpuReference) (hσ : σ.Inv) (env : CreateEnv)
    (h : Handle) (desc : { desc : MatrixDesc // usesFiniteStorage desc.semantics = true }) :
    (finiteStep ctx σ (.create env h desc)).Inv := by
  cases hc : rns8CreateMatrix env ctx desc with
  | error status =>
    rw [finiteStep_of_rejected (by simpa [FiniteOp.call, hc] using rns8CreateMatrix_cpu_error hcpu hc)
      (by simp [FiniteOp.call, hc])]
    exact hσ
  | ok matrix =>
    obtain ⟨hfinite, hstale⟩ := rns8CreateMatrix_finite hcpu desc.2 hc
    rw [finiteStep_of_success (s := σ.store.set h matrix) (by simp [FiniteOp.call, hc])]
    refine hσ.update ⟨hfinite, fun _ => ?_, fun v hv => by cases hv⟩
    simp [rnsResidueStateCurrentForBackend, hipResidentRnsBackend, hstale]

theorem finiteStep_inv_pack (hcpu : ctx.backend = .cpuReference) (hσ : σ.Inv)
    (env : PackEnv UInt8) (h : Handle) (modulus : ℕ) (src : ℕ → UInt8) (ld : ℕ) (version : UInt64) :
    (finiteStep ctx σ (.pack env h modulus src ld version)).Inv := by
  cases hm : σ.store h with
  | none =>
    rw [finiteStep_of_rejected (by simp [FiniteOp.call, hm]) (by simp [FiniteOp.call, hm])]
    exact hσ
  | some matrix =>
    rcases rns8PackFiniteU8_cpu env matrix modulus src ld version hcpu with ⟨hst, hkeep⟩ |
      ⟨hvalid, heq⟩
    · rw [finiteStep_of_rejected (by simpa [FiniteOp.call, hm] using hst)
        (by simp [FiniteOp.call, hm, hkeep])]
      exact hσ
    · rw [finiteStep_of_success
        (s := σ.store.set h (packedFiniteMatrix matrix modulus src ld version))
        (by simp [FiniteOp.call, hm, heq])]
      refine hσ.update ⟨packedFiniteMatrix_finite (hσ h matrix hm).finite modulus src ld version,
        fun h0 => (by cases h0), fun v hv => ?_⟩
      obtain rfl := Option.some.inj hv
      refine ⟨⟨rfl, rfl⟩, finiteModulus_bounds hvalid, fun row hrow col hcol => ?_⟩
      exact packedFiniteMatrix_read matrix modulus src ld version hrow hcol

/-- A matrix that is current stands for known integers. -/
theorem FiniteState.Inv.exists_known (hσ : σ.Inv) {h : Handle} {matrix : RnsMatrix}
    (hm : σ.store h = some matrix)
    (hcurrent : rnsResidueStateCurrentForBackend matrix .cpuReference = true) :
    ∃ v, σ.known h = some v ∧ matrix.finiteModulus = v.modulus := by
  have hholds := hσ h matrix hm
  cases hk : σ.known h with
  | none =>
    have := hholds.unknown hk
    rw [hcurrent] at this
    cases this
  | some v => exact ⟨v, rfl, (hholds.current v hk).1.modulus_eq⟩

/-- The integers and the residues of a known matrix. -/
theorem FiniteState.Inv.read (hσ : σ.Inv) {h : Handle} {matrix : RnsMatrix}
    (hm : σ.store h = some matrix) {modulus : ℕ} (hk : σ.Knows h modulus) {row col : ℕ}
    (hrow : row < matrix.desc.rows) (hcol : col < matrix.desc.cols) :
    matrix.residues.cell (residueIndex matrix 0 row col) =
      centeredResidue (σ.value h row col) modulus := by
  obtain ⟨v, hv, rfl⟩ := hk
  obtain ⟨-, -, hread⟩ := (hσ h matrix hm).current v hv
  rw [hread row hrow col hcol, FiniteState.value, Option.mem_def.1 hv]
  rfl

/-- The dot product of the residues of two known matrices is that of their integers. -/
theorem FiniteState.Inv.residueDot_modEq (hσ : σ.Inv) {a b : Handle} {A B : RnsMatrix}
    (hA : σ.store a = some A) (hB : σ.store b = some B) {modulus k : ℕ}
    (hmodulus : 0 < modulus ∧ modulus ≤ 256) (ha : σ.Knows a modulus) (hb : σ.Knows b modulus)
    (hAcols : A.desc.cols = k) (hBrows : B.desc.rows = k) {row col : ℕ}
    (hrow : row < A.desc.rows) (hcol : col < B.desc.cols) :
    residueDot A B k 0 row col ≡ matProduct k (σ.value a) (σ.value b) row col [ZMOD modulus] := by
  refine dot_modEq (fun kk hkk => ?_) fun kk hkk => ?_
  · rw [hσ.read hA ha hrow (by rw [hAcols]; exact Finset.mem_range.1 hkk)]
    exact centeredResidue_modEq _ hmodulus.1 hmodulus.2
  · rw [hσ.read hB hb (by rw [hBrows]; exact Finset.mem_range.1 hkk) hcol]
    exact centeredResidue_modEq _ hmodulus.1 hmodulus.2

/-- What the checks of a finite GEMM say of the operands' state. -/
theorem finiteGemm_knows (hσ : σ.Inv) {plan : Plan} {workspace : Workspace} {modulus : ℕ} {a b c : Handle} {A B C : RnsMatrix}
    (hcall : GemmFiniteCall ctx plan workspace modulus a b c σ.store A B C) :
    plan.backend = .cpuReference ∧ σ.Knows a modulus ∧ σ.Knows b modulus := by
  obtain ⟨-, -, hAm, hBm⟩ := validateFiniteGemmOperands_spec hcall.operands
  obtain ⟨hcompatible, hAc, hBc⟩ := validateFiniteGemmOperands_current hcall.operands
  have hbackend := plan_backend_of_matrix (hσ a A hcall.left).finite hcompatible
  rw [hbackend] at hAc hBc
  obtain ⟨u, hu, hum⟩ := hσ.exists_known hcall.left hAc
  obtain ⟨v, hv, hvm⟩ := hσ.exists_known hcall.right hBc
  exact ⟨hbackend, ⟨u, hu, hum.symm.trans hAm⟩, v, hv, hvm.symm.trans hBm⟩

theorem finiteStep_inv_gemm (hσ : σ.Inv) (env : GemmEnv) (plan : Plan) (workspace : Workspace)
    (modulus : ℕ) (a b c : Handle)
    (hsep : (FiniteOp.gemm env plan workspace modulus a b c).Separate ctx σ) :
    (finiteStep ctx σ (.gemm env plan workspace modulus a b c)).Inv := by
  rcases rns8GemmFiniteU8_cpu env ctx plan workspace modulus a b c σ.store with ⟨hst, hkeep⟩ |
    ⟨A, B, C, hcall, heq⟩
  · have hsame : finiteStep ctx σ (.gemm env plan workspace modulus a b c) = σ :=
      finiteStep_of_rejected hst hkeep
    rw [hsame]
    exact hσ
  obtain ⟨hbackend, ha, hb⟩ := finiteGemm_knows hσ hcall
  have hmodulus := finiteModulus_bounds (validateFiniteGemmOperands_spec hcall.operands).1
  -- past the checks the kernel fails, keeping the output, or writes every cell
  rcases dispatchGemmFiniteU8_cpu env ctx modulus a b A B hbackend hcall.out with ⟨hst, hkeep⟩ |
    ⟨hshape, mem, hloop, hrun⟩
  · have hsame : finiteStep ctx σ (.gemm env plan workspace modulus a b c) = σ := by
      refine finiteStep_of_rejected ?_ ?_
      · rw [FiniteOp.call, heq]; exact hst
      · rw [FiniteOp.call, heq, hkeep]; exact Store.set_same _ hcall.out
    rw [hsame]
    exact hσ
  · rw [hrun] at heq
    have hstep : finiteStep ctx σ (.gemm env plan workspace modulus a b c) =
        ⟨σ.store.set c (finiteOutput modulus A B C (mem c)),
          (FiniteOp.gemm env plan workspace modulus a b c).known σ⟩ := finiteStep_of_success heq
    rw [hstep]
    obtain ⟨⟨hAr, hAc⟩, ⟨hBr, hBc⟩, hCr, hCc⟩ := gemmShapesMatch_spec hshape
    refine hσ.update ⟨finiteOutput_finite (hσ c C hcall.out).finite modulus A B (mem c),
      fun h0 => (by cases h0), fun v hv => ?_⟩
    obtain rfl := Option.some.inj hv
    refine ⟨⟨rfl, rfl⟩, hmodulus, fun row hrow col hcol => ?_⟩
    have hrow' : row < plan.desc.m := hCr ▸ hrow
    have hcol' : col < plan.desc.n := hCc ▸ hcol
    -- a call whose first allocation fails does not come this far, so it has written
    have halloc : env.cpu.allocOk 0 = true := by
      by_contra hne
      have hfails : FailsAtOnce env.cpu (finiteGemmCalls plan) :=
        ⟨_, rfl, rfl, Bool.eq_false_of_not_eq_true hne⟩
      rw [kernelLoop_of_failsAtOnce _ hfails] at hloop
      cases hloop
    obtain ⟨hac, hbc⟩ := hsep A B C hcall halloc
    -- with an output of its own the kernel reads the operands as they were packed
    have hread := finiteLoop_read hshape hcall.left hcall.right hmodulus hac hbc hloop hrow' hcol'
    exact hread.trans (centeredResidue_congr hmodulus.1 hmodulus.2
      (hσ.residueDot_modEq hcall.left hcall.right hmodulus ha hb hAc hBr (by rw [hAr]; exact hrow')
        (by rw [hBc]; exact hcol')))

/-- **Every step keeps the invariant.** -/
theorem finiteStep_inv (hcpu : ctx.backend = .cpuReference) (hσ : σ.Inv) {op : FiniteOp}
    (hsep : op.Separate ctx σ) : (finiteStep ctx σ op).Inv := by
  cases op with
  | create env h desc => exact finiteStep_inv_create hcpu hσ env h desc
  | pack env h modulus src ld version =>
    exact finiteStep_inv_pack hcpu hσ env h modulus src ld version
  | gemm env plan workspace modulus a b c =>
    exact finiteStep_inv_gemm hσ env plan workspace modulus a b c hsep
  | exportU8 env plan modulus h dst ld =>
    have hsame : finiteStep ctx σ (.exportU8 env plan modulus h dst ld) = σ := by
      cases hm : σ.store h <;> simp [finiteStep, FiniteOp.call, FiniteOp.known, hm]
    rw [hsame]
    exact hσ

/-! ### Answers -/

theorem FinitePlan.checks (hcpu : ctx.backend = .cpuReference) {modulus : ℕ} {plan : Plan}
    (h : FinitePlan ctx modulus plan) : plan.backend = .cpuReference ∧
      validFiniteModulusForSemantics plan.desc.semantics modulus = true ∧
      planScheduleContractMatches plan = true := by
  obtain ⟨⟨desc, hmade⟩, hfin, rfl⟩ := h
  obtain ⟨hvalid, hcontract⟩ := rns8CreatePlan_finite hmade hfin
  exact ⟨(rns8CreatePlan_fields hmade).2.2.2.2.trans hcpu, hvalid, hcontract⟩

theorem FiniteState.Inv.currentFinite (hσ : σ.Inv) {h : Handle} {matrix : RnsMatrix}
    (hm : σ.store h = some matrix) {modulus : ℕ} (hk : σ.Knows h modulus) :
    CurrentFinite matrix modulus := by
  obtain ⟨v, hv, rfl⟩ := hk
  exact ((hσ h matrix hm).current v hv).1

/-- A GEMM of known operands of the plan's shapes succeeds. -/
theorem finiteGemm_success (hcpu : ctx.backend = .cpuReference) (hσ : σ.Inv) {env : GemmEnv}
    {plan : Plan} {workspace : Workspace} {modulus : ℕ} {a b c : Handle} {A B C : RnsMatrix}
    (hA : σ.store a = some A) (hB : σ.store b = some B) (hC : σ.store c = some C)
    (hplan : FinitePlan ctx modulus plan) (hws : rns8CreateWorkspace ctx plan = .ok workspace)
    (hAs : HasShape A plan.desc.semantics plan.desc.m plan.desc.k)
    (hBs : HasShape B plan.desc.semantics plan.desc.k plan.desc.n)
    (hCs : HasShape C plan.desc.semantics plan.desc.m plan.desc.n) (ha : σ.Knows a modulus)
    (hb : σ.Knows b modulus) (halloc : env.cpu.allocOk 0 = true) :
    (rns8GemmFiniteU8 env ctx plan workspace modulus a b c σ.store).1 = .success := by
  obtain ⟨hbackend, hvalid, -⟩ := hplan.checks hcpu
  have hAf := (hσ a A hA).finite
  have hBf := (hσ b B hB).finite
  have hCf := (hσ c C hC).finite
  -- every check of the operands passes on what the invariant says of them
  have hops : validateFiniteGemmOperands ctx plan modulus A B C = .success :=
    validateFiniteGemmOperands_of_shapes hbackend hplan.finite hvalid hplan.modulus_eq hAf hBf hCf
      hAs hBs hCs (hσ.currentFinite hA ha) (hσ.currentFinite hB hb)
  -- the kernel fails on its one allocation only
  have hrun : (dispatchGemmFiniteU8 env ctx plan modulus a b c A B C σ.store).1 = .success := by
    have hloop := kernelLoop_of_allocOk (gemmArgs plan a b c A B C fun _ => modulus) 0
      (finiteGemmCalls plan) (by simpa [finiteGemmCalls] using halloc) σ.store.planes
    unfold dispatchGemmFiniteU8
    simp only [hbackend, cpuGemmFiniteU8_runs env.cpu a b c σ.store.planes hAf hBf hCf hAs hBs hCs]
    split
    · rfl
    · next status mem hne heq =>
      rw [heq] at hloop
      exact absurd hloop hne
  unfold rns8GemmFiniteU8
  rw [if_neg (by simp [hA, hB, hC]), validate_createWorkspace hws, onSuccess_success,
    withOperands_some hA hB hC, hops]
  simpa using hrun

/-- An export that succeeds writes the canonical representatives. -/
theorem finiteExport_read (hcpu : ctx.backend = .cpuReference) (hσ : σ.Inv) {env : ExportEnv UInt8}
    {plan : Plan} {modulus : ℕ} {h : Handle} {dst : ℕ → UInt8} {ld : ℕ} {C : RnsMatrix}
    (hC : σ.store h = some C)
    (hst : (rns8ExportFiniteU8 env ctx plan modulus C dst ld).1 = .success) :
    σ.Knows h modulus ∧ ∀ row < plan.desc.m, ∀ col < plan.desc.n,
      (((rns8ExportFiniteU8 env ctx plan modulus C dst ld).2 (row * ld + col)).toNat : ℤ) =
        σ.value h row col % modulus := by
  -- a successful export passed the checks
  have hvalid : validateFiniteExportMatrix ctx plan modulus C = .success := by
    by_contra hne
    unfold rns8ExportFiniteU8 at hst
    split at hst
    · cases hst
    · rw [if_pos hne] at hst
      exact hne hst
  have hbackend := validateFiniteExportMatrix_backend hcpu hvalid
  have hexport := validateFiniteExportMatrix_spec hvalid
  have hmodulus := finiteModulus_bounds hexport.valid
  -- current residues are residues of a known value, and the modulus is the one asked for
  obtain ⟨v, hv, hvm⟩ := hσ.exists_known hC (hbackend ▸ hexport.current)
  have hk : σ.Knows h modulus := ⟨v, hv, hvm.symm.trans hexport.modulus_eq⟩
  refine ⟨hk, fun row hrow col hcol => ?_⟩
  obtain ⟨value, hcell, hwritten⟩ := (exportFiniteU8_atomic ctx C ld (by rw [hbackend]; rfl) env
    modulus).written dst hst row hrow col hcol
  have hword := hwritten 0 Nat.one_pos
  rw [Nat.mul_one, Nat.add_zero] at hword
  have hread : C.residues.cell (residueIndex C 0 row col) =
      centeredResidue (σ.value h row col) modulus :=
    hσ.read hC hk (by rw [hexport.rows]; exact hrow) (by rw [hexport.cols]; exact hcol)
  rw [residueIndex, Nat.zero_mul, Nat.zero_add] at hread
  have hpos : (0 : ℤ) < modulus := by exact_mod_cast hmodulus.1
  have h0 := Int.emod_nonneg (σ.value h row col) hpos.ne'
  have h1 := Int.emod_lt_of_pos (σ.value h row col) hpos
  rw [hword, ← Except.ok.inj hcell, exportCellFiniteU8, hread,
    canonicalFromCentered_centeredResidue _ hmodulus.1 hmodulus.2, UInt8.toNat_ofNat']
  have hle : (modulus : ℤ) ≤ 256 := by exact_mod_cast hmodulus.2
  omega

/-- **Every call answers.** -/
theorem finiteOp_answers (hcpu : ctx.backend = .cpuReference) (hσ : σ.Inv) (op : FiniteOp) :
    op.Answers ctx σ := by
  cases op with
  | create env h desc => trivial
  | pack env h modulus src ld version =>
    intro matrix (hm : σ.store h = some matrix) haccess hmodulus
    have hpack := rns8PackFiniteU8_success env src version hcpu (hσ h matrix hm).finite haccess
      hmodulus
    simpa [FiniteOp.call, hm] using hpack
  | gemm env plan workspace modulus a b c =>
    intro A hA B hB C hC hplan hws hAs hBs hCs ha hb halloc
    exact finiteGemm_success hcpu hσ hA hB hC hplan hws hAs hBs hCs ha hb halloc
  | exportU8 env plan modulus h dst ld =>
    intro C (hC : σ.store h = some C)
    have hcall : ((FiniteOp.exportU8 env plan modulus h dst ld).call ctx σ.store).1 =
        (rns8ExportFiniteU8 env ctx plan modulus C dst ld).1 := by simp [FiniteOp.call, hC]
    rw [hcall]
    refine ⟨fun hplan hCs hk haccess => ?_, fun hst => finiteExport_read hcpu hσ hC hst⟩
    obtain ⟨hbackend, hvalid, hcontract⟩ := hplan.checks hcpu
    have hchecks := validateFiniteExportMatrix_of_shape hcontract hcpu hbackend hplan.finite hvalid
      hplan.modulus_eq (hσ h C hC).finite hCs (hσ.currentFinite hC hk)
    unfold rns8ExportFiniteU8
    simp [haccess, hchecks, hbackend, hipResidentRnsBackend]

end Steps

/-- **Finite GEMMs end to end.** In a run on the CPU whose GEMMs write a matrix of their own when they
write one, every call answers: packs, GEMMs and exports of well-formed arguments succeed, and an export writes the
canonical representatives of the integer matrix that the run computed. -/
theorem finiteRun_answers {ctx : Context} (hcpu : ctx.backend = .cpuReference)
    {pre post : List FiniteOp} {op : FiniteOp}
    (hrun : Meets (finiteStep ctx) (fun σ op => op.Separate ctx σ) FiniteState.empty
      (pre ++ op :: post)) :
    op.Answers ctx (exec (finiteStep ctx) FiniteState.empty pre) := by
  have hstep : ∀ (σ : FiniteState) (op : FiniteOp), σ.Inv → op.Separate ctx σ →
      (finiteStep ctx σ op).Inv := fun _ _ hσ hsep => finiteStep_inv hcpu hσ hsep
  have hpost : ∀ (σ : FiniteState) (op : FiniteOp), σ.Inv → op.Separate ctx σ → op.Answers ctx σ :=
    fun _ op hσ _ => finiteOp_answers hcpu hσ op
  have hanswer := hrun.at_step hstep hpost FiniteState.inv_empty
  exact hanswer

/-! ### Two runs of order one -/

/-- A product of order one modulo `7`. -/
def unitFiniteDesc : GemmDesc where
  semantics := .finiteRingU8
  boundKind := .none
  requestedBackend := .cpuReference
  m := 1
  n := 1
  k := 1
  finiteModulus := 7

/-- A finite matrix of order one. -/
def unitFiniteMatrixDesc : { desc : MatrixDesc // usesFiniteStorage desc.semantics = true } :=
  ⟨makeMatrixDesc 1 1 .finiteRingU8 .none 0 0 0, rfl⟩

/-- Creates three matrices, packs the bytes `9` and `10` and multiplies the first two into `c`. -/
def unitFiniteRun (plan : Plan) (workspace : Workspace) (c : Handle) : List FiniteOp :=
  [.create (.ok 1) 0 unitFiniteMatrixDesc, .create (.ok 2) 1 unitFiniteMatrixDesc,
    .create (.ok 3) 2 unitFiniteMatrixDesc, .pack (.ok _) 0 7 (fun _ => 9) 1 0,
    .pack (.ok _) 1 7 (fun _ => 10) 1 0, .gemm .ok plan workspace 7 0 1 c]

/-- The export of the output. -/
def unitFiniteExport (plan : Plan) (c : Handle) : FiniteOp :=
  .exportU8 ⟨true, (.success, fun _ => 0), serialRows⟩ plan 7 c (fun _ => 0) 1

/-- With an output of its own, `9 * 10` is exported as `6` modulo `7`. -/
theorem finiteRun_answers_unit : ∃ plan ∈ (rns8CreatePlan .cpu unitFiniteDesc).toOption,
    ∃ workspace ∈ (rns8CreateWorkspace .cpu plan).toOption,
      (unitFiniteExport plan 2).Answers .cpu
        (exec (finiteStep .cpu) .empty (unitFiniteRun plan workspace 2)) := by
  have hmade : ∃ plan ∈ (rns8CreatePlan .cpu unitFiniteDesc).toOption,
      ∃ workspace ∈ (rns8CreateWorkspace .cpu plan).toOption, plan.backend = .cpuReference := by
    decide +kernel
  obtain ⟨plan, hplan, workspace, hworkspace, -⟩ := hmade
  refine ⟨plan, hplan, workspace, hworkspace, ?_⟩
  have hrun : Meets (finiteStep .cpu) (fun σ op => op.Separate .cpu σ) FiniteState.empty
      (unitFiniteRun plan workspace 2 ++ unitFiniteExport plan 2 :: []) := by
    simp [unitFiniteRun, unitFiniteExport, FiniteOp.Separate]
  exact finiteRun_answers rfl hrun

/-- **In place the product is lost**: with the left operand as the output, the export writes `0`. -/
theorem finiteRun_in_place : ¬ ∀ (pre : List FiniteOp) (op : FiniteOp),
    op.Answers .cpu (exec (finiteStep .cpu) .empty pre) := by
  intro h
  have hrun : ∃ plan ∈ (rns8CreatePlan .cpu unitFiniteDesc).toOption,
      ∃ workspace ∈ (rns8CreateWorkspace .cpu plan).toOption,
        (plan.desc.m = 1 ∧ plan.desc.n = 1) ∧
        ∃ C ∈ (exec (finiteStep .cpu) .empty (unitFiniteRun plan workspace 0)).store 0,
          (rns8ExportFiniteU8 ⟨true, (.success, fun _ => 0), serialRows⟩ .cpu plan 7 C
            (fun _ => 0) 1).1 = .success ∧
          (rns8ExportFiniteU8 ⟨true, (.success, fun _ => 0), serialRows⟩ .cpu plan 7 C
            (fun _ => 0) 1).2 0 = 0 ∧
          (exec (finiteStep .cpu) .empty (unitFiniteRun plan workspace 0)).value 0 0 0 % (7 : ℕ) = 6 := by
    decide +kernel
  obtain ⟨plan, -, workspace, -, ⟨hm, hn⟩, C, hC, hst, hzero, hvalue⟩ := hrun
  have hanswer := h (unitFiniteRun plan workspace 0) (unitFiniteExport plan 0)
  obtain ⟨-, hread⟩ := hanswer C hC
  have hcell := (hread (by
    rw [unitFiniteExport, FiniteOp.call, Option.mem_def.1 hC]
    exact hst)).2 0 (by omega) 0 (by omega)
  rw [hvalue, Nat.zero_mul, Nat.add_zero, hzero] at hcell
  cases hcell

end Rns8
