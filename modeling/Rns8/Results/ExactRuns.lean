import Rns8.Api.ExactMatrices
import Rns8.Results.WrittenPlanes

/-!
# Runs on exact-wide matrices

A run of CPU calls on exact-wide matrices carries, next to the live matrices, the integers that each
of them stands for and its source version. Every call that succeeds leaves a matrix that is proven for
these integers (`ExactState.Inv`), so that a lift of a live matrix never meets a residue that it
rejects: it stops before it writes, or adds the planes of the integers (`exactLift_run`).
-/

namespace Rns8

open CenteredResidue LabelledRun

/-! ### Operations -/

/-- A call on exact-wide matrices. The other GEMMs of the interface refuse a plan of the CPU. -/
inductive ExactOp
  | create (env : CreateEnv) (h : Handle)
      (desc : { desc : MatrixDesc // exactWideSemantics desc.semantics = true })
  | createSparse (hostAlloc : Bool) (instanceId : UInt64) (h : Handle)
      (desc : { desc : SparseMatrixDesc // exactWideSemantics desc.semantics = true })
  | packI64 (env : PackEnv Int64) (h : Handle) (src : ℕ → Int64) (ld : ℕ) (version : UInt64)
  | packU64 (env : PackEnv UInt64) (h : Handle) (src : ℕ → UInt64) (ld : ℕ) (version : UInt64)
  | packSparse (env : SparsePackEnv) (h : Handle) (dense : ℕ → UInt8) (ld : ℕ) (version : UInt64)
  | gemmRns (env : GemmEnv) (plan : MadePlan) (workspace : Workspace) (a b c : Handle)
  | gemmRnsSparseA (env : GemmEnv) (plan : MadePlan) (workspace : Workspace) (a b c : Handle)
  | gemmAuto (env : AutoEnv) (plan : MadePlan) (workspace : Workspace) (a b c : Handle) (budget : ℕ)
  | lift (alloc : Bool) (h : Handle) (target budget : ℕ)

/-- The integers that a live matrix stands for, and its source version. -/
structure Held where
  value : ℕ → ℕ → ℤ
  version : UInt64

/-- A state of a run: the live matrices and what they stand for. -/
structure ExactState where
  store : Store
  sparse : Handle → Option SparseMatrix
  held : Handle → Held
  sparseHeld : Handle → Held

/-- No matrix is live. -/
def ExactState.empty : ExactState :=
  ⟨fun _ => none, fun _ => none, fun _ => ⟨fun _ _ => 0, 0⟩, fun _ => ⟨fun _ _ => 0, 0⟩⟩

/-- The call: its status and the live matrices it leaves. -/
def ExactOp.call (ctx : Context) (σ : ExactState) :
    ExactOp → Status × Store × (Handle → Option SparseMatrix)
  | create env h desc => match rns8CreateMatrix env ctx desc with
    | .ok matrix => (.success, σ.store.set h matrix, σ.sparse)
    | .error status => (status, σ.store, σ.sparse)
  | createSparse hostAlloc instanceId h desc =>
    match rns8CreateSparseMatrix hostAlloc instanceId ctx desc with
    | .ok S => (.success, σ.store, Function.update σ.sparse h (some S))
    | .error status => (status, σ.store, σ.sparse)
  | packI64 env h src ld version =>
    let r := onMatrix h σ.store fun matrix => rns8PackI64 env ctx matrix src ld version
    (r.1, r.2, σ.sparse)
  | packU64 env h src ld version =>
    let r := onMatrix h σ.store fun matrix => rns8PackU64 env ctx matrix src ld version
    (r.1, r.2, σ.sparse)
  | packSparse env h dense ld version => match σ.sparse h with
    | some S =>
      let r := rns8PackSparseA4To2Matrix env ctx S dense ld version
      (r.1, σ.store, Function.update σ.sparse h (some r.2))
    | none => (.invalidArgument, σ.store, σ.sparse)
  | gemmRns env plan workspace a b c =>
    let r := rns8GemmRns env ctx plan workspace a b c σ.store
    (r.1, r.2, σ.sparse)
  | gemmRnsSparseA env plan workspace a b c => match σ.sparse a with
    | some S =>
      let r := rns8GemmRnsSparseA env ctx plan workspace S b c σ.store
      (r.1, r.2, σ.sparse)
    | none => (.invalidArgument, σ.store, σ.sparse)
  | gemmAuto env plan workspace a b c budget =>
    let r := rns8GemmExactWideCpuAuto env ctx plan workspace a b c budget 0 σ.store
    (r.1, r.2.1, σ.sparse)
  | lift alloc h target budget =>
    let r := onMatrix h σ.store fun matrix => rns8LiftExactWideCpu alloc ctx matrix target budget
    (r.1, r.2, σ.sparse)

/-- The integers of a packed sparse source under the descriptor of the matrix behind a handle. -/
def ExactState.sparseSource (σ : ExactState) (h : Handle) (dense : ℕ → UInt8) (ld : ℕ) :
    ℕ → ℕ → ℤ := match σ.sparse h with
  | some S => sparseCellValue S.desc dense ld
  | none => fun _ _ => 0

/-- The product of what two handles stand for. -/
def heldProduct (k : ℕ) (a b : Held) : Held :=
  ⟨matProduct k a.value b.value, gemmOutputSourceVersionValues a.version b.version⟩

/-- What the matrices stand for after a successful call. -/
def ExactOp.held (σ : ExactState) : ExactOp → Handle → Held
  | create _ h _ => Function.update σ.held h ⟨fun _ _ => 0, 0⟩
  | packI64 _ h src ld version => Function.update σ.held h ⟨sourceI64 src ld, version⟩
  | packU64 _ h src ld version => Function.update σ.held h ⟨sourceU64 src ld, version⟩
  | gemmRns _ plan _ a b c | gemmAuto _ plan _ a b c _ =>
    Function.update σ.held c (heldProduct plan.1.desc.k (σ.held a) (σ.held b))
  | gemmRnsSparseA _ plan _ a b c =>
    Function.update σ.held c (heldProduct plan.1.desc.k (σ.sparseHeld a) (σ.held b))
  | createSparse .. | packSparse .. | lift .. => σ.held

/-- What the sparse matrices stand for after a call that succeeds, or that has replaced one. -/
def ExactOp.sparseHeld (σ : ExactState) : ExactOp → Handle → Held
  | createSparse _ _ h _ => Function.update σ.sparseHeld h ⟨fun _ _ => 0, 0⟩
  | packSparse _ h dense ld version =>
    Function.update σ.sparseHeld h ⟨σ.sparseSource h dense ld, version⟩
  | _ => σ.sparseHeld

/-- The call replaces what a sparse matrix holds, whether or not it then succeeds: its source packs,
and only the upload and the cache key are left. -/
def ExactOp.repacks (ctx : Context) (σ : ExactState) : ExactOp → Bool
  | packSparse env h dense ld _ => (σ.sparse h).any fun S => packReachesSwaps env ctx S dense ld
  | _ => false

/-- One step of a run. -/
def exactStep (ctx : Context) (σ : ExactState) (op : ExactOp) : ExactState where
  store := (op.call ctx σ).2.1
  sparse := (op.call ctx σ).2.2
  held := if (op.call ctx σ).1 = .success then op.held σ else σ.held
  sparseHeld := if (op.call ctx σ).1 = .success ∨ op.repacks ctx σ = true then op.sparseHeld σ
    else σ.sparseHeld

/-! ### The invariant -/

/-- A live matrix has its storage; while it is current it is proven for its integers. -/
structure HoldsExact (held : Held) (matrix : RnsMatrix) : Prop where
  storage : ExactStorage matrix
  proven : matrix.hostResiduesCurrent = true →
    Proven matrix held.value ∧ matrix.sourceVersion = held.version

/-- A live sparse matrix that was packed has the packed form of its integers. -/
structure HoldsSparse (held : Held) (S : SparseMatrix) : Prop where
  storage : SparseStorage S
  packed : S.hostCurrent = true → PackedSparse S held.value ∧ S.sourceVersion = held.version

/-- Every live matrix is proven for the integers it stands for. -/
structure ExactState.Inv (σ : ExactState) : Prop where
  dense : ∀ h, ∀ matrix ∈ σ.store h, HoldsExact (σ.held h) matrix
  sparse : ∀ h, ∀ S ∈ σ.sparse h, HoldsSparse (σ.sparseHeld h) S

theorem ExactState.inv_empty : ExactState.empty.Inv where
  dense := fun _ _ hm => by simp [ExactState.empty] at hm
  sparse := fun _ _ hm => by simp [ExactState.empty] at hm

section Updates

variable {σ : ExactState} {h : Handle}

/-- A matrix that is replaced together with its integers. -/
theorem ExactState.Inv.set (hσ : σ.Inv) {matrix : RnsMatrix} {held : Held}
    (hm : HoldsExact held matrix) : ExactState.Inv
      ⟨σ.store.set h matrix, σ.sparse, Function.update σ.held h held, σ.sparseHeld⟩ := by
  refine ⟨fun h' matrix' hmem => ?_, hσ.sparse⟩
  change σ.store.set h matrix h' = some matrix' at hmem
  change HoldsExact (Function.update σ.held h held h') matrix'
  by_cases hh : h' = h
  · subst hh
    rw [Store.set_self] at hmem
    obtain rfl := Option.some.inj hmem
    rwa [Function.update_self]
  · rw [Store.set_of_ne _ _ hh] at hmem
    rw [Function.update_of_ne hh]
    exact hσ.dense h' matrix' hmem

/-- A matrix that is replaced and stands for the same integers. -/
theorem ExactState.Inv.replace (hσ : σ.Inv) {matrix : RnsMatrix} (hm : HoldsExact (σ.held h) matrix) :
    ExactState.Inv ⟨σ.store.set h matrix, σ.sparse, σ.held, σ.sparseHeld⟩ := by
  have hset := hσ.set (h := h) hm
  rwa [Function.update_eq_self] at hset

/-- A sparse matrix that is replaced together with its integers. -/
theorem ExactState.Inv.setSparse (hσ : σ.Inv) {S : SparseMatrix} {held : Held}
    (hS : HoldsSparse held S) : ExactState.Inv
      ⟨σ.store, Function.update σ.sparse h (some S), σ.held,
        Function.update σ.sparseHeld h held⟩ := by
  refine ⟨hσ.dense, fun h' S' hmem => ?_⟩
  change Function.update σ.sparse h (some S) h' = some S' at hmem
  change HoldsSparse (Function.update σ.sparseHeld h held h') S'
  by_cases hh : h' = h
  · subst hh
    rw [Function.update_self] at hmem
    obtain rfl := Option.some.inj hmem
    rwa [Function.update_self]
  · rw [Function.update_of_ne hh] at hmem
    rw [Function.update_of_ne hh]
    exact hσ.sparse h' S' hmem

variable {ctx : Context} {op : ExactOp} {s : Store} {sparse : Handle → Option SparseMatrix}

theorem exactStep_of_success (hcall : op.call ctx σ = (.success, s, sparse)) :
    exactStep ctx σ op = ⟨s, sparse, op.held σ, op.sparseHeld σ⟩ := by
  simp [exactStep, hcall]

theorem exactStep_of_failed {status : Status} (hno : op.repacks ctx σ = false)
    (hst : status ≠ .success) (hcall : op.call ctx σ = (status, s, sparse)) :
    exactStep ctx σ op = ⟨s, sparse, σ.held, σ.sparseHeld⟩ := by
  simp [exactStep, hcall, hst, hno]

/-- A call that replaces a sparse matrix does so whatever its status. -/
theorem exactStep_of_repacked {status : Status} (hyes : op.repacks ctx σ = true)
    (hcall : op.call ctx σ = (status, s, sparse)) (hheld : op.held σ = σ.held) :
    exactStep ctx σ op = ⟨s, sparse, σ.held, op.sparseHeld σ⟩ := by
  simp [exactStep, hcall, hyes, hheld]

theorem onMatrix_some {matrix : RnsMatrix} (hm : s h = some matrix)
    (f : RnsMatrix → Status × RnsMatrix) :
    onMatrix h s f = ((f matrix).1, s.set h (f matrix).2) := by
  rw [onMatrix, hm]

/-- A call that is rejected changes nothing. -/
theorem exactStep_of_rejected {status : Status} (hno : op.repacks ctx σ = false)
    (hst : status ≠ .success) (hcall : op.call ctx σ = (status, σ.store, σ.sparse)) :
    exactStep ctx σ op = σ :=
  exactStep_of_failed hno hst hcall

/-- A call without its matrix is rejected. -/
theorem exactStep_of_missing (hno : op.repacks ctx σ = false)
    (hcall : op.call ctx σ = (.invalidArgument, σ.store, σ.sparse)) : exactStep ctx σ op = σ :=
  exactStep_of_rejected hno (by simp) hcall

end Updates

/-! ### Steps -/

section Steps

variable {ctx : Context} {σ : ExactState}

theorem exactStep_inv_create (hcpu : ctx.backend = .cpuReference) (hσ : σ.Inv) (env : CreateEnv)
    (h : Handle) (desc : { desc : MatrixDesc // exactWideSemantics desc.semantics = true }) :
    (exactStep ctx σ (.create env h desc)).Inv := by
  cases hc : rns8CreateMatrix env ctx desc with
  | error status =>
    rw [exactStep_of_rejected rfl (rns8CreateMatrix_cpu_error hcpu hc) (by simp [ExactOp.call, hc])]
    exact hσ
  | ok matrix =>
    obtain ⟨⟨hstorage, hproven⟩, hversion⟩ := rns8CreateMatrix_exact hcpu desc.2 hc
    have hcall : (ExactOp.create env h desc).call ctx σ =
        (.success, σ.store.set h matrix, σ.sparse) := by simp [ExactOp.call, hc]
    rw [exactStep_of_success hcall]
    exact hσ.set ⟨hstorage, fun _ => ⟨hproven, hversion⟩⟩

theorem rns8CreateSparseMatrix_error {hostAlloc : Bool} {instanceId : UInt64} {desc : SparseMatrixDesc}
    {status : Status} (h : rns8CreateSparseMatrix hostAlloc instanceId ctx desc = .error status) :
    status ≠ .success := by
  unfold rns8CreateSparseMatrix at h
  split at h
  · cases h; simp
  split at h
  · cases h; simp
  split at h
  · cases h; simp
  split at h
  · cases h; simp
  · cases h

/-- A new sparse matrix on the CPU was not packed. -/
theorem rns8CreateSparseMatrix_cpu {hostAlloc : Bool} {instanceId : UInt64} {desc : SparseMatrixDesc}
    {S : SparseMatrix} (hcpu : ctx.backend = .cpuReference)
    (hexact : exactWideSemantics desc.semantics = true)
    (h : rns8CreateSparseMatrix hostAlloc instanceId ctx desc = .ok S) :
    SparseStorage S ∧ S.hostCurrent = false := by
  unfold rns8CreateSparseMatrix at h
  split at h
  · cases h
  next planes hvalid =>
  split at h
  · cases h
  split at h
  · cases h
  split at h
  · cases h
  obtain rfl := Except.ok.inj h
  exact ⟨⟨hexact, hcpu, planes, hvalid⟩, rfl⟩

theorem exactStep_inv_createSparse (hcpu : ctx.backend = .cpuReference) (hσ : σ.Inv)
    (hostAlloc : Bool) (instanceId : UInt64) (h : Handle)
    (desc : { desc : SparseMatrixDesc // exactWideSemantics desc.semantics = true }) :
    (exactStep ctx σ (.createSparse hostAlloc instanceId h desc)).Inv := by
  cases hc : rns8CreateSparseMatrix hostAlloc instanceId ctx desc with
  | error status =>
    rw [exactStep_of_rejected rfl (rns8CreateSparseMatrix_error hc) (by simp [ExactOp.call, hc])]
    exact hσ
  | ok S =>
    obtain ⟨hstorage, hnew⟩ := rns8CreateSparseMatrix_cpu hcpu desc.2 hc
    have hcall : (ExactOp.createSparse hostAlloc instanceId h desc).call ctx σ =
        (.success, σ.store, Function.update σ.sparse h (some S)) := by simp [ExactOp.call, hc]
    rw [exactStep_of_success hcall]
    exact hσ.setSparse ⟨hstorage, fun hcurrent => by rw [hnew] at hcurrent; cases hcurrent⟩

/-- A call on one matrix that rejects or packs a source keeps the invariant. -/
theorem exactStep_inv_pack (hσ : σ.Inv) {op : ExactOp} {h : Handle}
    {f : RnsMatrix → Status × RnsMatrix} (source : PackSource) (version : UInt64)
    (hcall : op.call ctx σ = ((onMatrix h σ.store f).1, (onMatrix h σ.store f).2, σ.sparse))
    (hno : op.repacks ctx σ = false)
    (hf : ∀ matrix ∈ σ.store h, ((f matrix).1 ≠ .success ∧ (f matrix).2 = matrix) ∨
      ∃ packed, f matrix = (.success, packed) ∧ (ExactStorage packed ∧ Proven packed source.value) ∧
        packed.sourceVersion = version)
    (hheld : op.held σ = Function.update σ.held h ⟨source.value, version⟩)
    (hsparse : op.sparseHeld σ = σ.sparseHeld) : (exactStep ctx σ op).Inv := by
  cases hm : σ.store h with
  | none =>
    rw [exactStep_of_missing hno (by rw [hcall, onMatrix, hm])]
    exact hσ
  | some matrix =>
    rw [onMatrix_some hm] at hcall
    rcases hf matrix hm with ⟨hst, hkeep⟩ | ⟨packed, hpack, ⟨hstorage, hproven⟩, hversion⟩
    · rw [hkeep, Store.set_same _ hm] at hcall
      rw [exactStep_of_rejected hno hst hcall]
      exact hσ
    · rw [hpack] at hcall
      rw [exactStep_of_success hcall, hheld, hsparse]
      exact hσ.set ⟨hstorage, fun _ => ⟨hproven, hversion⟩⟩

/-- A signed pack of a live matrix. -/
theorem rns8PackI64_exact (hcpu : ctx.backend = .cpuReference) (hσ : σ.Inv) {h : Handle}
    (env : PackEnv Int64) (src : ℕ → Int64) (ld : ℕ) (version : UInt64) {matrix : RnsMatrix}
    (hm : σ.store h = some matrix) :
    ((rns8PackI64 env ctx matrix src ld version).1 ≠ .success ∧
        (rns8PackI64 env ctx matrix src ld version).2 = matrix) ∨
      ∃ packed, rns8PackI64 env ctx matrix src ld version = (.success, packed) ∧
        (ExactStorage packed ∧ Proven packed (packSourceI64 env ctx src ld).value) ∧
          packed.sourceVersion = version := by
  have hs := (hσ.dense h matrix hm).storage
  rcases rns8PackI64_cpu env matrix src ld version hcpu with hno | ⟨hsem, proof, hproof, heq⟩
  · exact Or.inl hno
  · have hkind : matrix.desc.semantics = .exactWideSigned := by
      rcases hsem with hsem | hsem
      · have hexact := hs.exact
        rw [hsem] at hexact
        cases hexact
      · exact hsem
    exact Or.inr ⟨_, heq, packedMatrix_exact hs hcpu hkind
      (fun hu => by rw [hkind] at hu; cases hu) hproof⟩

/-- An unsigned pack of a live matrix. -/
theorem rns8PackU64_exact (hcpu : ctx.backend = .cpuReference) (hσ : σ.Inv) {h : Handle}
    (env : PackEnv UInt64) (src : ℕ → UInt64) (ld : ℕ) (version : UInt64) {matrix : RnsMatrix}
    (hm : σ.store h = some matrix) :
    ((rns8PackU64 env ctx matrix src ld version).1 ≠ .success ∧
        (rns8PackU64 env ctx matrix src ld version).2 = matrix) ∨
      ∃ packed, rns8PackU64 env ctx matrix src ld version = (.success, packed) ∧
        (ExactStorage packed ∧ Proven packed (packSourceU64 env ctx src ld).value) ∧
          packed.sourceVersion = version := by
  have hs := (hσ.dense h matrix hm).storage
  rcases rns8PackU64_cpu env matrix src ld version hcpu (usesRnsStorage_of_exact hs.exact) with
    hno | ⟨hsem, proof, hproof, heq⟩
  · exact Or.inl hno
  · have hkind : matrix.desc.semantics = .exactWideUnsigned := by
      rcases hsem with hsem | hsem
      · have hexact := hs.exact
        rw [hsem] at hexact
        cases hexact
      · exact hsem
    exact Or.inr ⟨_, heq, packedMatrix_exact hs hcpu hkind
      (fun _ row col => Int.natCast_nonneg _) hproof⟩

theorem exactStep_inv_packSparse (hσ : σ.Inv) (env : SparsePackEnv) (h : Handle)
    (dense : ℕ → UInt8) (ld : ℕ) (version : UInt64) :
    (exactStep ctx σ (.packSparse env h dense ld version)).Inv := by
  cases hS : σ.sparse h with
  | none =>
    rw [exactStep_of_missing (by simp [ExactOp.repacks, hS]) (by simp only [ExactOp.call, hS])]
    exact hσ
  | some S =>
    have hholds := hσ.sparse h S hS
    have hrepacks : (ExactOp.packSparse env h dense ld version).repacks ctx σ =
        packReachesSwaps env ctx S dense ld := by simp [ExactOp.repacks, hS]
    have hcall : (ExactOp.packSparse env h dense ld version).call ctx σ =
        ((rns8PackSparseA4To2Matrix env ctx S dense ld version).1, σ.store,
          Function.update σ.sparse h
            (some (rns8PackSparseA4To2Matrix env ctx S dense ld version).2)) := by
      simp only [ExactOp.call, hS]
    -- a pack that fails before the swaps leaves the matrix, one that reaches them repacks it
    rcases rns8PackSparseA4To2Matrix_cases env ctx S dense ld version with ⟨hno, hst, hkeep⟩ |
      ⟨hreaches, packed, hpacked, current, hip, device, heq, -⟩
    · have hsame : Function.update σ.sparse h (some S) = σ.sparse := by
        rw [← hS, Function.update_eq_self]
      rw [hkeep, hsame] at hcall
      rw [exactStep_of_rejected (hrepacks.trans hno) hst hcall]
      exact hσ
    · -- the source is in the matrix now, also when the cache key is not
      rw [heq] at hcall
      have hstep := exactStep_of_repacked (hrepacks.trans hreaches) hcall rfl
      rw [hstep]
      refine hσ.setSparse ⟨⟨hholds.storage.exact, hholds.storage.backend, hholds.storage.valid⟩,
        fun _ => ⟨⟨if_pos hholds.storage.exact, dense, ld, (packSparseA4To2_valid hpacked).1, hpacked,
          if_pos hholds.storage.exact, ?_⟩, rfl⟩⟩
      simp only [ExactState.sparseSource, hS]

theorem exactStep_inv_gemm (hcpu : ctx.backend = .cpuReference) (hσ : σ.Inv) (env : GemmEnv)
    (plan : MadePlan) (workspace : Workspace) (a b c : Handle) :
    (exactStep ctx σ (.gemmRns env plan workspace a b c)).Inv := by
  by_cases hws : validatePlanContextWorkspace ctx plan workspace = .success
  swap
  · obtain ⟨hst, hkeep⟩ := rns8GemmRns_of_workspace env a b c σ.store hws
    rw [exactStep_of_rejected rfl hst (by rw [ExactOp.call, hkeep])]
    exact hσ
  -- the checks reject the call, or the CPU branch of the entry point runs
  have hbackend := plan_backend_of_workspace hcpu hws
  rcases rns8GemmRns_cpu env ctx workspace a b c σ.store hbackend with ⟨hst, hkeep⟩ |
    ⟨A, B, C, range, hcall, heq⟩
  · rw [exactStep_of_rejected rfl hst (by rw [ExactOp.call, hkeep])]
    exact hσ
  obtain ⟨ctx', desc', hcreate⟩ := plan.2
  obtain ⟨hA, hpA⟩ := hσ.dense a A hcall.left
  obtain ⟨hB, hpB⟩ := hσ.dense b B hcall.right
  obtain ⟨hok, hfailed⟩ := cpuBranchGemmRns_exact env (rns8CreatePlan_created hcreate) hbackend hcall
    hA hB (hσ.dense c C hcall.out).storage (fun h => (hpA h).1) fun h => (hpB h).1
  have hops := validateRnsGemmOperands_cpu hbackend hcall.operands
  generalize cpuBranchGemmRns env plan a b c A B (preparedOutput plan C) range σ.store = out
    at heq hok hfailed
  have hrun : (ExactOp.gemmRns env plan workspace a b c).call ctx σ =
      (out.1, σ.store.set c out.2, σ.sparse) := by rw [ExactOp.call, heq]
  -- a failing kernel keeps the storage but leaves no plane current
  by_cases hst : out.1 = .success
  · obtain ⟨⟨hstorage, hproven⟩, hversion⟩ := hok hst
    rw [hst] at hrun
    rw [exactStep_of_success hrun]
    refine hσ.set ⟨hstorage, fun _ => ⟨hproven, ?_⟩⟩
    rw [hversion, gemmOutputSourceVersion, (hpA hops.left_current).2, (hpB hops.right_current).2]
    rfl
  · obtain ⟨hstorage, hcurrent⟩ := hfailed hst
    rw [exactStep_of_failed rfl hst hrun]
    exact hσ.replace ⟨hstorage, fun h => by rw [hcurrent] at h; cases h⟩

/-- A sparse call whose workspace is rejected is rejected. -/
theorem rns8GemmRnsSparseA_of_workspace (env : GemmEnv) {plan : Plan} {workspace : Workspace}
    (S : SparseMatrix) (b c : Handle) (s : Store)
    (h : validatePlanContextWorkspace ctx plan workspace ≠ .success) :
    (rns8GemmRnsSparseA env ctx plan workspace S b c s).1 ≠ .success ∧
      (rns8GemmRnsSparseA env ctx plan workspace S b c s).2 = s := by
  unfold rns8GemmRnsSparseA
  split
  · exact ⟨by simp, rfl⟩
  · rw [onSuccess_of_ne h]
    exact ⟨h, rfl⟩

theorem exactStep_inv_gemmSparse (hcpu : ctx.backend = .cpuReference) (hσ : σ.Inv) (env : GemmEnv)
    (plan : MadePlan) (workspace : Workspace) (a b c : Handle) :
    (exactStep ctx σ (.gemmRnsSparseA env plan workspace a b c)).Inv := by
  cases hS : σ.sparse a with
  | none =>
    rw [exactStep_of_missing rfl (by simp only [ExactOp.call, hS])]
    exact hσ
  | some S =>
    have hrun : (ExactOp.gemmRnsSparseA env plan workspace a b c).call ctx σ =
        ((rns8GemmRnsSparseA env ctx plan workspace S b c σ.store).1,
          (rns8GemmRnsSparseA env ctx plan workspace S b c σ.store).2, σ.sparse) := by
      simp only [ExactOp.call, hS]
    by_cases hws : validatePlanContextWorkspace ctx plan workspace = .success
    swap
    · obtain ⟨hst, hkeep⟩ := rns8GemmRnsSparseA_of_workspace env S b c σ.store hws
      rw [exactStep_of_rejected rfl hst (by rw [hrun, hkeep])]
      exact hσ
    -- the checks reject the call, or the CPU branch expands the sparse operand and multiplies
    have hbackend := plan_backend_of_workspace hcpu hws
    rcases rns8GemmRnsSparseA_cpu env ctx workspace S b c σ.store hbackend with ⟨hst, hkeep⟩ |
      ⟨B, C, bound, hcall, heq⟩
    · rw [exactStep_of_rejected rfl hst (by rw [hrun, hkeep])]
      exact hσ
    obtain ⟨ctx', desc', hcreate⟩ := plan.2
    obtain ⟨hstorageS, hpS⟩ := hσ.sparse a S hS
    obtain ⟨hB, hpB⟩ := hσ.dense b B hcall.right
    have hops := validateRnsGemmOperands_cpu hbackend hcall.operands
    obtain ⟨hok, hfailed⟩ := sparseBranch_exact env (rns8CreatePlan_created hcreate) hbackend hcall
      hstorageS hB (hσ.dense c C hcall.out).storage (hpS hcall.current).1 fun h => (hpB h).1
    generalize sparseBranch env plan S b c B (preparedOutput plan C) bound σ.store = out
      at heq hok hfailed
    rw [heq] at hrun
    -- a failing kernel keeps the storage but leaves no plane current
    by_cases hst : out.1 = .success
    · obtain ⟨⟨hstorage, hproven⟩, hversion⟩ := hok hst
      rw [hst] at hrun
      rw [exactStep_of_success hrun]
      refine hσ.set ⟨hstorage, fun _ => ⟨hproven, ?_⟩⟩
      rw [hversion, (hpS hcall.current).2, (hpB hops.right_current).2]
      rfl
    · obtain ⟨hstorage, hcurrent⟩ := hfailed hst
      rw [exactStep_of_failed rfl hst hrun]
      exact hσ.replace ⟨hstorage, fun h => by rw [hcurrent] at h; cases h⟩

/-- A lifted matrix stands for the same integers. -/
theorem HoldsExact.lifted {held : Held} {matrix : RnsMatrix} (hm : HoldsExact held matrix)
    (hcurrent : matrix.hostResiduesCurrent = true) {target : ℕ} (hle : target ≤ matrix.rnsPrefix) :
    HoldsExact held (liftedTo matrix held.value target) := by
  obtain ⟨hproven, hversion⟩ := hm.proven hcurrent
  refine ⟨liftedTo_storage hm.storage target, fun _ => ⟨liftedTo_proven hm.storage hproven hle, ?_⟩⟩
  rw [liftedTo_keeps]
  exact hversion

theorem exactStep_inv_auto (hσ : σ.Inv) (env : AutoEnv) (plan : MadePlan) (workspace : Workspace)
    (a b c : Handle) (budget : ℕ) :
    (exactStep ctx σ (.gemmAuto env plan workspace a b c budget)).Inv := by
  rcases rns8GemmExactWideCpuAuto_cases env ctx plan workspace a b c budget 0 σ.store with
    ⟨hst, hkeep⟩ | ⟨A, B, C, r, ⟨hA, hB, hC⟩, ⟨hac, hbc⟩, hstage, heq⟩
  · rw [exactStep_of_rejected rfl hst (by rw [ExactOp.call, hkeep])]
    exact hσ
  have hholdsA := hσ.dense a A hA
  have hholdsB := hσ.dense b B hB
  have hholdsC := hσ.dense c C hC
  have hr := stageAuto_ok hholdsA.storage hholdsB.storage (fun h => (hholdsA.proven h).1)
    (fun h => (hholdsB.proven h).1) (fun hsame => by
      obtain rfl := of_decide_eq_true hsame
      exact ⟨Option.some.inj (hA.symm.trans hB), rfl⟩) hstage
  obtain ⟨hpA, hverA⟩ := hholdsA.proven hr.current.1
  obtain ⟨hpB, hverB⟩ := hholdsB.proven hr.current.2
  obtain ⟨⟨hstorage, hproven⟩, hversion⟩ := commitAutoOutput_exact hholdsC.storage hpA hpB hr
    (gemmOutputSourceVersion A B)
  have hcall : (ExactOp.gemmAuto env plan workspace a b c budget).call ctx σ = (.success,
      (if a = b then σ.store.set a (commitExactCpuLift A r.aLift)
        else (σ.store.set a (commitExactCpuLift A r.aLift)).set b (commitExactCpuLift B r.bLift)).set
          c (commitAutoOutput C r (gemmOutputSourceVersion A B)), σ.sparse) := by
    rw [ExactOp.call, heq]
  rw [exactStep_of_success hcall, hr.left, hr.right]
  -- the operands are lifted first
  have hliftA := hσ.replace (hholdsA.lifted hr.current.1 hr.within.1)
  have hlift : ExactState.Inv ⟨if a = b then σ.store.set a (liftedTo A (σ.held a).value r.selected)
      else (σ.store.set a (liftedTo A (σ.held a).value r.selected)).set b
        (liftedTo B (σ.held b).value r.selected), σ.sparse, σ.held, σ.sparseHeld⟩ := by
    split
    · exact hliftA
    · exact hliftA.replace (hholdsB.lifted hr.current.2 hr.within.2.1)
  have hout : HoldsExact (heldProduct plan.1.desc.k (σ.held a) (σ.held b))
      (commitAutoOutput C r (gemmOutputSourceVersion A B)) := by
    refine ⟨hstorage, fun _ => ⟨hproven, ?_⟩⟩
    rw [hversion, gemmOutputSourceVersion, hverA, hverB]
    rfl
  exact hlift.set hout

/-- A lift of a live matrix, whatever it returns. -/
theorem rns8LiftExactWideCpu_holds (hcpu : ctx.backend = .cpuReference) {held : Held}
    {matrix : RnsMatrix} (hm : HoldsExact held matrix) (alloc : Bool) (target budget : ℕ) :
    HoldsExact held (rns8LiftExactWideCpu alloc ctx matrix target budget).2 := by
  by_cases hst : (rns8LiftExactWideCpu alloc ctx matrix target budget).1 = .success
  swap
  · rw [rns8LiftExactWideCpu_failed hst]
    exact hm
  obtain ⟨hcurrent, hpos, hle⟩ := rns8LiftExactWideCpu_accepted hst
  rw [rns8LiftExactWideCpu_eq hm.storage (hm.proven hcurrent).1 hcpu hcurrent hpos hle] at hst ⊢
  split at hst
  · cases hst
  next hbudget =>
  rw [if_neg hbudget]
  split at hst
  · cases hst
  · next halloc =>
    rw [if_neg halloc]
    exact hm.lifted hcurrent hle

theorem exactStep_inv_lift (hcpu : ctx.backend = .cpuReference) (hσ : σ.Inv) (alloc : Bool)
    (h : Handle) (target budget : ℕ) : (exactStep ctx σ (.lift alloc h target budget)).Inv := by
  cases hm : σ.store h with
  | none =>
    rw [exactStep_of_missing rfl (by simp only [ExactOp.call, onMatrix, hm])]
    exact hσ
  | some matrix =>
    have hholds := rns8LiftExactWideCpu_holds hcpu (hσ.dense h matrix hm) alloc target budget
    have hcall : (ExactOp.lift alloc h target budget).call ctx σ =
        ((rns8LiftExactWideCpu alloc ctx matrix target budget).1,
          σ.store.set h (rns8LiftExactWideCpu alloc ctx matrix target budget).2, σ.sparse) := by
      rw [ExactOp.call, onMatrix_some hm]
    by_cases hst : (rns8LiftExactWideCpu alloc ctx matrix target budget).1 = .success
    · rw [hst] at hcall
      rw [exactStep_of_success hcall]
      exact hσ.replace hholds
    · rw [exactStep_of_failed rfl hst hcall]
      exact hσ.replace hholds

/-- **The step lemma.** Every call keeps the live matrices proven for what they stand for. -/
theorem exactStep_inv (hcpu : ctx.backend = .cpuReference) (hσ : σ.Inv) (op : ExactOp) :
    (exactStep ctx σ op).Inv := by
  cases op with
  | create env h desc => exact exactStep_inv_create hcpu hσ env h desc
  | createSparse hostAlloc instanceId h desc =>
    exact exactStep_inv_createSparse hcpu hσ hostAlloc instanceId h desc
  | packI64 env h src ld version =>
    exact exactStep_inv_pack hσ (packSourceI64 env ctx src ld) version rfl rfl
      (fun _ hm => rns8PackI64_exact hcpu hσ env src ld version hm) rfl rfl
  | packU64 env h src ld version =>
    exact exactStep_inv_pack hσ (packSourceU64 env ctx src ld) version rfl rfl
      (fun _ hm => rns8PackU64_exact hcpu hσ env src ld version hm) rfl rfl
  | packSparse env h dense ld version => exact exactStep_inv_packSparse hσ env h dense ld version
  | gemmRns env plan workspace a b c => exact exactStep_inv_gemm hcpu hσ env plan workspace a b c
  | gemmRnsSparseA env plan workspace a b c =>
    exact exactStep_inv_gemmSparse hcpu hσ env plan workspace a b c
  | gemmAuto env plan workspace a b c budget =>
    exact exactStep_inv_auto hσ env plan workspace a b c budget
  | lift alloc h target budget => exact exactStep_inv_lift hcpu hσ alloc h target budget

/-- Every live matrix of a run is proven for what it stands for. -/
theorem exactRun_inv (hcpu : ctx.backend = .cpuReference) (ops : List ExactOp) :
    (exec (exactStep ctx) ExactState.empty ops).Inv :=
  @exec_invariant _ _ _ ExactState.Inv (fun _ op hσ => exactStep_inv hcpu hσ op) ops _
    ExactState.inv_empty

end Steps

/-! ### Lifts of live matrices -/

/-- What a lift to `target` leaves of a matrix that stands for `value`: the planes that a pack of these
integers into `target` planes stores, with a range proof and a version that hold for them. -/
structure LiftLeaves (value : ℕ → ℕ → ℤ) (target : ℕ) (matrix lifted : RnsMatrix) : Prop where
  planes : ∀ fresh : ℕ → Int8, ∀ o < target * (matrix.desc.rows * matrix.desc.cols),
    lifted.residues.cell o =
      packPlanes target matrix.desc.rows matrix.desc.cols modulusAt value fresh o
  proven : Proven lifted value
  version : lifted.sourceVersion = matrix.sourceVersion
  unchanged : lifted = matrix.provenTo lifted.residues.cell (max matrix.exactRangePrefix target)

section Lifts

variable {ctx : Context} {matrix : RnsMatrix} {held : Held}

/-- A lift of a matrix that stands for its integers. -/
theorem HoldsExact.lift_eq (hm : HoldsExact held matrix) (hcpu : ctx.backend = .cpuReference)
    (hcurrent : matrix.hostResiduesCurrent = true) {target : ℕ} (h0 : 0 < target)
    (hle : target ≤ matrix.rnsPrefix) (alloc : Bool) (budget : ℕ) :
    rns8LiftExactWideCpu alloc ctx matrix target budget =
      if budget < liftBytes matrix target then (.workspaceTooSmall, matrix)
      else if liftBytes matrix target ≠ 0 ∧ alloc = false then (.internalError, matrix)
      else (.success, liftedTo matrix held.value target) := by
  rw [rns8LiftExactWideCpu_eq hm.storage (hm.proven hcurrent).1 hcpu hcurrent h0 hle]
  exact preparedLift_bytes matrix target target ▸ rfl

theorem HoldsExact.lift_success (hm : HoldsExact held matrix) (hcpu : ctx.backend = .cpuReference)
    {target : ℕ} {alloc : Bool} {budget : ℕ}
    (h : (rns8LiftExactWideCpu alloc ctx matrix target budget).1 = .success) :
    (rns8LiftExactWideCpu alloc ctx matrix target budget).2 = liftedTo matrix held.value target := by
  obtain ⟨hcurrent, h0, hle⟩ := rns8LiftExactWideCpu_accepted h
  rw [hm.lift_eq hcpu hcurrent h0 hle] at h ⊢
  split at h
  · cases h
  next hbudget =>
  split at h
  · cases h
  · next halloc => rw [if_neg hbudget, if_neg halloc]

theorem HoldsExact.liftLeaves (hm : HoldsExact held matrix)
    (hcurrent : matrix.hostResiduesCurrent = true) {target : ℕ} (hle : target ≤ matrix.rnsPrefix) :
    LiftLeaves held.value target matrix (liftedTo matrix held.value target) where
  planes := fun fresh _ ho => liftedTo_packed hm.storage (hm.proven hcurrent).1 (le_max_right _ _)
    fresh ho
  proven := liftedTo_proven hm.storage (hm.proven hcurrent).1 hle
  version := by rw [liftedTo_keeps]; rfl
  unchanged := liftedTo_keeps matrix held.value target

end Lifts

/-- **A lift preserves the integers.** In every run of exact-wide calls on the CPU, a lift of a live
matrix to a target among its planes reports nothing but a small budget or a failed allocation; when it
succeeds it leaves the planes of a pack of the integers of the matrix, proven and with their version.
A second lift leaves what one lift to the longer prefix does, and a lift that fails changes nothing. -/
theorem exactLift_run {ctx : Context} (hcpu : ctx.backend = .cpuReference) (ops : List ExactOp)
    {h : Handle} {matrix : RnsMatrix}
    (hm : (exec (exactStep ctx) ExactState.empty ops).store h = some matrix) :
    let held := (exec (exactStep ctx) ExactState.empty ops).held h
    let lift := fun (alloc : Bool) (matrix : RnsMatrix) (target budget : ℕ) =>
      rns8LiftExactWideCpu alloc ctx matrix target budget
    (matrix.hostResiduesCurrent = true →
      (Proven matrix held.value ∧ matrix.sourceVersion = held.version) ∧
      ∀ target, 0 < target → target ≤ matrix.rnsPrefix → ∀ alloc budget,
        (lift alloc matrix target budget).1 =
          if budget < liftBytes matrix target then .workspaceTooSmall
          else if liftBytes matrix target ≠ 0 ∧ alloc = false then .internalError
          else .success) ∧
    (∀ target alloc budget, (lift alloc matrix target budget).1 = .success →
      LiftLeaves held.value target matrix (lift alloc matrix target budget).2) ∧
    (∀ q r alloc alloc' alloc'' budget budget' budget'', q ≤ r →
      (lift alloc matrix q budget).1 = .success →
      (lift alloc' (lift alloc matrix q budget).2 r budget').1 = .success →
      (lift alloc'' matrix r budget'').1 = .success →
      (lift alloc' (lift alloc matrix q budget).2 r budget').2 = (lift alloc'' matrix r budget'').2) ∧
    ∀ target alloc budget, (lift alloc matrix target budget).1 ≠ .success →
      (lift alloc matrix target budget).2 = matrix := by
  have hholds := (exactRun_inv hcpu ops).dense h matrix hm
  refine ⟨fun hcurrent => ⟨hholds.proven hcurrent, fun target h0 hle alloc budget => ?_⟩,
    fun target alloc budget hst => ?_,
    fun q r alloc alloc' alloc'' budget budget' budget'' hqr h1 h2 h3 => ?_,
    fun target alloc budget hst => rns8LiftExactWideCpu_failed hst⟩
  · dsimp only
    rw [hholds.lift_eq hcpu hcurrent h0 hle]
    split
    · rfl
    · split <;> rfl
  · obtain ⟨hcurrent, -, hle⟩ := rns8LiftExactWideCpu_accepted hst
    dsimp only at hst ⊢
    rw [hholds.lift_success hcpu hst]
    exact hholds.liftLeaves hcurrent hle
  · obtain ⟨hcurrent, -, hle⟩ := rns8LiftExactWideCpu_accepted h1
    have hfirst := hholds.lift_success hcpu h1
    dsimp only at h2 h3 ⊢
    rw [hfirst] at h2 ⊢
    rw [(hholds.lifted hcurrent hle).lift_success hcpu h2, hholds.lift_success hcpu h3,
      liftedTo_liftedTo, max_eq_right hqr]

/-- An exact-wide product of order one. -/
def exactScalarDesc : GemmDesc where
  semantics := .exactWideSigned
  boundKind := .none
  requestedBackend := .cpuReference
  m := 1
  n := 1
  k := 1

/-- The descriptor of an exact-wide matrix of order one with all planes. -/
def exactScalarMatrixDesc : MatrixDesc := makeMatrixDesc 1 1 .exactWideSigned .none 20 0 0

/-- `5 * 7` into a new matrix. -/
def exactScalarRun (plan : MadePlan) (workspace : Workspace) : List ExactOp :=
  [.create (.ok 1) 0 ⟨exactScalarMatrixDesc, rfl⟩, .create (.ok 2) 1 ⟨exactScalarMatrixDesc, rfl⟩,
    .create (.ok 3) 2 ⟨exactScalarMatrixDesc, rfl⟩, .packI64 (.ok _) 0 (fun _ => 5) 1 4,
    .packI64 (.ok _) 1 (fun _ => 7) 1 6, .gemmRns .ok plan workspace 0 1 2]

/-- The product has 17 of its 20 planes; a lift adds the others. -/
theorem exactLift_run_scalar :
    ∃ plan ∈ makePlan exactScalarDesc, ∃ workspace ∈ (rns8CreateWorkspace .cpu plan).toOption,
      let σ := exec (exactStep .cpu) ExactState.empty (exactScalarRun plan workspace)
      ∃ matrix ∈ σ.store 2, matrix.exactRangePrefix = 17 ∧
        LiftLeaves (σ.held 2).value 20 matrix (rns8LiftExactWideCpu true .cpu matrix 20 3).2 := by
  have hlift : ∃ plan ∈ makePlan exactScalarDesc,
      ∃ workspace ∈ (rns8CreateWorkspace .cpu plan).toOption,
        ∃ matrix ∈ (exec (exactStep .cpu) ExactState.empty (exactScalarRun plan workspace)).store 2,
          matrix.exactRangePrefix = 17 ∧
            (rns8LiftExactWideCpu true .cpu matrix 20 3).1 = .success := by
    decide +kernel
  obtain ⟨plan, hplan, workspace, hworkspace, matrix, hm, hprefix, hst⟩ := hlift
  exact ⟨plan, hplan, workspace, hworkspace, matrix, hm, hprefix,
    (exactLift_run rfl (exactScalarRun plan workspace) hm).2.1 20 true 3 hst⟩

end Rns8
