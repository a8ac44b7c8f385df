import Rns8.Results.ExactRuns

/-!
# The automatic GEMM is a transaction

In every run of exact-wide calls, an automatic GEMM writes all of its matrices or none. A call that
returns anything but success leaves the store and the result of its caller; a call that succeeds has
picked the shortest prefix that carries the product, leaves its operands lifted to it and its output
proven for the product (`AutoCommits`). The budget decides only between these two
(`autoGemm_transaction`).
-/

namespace Rns8

open CenteredResidue LabelledRun

/-- `p` is the shortest prefix from `first` on that carries the bound. -/
structure ShortestPrefix (semantics : Semantics) (bound : ℤ) (first p : ℕ) : Prop where
  from_first : first ≤ p
  fits : exactRangeFits semantics bound (modulusProduct p) = true
  least : ∀ q, first ≤ q → q < p → exactRangeFits semantics bound (modulusProduct q) = false

/-- The bytes that an automatic GEMM stages for `selected` planes: the planes that its operands
miss, those of one matrix once, and all planes of its output. -/
def autoPayload (plan : Plan) (same : Bool) (A B : RnsMatrix) (selected : ℕ) : ℕ :=
  liftBytes A selected + (if same then 0 else liftBytes B selected) +
    plan.desc.m * plan.desc.n * selected

/-- What an automatic GEMM commits for operands that stand for `u` and `v`. -/
structure AutoCommits (plan : Plan) (a b c : Handle) (A B C : RnsMatrix) (u v : ℕ → ℕ → ℤ)
    (selected : ℕ) (before after : Store) : Prop where
  operands : before a = some A ∧ before b = some B ∧ before c = some C
  proven : Proven A u ∧ Proven B v
  separate : a ≠ c ∧ b ≠ c
  shortest : ShortestPrefix plan.desc.semantics (exactGemmBound plan A B).1 plan.rnsPrefix selected
  admitted : selected ≤ plan.desc.maxPrefix ∧ selected ≤ A.rnsPrefix ∧ selected ≤ B.rnsPrefix ∧
    selected ≤ C.rnsPrefix
  left : ∃ A' ∈ after a, LiftLeaves u selected A A'
  right : ∃ B' ∈ after b, LiftLeaves v selected B B'
  output : ∃ C' ∈ after c, Proven C' (matProduct plan.desc.k u v) ∧ C'.exactRangePrefix = selected ∧
    C'.sourceVersion = gemmOutputSourceVersion A B ∧ C'.desc = C.desc
  frame : ∀ h, h ≠ a → h ≠ b → h ≠ c → after h = before h

section Call

variable {env : AutoEnv} {ctx : Context} {plan : Plan} {workspace : Workspace} {a b c : Handle}
  {s : Store} {A B C : RnsMatrix}

/-- A call that stages successfully depends on its budget only through its payload. -/
theorem rns8GemmExactWideCpuAuto_budget (hA : s a = some A) (hB : s b = some B) (hC : s c = some C)
    (hne : a ≠ c ∧ b ≠ c) {budget : ℕ} {r : AutoResult}
    (h : stageAuto env ctx plan workspace (decide (a = b)) A B C budget = .ok r) (budget' out : ℕ) :
    rns8GemmExactWideCpuAuto env ctx plan workspace a b c budget' out s =
      if budget' < r.stagedBytes then (.workspaceTooSmall, s, out)
      else rns8GemmExactWideCpuAuto env ctx plan workspace a b c budget out s := by
  have hsame : decide (a = b) = true → A = B := fun hab => by
    obtain rfl := of_decide_eq_true hab
    exact Option.some.inj (hA.symm.trans hB)
  have hbudget := (stageAuto_budget hsame h).2 budget'
  unfold rns8GemmExactWideCpuAuto
  rw [hA, hB, hC]
  dsimp only
  rw [if_neg (not_or.2 hne), if_neg (not_or.2 hne), h, hbudget]
  by_cases hlt : budget' < r.stagedBytes
  · rw [if_pos hlt, if_pos hlt]
  · rw [if_neg hlt, if_neg hlt]

theorem commitAutoOutput_selected (C : RnsMatrix) (r : AutoResult) (version : UInt64) :
    (commitAutoOutput C r version).exactRangePrefix = r.selected ∧
      (commitAutoOutput C r version).desc = C.desc := ⟨rfl, rfl⟩

/-- **What staged values leave** when they are written over matrices that stand for their integers. -/
theorem StagedAuto.commits {held : Handle → Held} {r : AutoResult}
    (hA : HoldsExact (held a) A) (hB : HoldsExact (held b) B) (hC : ExactStorage C)
    (hsome : s a = some A ∧ s b = some B ∧ s c = some C) (hne : a ≠ c ∧ b ≠ c)
    (hr : StagedAuto plan A B C (held a).value (held b).value r) :
    AutoCommits plan a b c A B C (held a).value (held b).value r.selected s
      ((if a = b then s.set a (commitExactCpuLift A r.aLift)
        else (s.set a (commitExactCpuLift A r.aLift)).set b (commitExactCpuLift B r.bLift)).set c
          (commitAutoOutput C r (gemmOutputSourceVersion A B))) := by
  have hpA := (hA.proven hr.current.1).1
  have hpB := (hB.proven hr.current.2).1
  -- the output holds the product under its own proof and the combined version
  obtain ⟨⟨-, hproven⟩, hversion⟩ :=
    commitAutoOutput_exact hC hpA hpB hr (gemmOutputSourceVersion A B)
  obtain ⟨hfirst, hdesc⟩ := commitAutoOutput_selected C r (gemmOutputSourceVersion A B)
  refine ⟨hsome, ⟨hpA, hpB⟩, hne, ⟨hr.first.2, hr.fits, hr.least⟩, ⟨hr.ceiling, hr.within⟩, ?_, ?_,
    ⟨commitAutoOutput C r (gemmOutputSourceVersion A B), Store.set_self _ _ _, hproven, hfirst,
      hversion, hdesc⟩, fun h ha hb hc => ?_⟩
  -- the left operand is committed first, the right one only where it is another matrix
  · refine ⟨_, ?_, hA.liftLeaves hr.current.1 hr.within.1⟩
    rw [Option.mem_def, Store.set_of_ne _ _ hne.1, hr.left]
    split
    · exact Store.set_self _ _ _
    · next hab => rw [Store.set_of_ne _ _ hab, Store.set_self]
  · refine ⟨_, ?_, hB.liftLeaves hr.current.2 hr.within.2.1⟩
    rw [Option.mem_def, Store.set_of_ne _ _ hne.2, hr.left, hr.right]
    split
    · next hab =>
      -- one matrix on both sides: the left commit is the commit of both
      subst hab
      obtain rfl := Option.some.inj (hsome.1.symm.trans hsome.2.1)
      exact Store.set_self _ _ _
    · exact Store.set_self _ _ _
  · rw [Store.set_of_ne _ _ hc]
    split
    · exact Store.set_of_ne _ _ ha
    · rw [Store.set_of_ne _ _ hb, Store.set_of_ne _ _ ha]

end Call

/-- **The automatic GEMM is a transaction.** In every run of exact-wide calls on the CPU, an
automatic GEMM that does not succeed leaves every matrix and the result of its caller as they were.
One that succeeds commits the product of the integers of its operands under the shortest prefix that
carries it, and with another budget the same call does the same exactly when this budget covers the
payload. -/
theorem autoGemm_transaction {ctx : Context} (hcpu : ctx.backend = .cpuReference)
    (ops : List ExactOp) (env : AutoEnv) (plan : Plan) (workspace : Workspace) (a b c : Handle)
    (out : ℕ) :
    let σ := exec (exactStep ctx) ExactState.empty ops
    let call := fun budget =>
      rns8GemmExactWideCpuAuto env ctx plan workspace a b c budget out σ.store
    ∀ budget, ((call budget).1 ≠ .success → (call budget).2 = (σ.store, out)) ∧
      ((call budget).1 = .success → ∃ A B C, AutoCommits plan a b c A B C (σ.held a).value
        (σ.held b).value (call budget).2.2 σ.store (call budget).2.1 ∧
        ∀ budget', call budget' =
          if budget' < autoPayload plan (decide (a = b)) A B (call budget).2.2 then
            (.workspaceTooSmall, σ.store, out)
          else call budget) := by
  intro σ call budget
  have hinv : σ.Inv := exactRun_inv hcpu ops
  -- either nothing is committed, or the staging came through and its result is committed whole
  rcases rns8GemmExactWideCpuAuto_cases env ctx plan workspace a b c budget out σ.store with
    ⟨hst, hkeep⟩ | ⟨A, B, C, r, hsome, hne, hstage, heq⟩
  · exact ⟨fun _ => hkeep, fun hok => absurd hok hst⟩
  refine ⟨fun hst => absurd (congrArg Prod.fst heq) hst, fun _ => ⟨A, B, C, ?_⟩⟩
  obtain ⟨hA, hB, hC⟩ := hsome
  have hholdsA := hinv.dense a A hA
  have hholdsB := hinv.dense b B hB
  -- `a = b` stages one operand for both sides
  have hsame : decide (a = b) = true → A = B := fun hab => by
    obtain rfl := of_decide_eq_true hab
    exact Option.some.inj (hA.symm.trans hB)
  have hr := stageAuto_ok hholdsA.storage hholdsB.storage (fun h => (hholdsA.proven h).1)
    (fun h => (hholdsB.proven h).1) (fun hab => ⟨hsame hab, by rw [of_decide_eq_true hab]⟩) hstage
  obtain ⟨hpayload, hbudget⟩ := stageAuto_budget hsame hstage
  rw [hr.count] at hpayload
  have hcall : call budget = (.success, _, r.selected) := heq
  -- the budget is only compared with the payload, so it decides between two fixed outcomes
  have hcalls := rns8GemmExactWideCpuAuto_budget hA hB hC hne hstage
  rw [hpayload] at hcalls
  refine ⟨?_, fun budget' => ?_⟩
  · rw [hcall]
    exact hr.commits hholdsA hholdsB (hinv.dense c C hC).storage ⟨hA, hB, hC⟩ hne
  · have hselected : (call budget).2.2 = r.selected := by rw [hcall]
    rw [hselected]
    exact hcalls budget' out

/-- `5 * 7` needs 17 bytes: one for each plane of the output. -/
theorem autoGemm_transaction_scalar :
    ∃ plan ∈ makePlan exactScalarDesc, ∃ workspace ∈ (rns8CreateWorkspace .cpu plan).toOption,
      let σ := exec (exactStep .cpu) ExactState.empty (exactScalarRun plan workspace)
      let call := fun budget =>
        rns8GemmExactWideCpuAuto ⟨true, true, true, true⟩ .cpu plan.1 workspace 0 1 2 budget 0 σ.store
      call 16 = (.workspaceTooSmall, σ.store, 0) ∧ ∃ A B C, AutoCommits plan.1 0 1 2 A B C
        (σ.held 0).value (σ.held 1).value 17 σ.store (call 17).2.1 := by
  have hcall : ∃ plan ∈ makePlan exactScalarDesc,
      ∃ workspace ∈ (rns8CreateWorkspace .cpu plan).toOption,
        let σ := exec (exactStep .cpu) ExactState.empty (exactScalarRun plan workspace)
        let call := fun budget => rns8GemmExactWideCpuAuto ⟨true, true, true, true⟩ .cpu plan.1
          workspace 0 1 2 budget 0 σ.store
        (call 17).1 = .success ∧ (call 17).2.2 = 17 ∧ (call 16).1 ≠ .success := by
    decide +kernel
  obtain ⟨plan, hplan, workspace, hworkspace, hok, hselected, hst⟩ := hcall
  have hcpu : Context.cpu.backend = .cpuReference := rfl
  have hrun := autoGemm_transaction hcpu (exactScalarRun plan workspace) ⟨true, true, true, true⟩
    plan.1 workspace 0 1 2 0
  obtain ⟨A, B, C, hcommits, hbudget⟩ := (hrun 17).2 hok
  rw [hselected] at hcommits
  refine ⟨plan, hplan, workspace, hworkspace, ?_, A, B, C, hcommits⟩
  rw [hbudget 16]
  refine if_pos ?_
  by_contra hle
  refine hst ?_
  rw [hbudget 16, if_neg hle]
  exact hok

end Rns8
