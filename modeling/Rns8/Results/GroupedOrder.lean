import Rns8.Api.Grouped
import Rns8.Api.Pack
import Rns8.Api.Sparse

/-!
# Grouped dispatch and the order of its tasks

A grouped GEMM runs its tasks in one launch, in any order. The descriptor compares the matrices of
two tasks in the same role only; the check against outputs that are operands is made for exact-wide
groups alone. A group whose call reaches the launches is independent of the order, and leaves the
product of the operands as they were before the call in every output, exactly when no output is an
operand of the group (`groupedOutcome_iff`).
-/

namespace Rns8

open CenteredResidue

/-! ### The property -/

/-- The call is accepted up to its first launch. -/
def groupedReachesLaunch (ctx : Context) (plan : Plan) (finiteU8 : Bool) (modulus : ℕ)
    (workspaces : Workspaces) (tasks : List GroupedGemmTask) (s : Store) : Bool :=
  groupedSemanticsMatch plan finiteU8 modulus &&
    decide (buildPublicGroupedGemmDescriptor ctx plan workspaces s tasks = .success) &&
    (groupedRanges ctx plan s tasks).toOption.isSome &&
    decide (groupedBackendStatus plan finiteU8 modulus (groupedPrepared plan tasks s) tasks = .success)

/-- **The property.** Whatever the matrices hold, all orders of the tasks have the same outcome, and
either the call is rejected before any task runs, or it succeeds and every output holds the product
of its operands as they were before the call. -/
def GroupedOutcome (ctx : Context) (plan : Plan) (finiteU8 : Bool) (modulus : ℕ)
    (workspaces : Workspaces) (tasks : List GroupedGemmTask) (s : Store) : Prop :=
  ∀ (mem : Planes Handle) (orders : TaskOrders tasks),
    let before := s.withDevicePlanes mem
    let after := executePublicGroupedGemm orders ctx plan finiteU8 modulus workspaces before
    (∀ orders' : TaskOrders tasks,
      executePublicGroupedGemm orders' ctx plan finiteU8 modulus workspaces before = after) ∧
    ((after.1 ≠ .success ∧ after.2.devicePlanes = before.devicePlanes) ∨
      (after.1 = .success ∧ ∀ task ∈ tasks, GroupedProduct (groupedShape plan finiteU8 modulus) task
        before.devicePlanes after.2.devicePlanes))

/-! ### Changes that keep the device residues -/

@[simp] theorem devicePlanes_withDevicePlanes (s : Store) (mem : Planes Handle) {h : Handle}
    {matrix : RnsMatrix} (hm : s h = some matrix) (hres : matrix.hipResidues.isSome = true) :
    (s.withDevicePlanes mem).devicePlanes h = mem h := by
  obtain ⟨buffer, hb⟩ := Option.isSome_iff_exists.1 hres
  simp [Store.devicePlanes, Store.withDevicePlanes, hm, RnsMatrix.withHipResidues, hb,
    DeviceBuffer.cells]

theorem devicePlanes_modify (s : Store) (h : Handle) {f : RnsMatrix → RnsMatrix}
    (hf : ∀ matrix, (f matrix).hipResidues = matrix.hipResidues) :
    (s.modify h f).devicePlanes = s.devicePlanes := by
  funext h'
  by_cases hh : h' = h
  · subst hh
    cases hs : s h' with
    | none => simp [Store.devicePlanes, Store.modify, hs]
    | some matrix => simp [Store.devicePlanes, Store.modify, hs, hf]
  · simp [Store.devicePlanes, Store.modify, hh]

theorem devicePlanes_foldl {α : Type} {step : Store → α → Store}
    (hstep : ∀ s a, (step s a).devicePlanes = s.devicePlanes) (l : List α) (s : Store) :
    (l.foldl step s).devicePlanes = s.devicePlanes :=
  LoopFold.foldl_read_of_frame Store.devicePlanes (fun s a _ => hstep s a) s

theorem stampGroupedOutput_hipResidues (plan : Plan) (finiteU8 : Bool) (modulus : ℕ)
    (version : UInt64) (C : RnsMatrix) :
    (stampGroupedOutput plan finiteU8 modulus version C).hipResidues = C.hipResidues := by
  unfold stampGroupedOutput
  split_ifs <;> rfl

theorem devicePlanes_markGroupedOutput (plan : Plan) (finiteU8 : Bool) (modulus : ℕ) (s : Store)
    (task : GroupedGemmTask) :
    (markGroupedOutput plan finiteU8 modulus s task).devicePlanes = s.devicePlanes := by
  unfold markGroupedOutput
  split
  · exact devicePlanes_modify s _ (stampGroupedOutput_hipResidues plan finiteU8 modulus _)
  · rfl

theorem devicePlanes_commitGroupedRange (plan : Plan) (s : Store)
    (task : GroupedGemmTask × (ℤ × MatrixRanges)) :
    (commitGroupedRange plan s task).devicePlanes = s.devicePlanes := by
  unfold commitGroupedRange
  split
  · refine devicePlanes_modify s _ fun matrix => ?_
    unfold commitExactRange
    split <;> rfl
  · rfl

theorem devicePlanes_invalidateGroupedOutput (s : Store) (task : GroupedGemmTask) :
    (invalidateGroupedOutput s task).devicePlanes = s.devicePlanes := by
  refine devicePlanes_modify s _ fun matrix => ?_
  split <;> rfl

theorem devicePlanes_groupedPrepared (plan : Plan) (tasks : List GroupedGemmTask) (s : Store) :
    (groupedPrepared plan tasks s).devicePlanes = s.devicePlanes := by
  unfold groupedPrepared
  split
  · exact devicePlanes_foldl (fun s (task : GroupedGemmTask) =>
      devicePlanes_modify (f := invalidateOutputCurrentness) s task.c fun _ => rfl) tasks s
  · rfl

/-! ### What the descriptor checks read -/

/-- The part of a matrix that the descriptor checks read. -/
def RnsMatrix.descriptorView (matrix : RnsMatrix) : MatrixDesc × BackendKind × ℕ × Bool × ℤ :=
  (matrix.desc, matrix.backend, matrix.rnsPrefix, matrix.hipResidues.isSome, matrix.hipDeviceId)

/-- The stores show the descriptor checks the same matrices. -/
def Store.SameView (s s' : Store) : Prop :=
  ∀ h, (s h).map RnsMatrix.descriptorView = (s' h).map RnsMatrix.descriptorView

theorem Store.SameView.refl (s : Store) : s.SameView s := fun _ => rfl

theorem Store.SameView.trans {s s' s'' : Store} (h : s.SameView s') (h' : s'.SameView s'') :
    s.SameView s'' := fun x => (h x).trans (h' x)

@[simp] theorem descriptorView_withHipResidues (matrix : RnsMatrix) (cell : ℕ → Int8) :
    (matrix.withHipResidues cell).descriptorView = matrix.descriptorView := by
  simp [RnsMatrix.descriptorView, RnsMatrix.withHipResidues]

theorem sameView_withDevicePlanes (s : Store) (mem : Planes Handle) :
    (s.withDevicePlanes mem).SameView s := by
  intro h
  cases hs : s h <;> simp [Store.withDevicePlanes, hs]

theorem sameView_modify (s : Store) (h : Handle) {f : RnsMatrix → RnsMatrix}
    (hf : ∀ matrix, (f matrix).descriptorView = matrix.descriptorView) : (s.modify h f).SameView s := by
  intro h'
  by_cases hh : h' = h
  · subst hh
    cases hs : s h' <;> simp [Store.modify, hs, hf]
  · simp [Store.modify, hh]

theorem sameView_foldl {α : Type} {step : Store → α → Store}
    (hstep : ∀ s a, (step s a).SameView s) (l : List α) (s : Store) : (l.foldl step s).SameView s :=
  LoopFold.foldl_invariant (I := fun t => Store.SameView t s)
    (fun t a _ ht => (hstep t a).trans ht) (Store.SameView.refl s)

theorem sameView_groupedPrepared (plan : Plan) (tasks : List GroupedGemmTask) (s : Store) :
    (groupedPrepared plan tasks s).SameView s := by
  unfold groupedPrepared
  split
  · exact sameView_foldl (fun s (task : GroupedGemmTask) =>
      sameView_modify (f := invalidateOutputCurrentness) s task.c fun _ => rfl) tasks s
  · exact Store.SameView.refl s

theorem stampGroupedOutput_descriptorView (plan : Plan) (finiteU8 : Bool) (modulus : ℕ)
    (version : UInt64) (C : RnsMatrix) :
    (stampGroupedOutput plan finiteU8 modulus version C).descriptorView = C.descriptorView := by
  unfold stampGroupedOutput
  split_ifs <;> rfl

theorem sameView_markGroupedOutput (plan : Plan) (finiteU8 : Bool) (modulus : ℕ) (s : Store)
    (task : GroupedGemmTask) : (markGroupedOutput plan finiteU8 modulus s task).SameView s := by
  unfold markGroupedOutput
  split
  · exact sameView_modify s _ (stampGroupedOutput_descriptorView plan finiteU8 modulus _)
  · exact Store.SameView.refl s

section SameView

variable {s s' : Store} (hs : s.SameView s')

include hs

theorem Store.SameView.exists_some {h : Handle} {matrix : RnsMatrix} (hm : s' h = some matrix) :
    ∃ matrix', s h = some matrix' ∧ matrix'.descriptorView = matrix.descriptorView := by
  have := hs h
  rw [hm, Option.map_some] at this
  obtain ⟨matrix', hm', hv⟩ := Option.map_eq_some_iff.1 this
  exact ⟨matrix', hm', hv⟩

theorem Store.SameView.eq_none_iff (h : Handle) : s h = none ↔ s' h = none := by
  have := congrArg Option.isNone (hs h)
  simpa [Option.isNone_iff_eq_none] using congrArg (· = true) this

omit hs in
theorem matrixMatchesDescriptor_congr {M M' : RnsMatrix} (h : M.descriptorView = M'.descriptorView)
    (semantics : Semantics) (rows cols rnsPrefix : ℕ) :
    matrixMatchesDescriptor M semantics rows cols rnsPrefix =
      matrixMatchesDescriptor M' semantics rows cols rnsPrefix := by
  simp only [RnsMatrix.descriptorView, Prod.mk.injEq] at h
  simp only [matrixMatchesDescriptor, h]

theorem groupedTaskMatches_congr (plan : Plan) (workspaces : Workspaces) (deviceId : ℤ)
    (task : GroupedGemmTask) : groupedTaskMatches plan workspaces s deviceId task =
      groupedTaskMatches plan workspaces s' deviceId task := by
  have hview := fun h => hs h
  have hA := hview task.a
  have hB := hview task.b
  have hC := hview task.c
  unfold groupedTaskMatches
  rcases h1 : s task.a with _ | A <;> rcases h1' : s' task.a with _ | A' <;> rw [h1, h1'] at hA <;>
    simp only [Option.map_none, Option.map_some, reduceCtorEq] at hA
  rcases h2 : s task.b with _ | B <;> rcases h2' : s' task.b with _ | B' <;> rw [h2, h2'] at hB <;>
    simp only [Option.map_none, Option.map_some, reduceCtorEq] at hB
  rcases h3 : s task.c with _ | C <;> rcases h3' : s' task.c with _ | C' <;> rw [h3, h3'] at hC <;>
    simp only [Option.map_none, Option.map_some, reduceCtorEq] at hC
  rcases h4 : workspaces task.workspace with _ | W
  · rfl
  have hdev : ∀ {M M' : RnsMatrix}, M.descriptorView = M'.descriptorView →
      M.hipDeviceId = M'.hipDeviceId := fun h => by
    simp only [RnsMatrix.descriptorView, Prod.mk.injEq] at h; exact h.2.2.2.2
  have hA := Option.some.inj hA
  have hB := Option.some.inj hB
  have hC := Option.some.inj hC
  simp only [matrixMatchesDescriptor_congr hA, matrixMatchesDescriptor_congr hB,
    matrixMatchesDescriptor_congr hC, hdev hA, hdev hB, hdev hC]

theorem groupedTasksMatch_congr (plan : Plan) (workspaces : Workspaces) (deviceId : ℤ)
    (prior tasks : List GroupedGemmTask) :
    groupedTasksMatch plan workspaces s deviceId prior tasks =
      groupedTasksMatch plan workspaces s' deviceId prior tasks := by
  induction tasks generalizing prior with
  | nil => rfl
  | cons task tasks ih =>
    simp only [groupedTasksMatch, groupedTaskMatches_congr hs, ih]

theorem groupedDeviceId_congr (tasks : List GroupedGemmTask) :
    groupedDeviceId s tasks = groupedDeviceId s' tasks := by
  cases tasks with
  | nil => rfl
  | cons task tasks =>
    have hA := hs task.a
    simp only [groupedDeviceId]
    rcases h1 : s task.a with _ | A <;> rcases h1' : s' task.a with _ | A' <;> rw [h1, h1'] at hA <;>
      simp only [Option.map_none, Option.map_some, reduceCtorEq, Option.some.injEq,
        RnsMatrix.descriptorView, Prod.mk.injEq] at hA
    exact hA.2.2.2.2

theorem validateGroupedGemmDescriptorSetup_congr (plan : Plan) (workspaces : Workspaces)
    (tasks : List GroupedGemmTask) : validateGroupedGemmDescriptorSetup plan workspaces s tasks =
      validateGroupedGemmDescriptorSetup plan workspaces s' tasks := by
  simp only [validateGroupedGemmDescriptorSetup, groupedTasksMatch_congr hs,
    groupedDeviceId_congr hs]

theorem validateGroupedTasks_congr (ctx : Context) (plan : Plan) (workspaces : Workspaces)
    (tasks : List GroupedGemmTask) : validateGroupedTasks ctx plan workspaces s tasks =
      validateGroupedTasks ctx plan workspaces s' tasks := by
  induction tasks with
  | nil => rfl
  | cons task tasks ih =>
    simp only [validateGroupedTasks, ih, hs.eq_none_iff]

theorem buildPublicGroupedGemmDescriptor_congr (ctx : Context) (plan : Plan)
    (workspaces : Workspaces) (tasks : List GroupedGemmTask) :
    buildPublicGroupedGemmDescriptor ctx plan workspaces s tasks =
      buildPublicGroupedGemmDescriptor ctx plan workspaces s' tasks := by
  simp only [buildPublicGroupedGemmDescriptor, validateGroupedTasks_congr hs,
    validateGroupedGemmDescriptorSetup_congr hs, groupedDeviceId_congr hs]

end SameView

/-! ### Acceptance does not depend on the contents -/

section Contents

variable (s : Store) (mem : Planes Handle)

@[simp] theorem residueDeviceStorageMatches_withHipResidues (matrix : RnsMatrix) (cell : ℕ → Int8)
    (backend : BackendKind) (expected : ℕ) :
    residueDeviceStorageMatches (matrix.withHipResidues cell) backend expected =
      residueDeviceStorageMatches matrix backend expected := by
  cases hb : matrix.hipResidues <;>
    simp [residueDeviceStorageMatches, RnsMatrix.withHipResidues, hb]

@[simp] theorem rnsMatrixStorageMatches_withHipResidues (matrix : RnsMatrix) (cell : ℕ → Int8)
    (backend : BackendKind) (rows cols rnsPrefix : ℕ) :
    rnsMatrixStorageMatches (matrix.withHipResidues cell) backend rows cols rnsPrefix =
      rnsMatrixStorageMatches matrix backend rows cols rnsPrefix := by
  simp only [rnsMatrixStorageMatches, residueDeviceStorageMatches_withHipResidues]
  rfl

theorem validateRnsGemmOperands_withHipResidues (ctx : Context) (plan : Plan) (a b c : Handle)
    (A B C : RnsMatrix) (cellA cellB cellC : ℕ → Int8) :
    validateRnsGemmOperands ctx plan a b c (A.withHipResidues cellA) (B.withHipResidues cellB)
      (C.withHipResidues cellC) = validateRnsGemmOperands ctx plan a b c A B C := by
  have hrange : exactGemmRange plan (A.withHipResidues cellA) (B.withHipResidues cellB) =
      exactGemmRange plan A B := rfl
  have hstorage : rnsStoragesMatch plan (A.withHipResidues cellA) (B.withHipResidues cellB)
      (C.withHipResidues cellC) = rnsStoragesMatch plan A B C := by
    simp only [rnsStoragesMatch, rnsMatrixStorageMatches_withHipResidues]
  unfold validateRnsGemmOperands
  rw [hrange, hstorage]
  rfl

theorem exactGroupedRanges_withDevicePlanes (ctx : Context) (plan : Plan)
    (all tasks : List GroupedGemmTask) (i : ℕ) :
    exactGroupedRanges ctx plan (s.withDevicePlanes mem) all i tasks =
      exactGroupedRanges ctx plan s all i tasks := by
  induction tasks generalizing i with
  | nil => rfl
  | cons task tasks ih =>
    simp only [exactGroupedRanges, ih, Store.withDevicePlanes]
    rcases s task.a with _ | A
    · rfl
    rcases s task.b with _ | B
    · rfl
    rcases s task.c with _ | C
    · rfl
    simp only [Option.map_some, validateRnsGemmOperands_withHipResidues]
    rfl

theorem groupedRanges_withDevicePlanes (ctx : Context) (plan : Plan)
    (tasks : List GroupedGemmTask) :
    groupedRanges ctx plan (s.withDevicePlanes mem) tasks = groupedRanges ctx plan s tasks := by
  simp only [groupedRanges, exactGroupedRanges_withDevicePlanes]

theorem withDevicePlanes_modify (h : Handle) {f : RnsMatrix → RnsMatrix}
    (hf : ∀ matrix cell, f (matrix.withHipResidues cell) = (f matrix).withHipResidues cell) :
    (s.withDevicePlanes mem).modify h f = (s.modify h f).withDevicePlanes mem := by
  funext h'
  by_cases hh : h' = h
  · subst hh
    cases hs : s h' <;> simp [Store.modify, Store.withDevicePlanes, hs, hf]
  · simp [Store.modify, Store.withDevicePlanes, hh]

theorem groupedPrepared_withDevicePlanes (plan : Plan) (tasks : List GroupedGemmTask) :
    groupedPrepared plan tasks (s.withDevicePlanes mem) =
      (groupedPrepared plan tasks s).withDevicePlanes mem := by
  unfold groupedPrepared
  split
  · induction tasks generalizing s with
    | nil => rfl
    | cons task tasks ih =>
      rw [List.foldl_cons, List.foldl_cons,
        withDevicePlanes_modify (f := invalidateOutputCurrentness) s mem task.c fun _ _ => rfl, ih]
  · rfl

theorem groupedMatrixValid_withDevicePlanes (plan : Plan) (rows cols rnsPrefix : ℕ)
    (requireCurrent : Bool) (deviceId : ℤ) (h : Handle) :
    groupedMatrixValid plan rows cols rnsPrefix requireCurrent deviceId (s.withDevicePlanes mem h) =
      groupedMatrixValid plan rows cols rnsPrefix requireCurrent deviceId (s h) := by
  unfold Store.withDevicePlanes
  rcases s h with _ | matrix
  · rfl
  · simp [groupedMatrixValid, RnsMatrix.withHipResidues]

theorem finiteModulus_withDevicePlanes (h : Handle) :
    (s.withDevicePlanes mem h).map RnsMatrix.finiteModulus = (s h).map RnsMatrix.finiteModulus := by
  unfold Store.withDevicePlanes
  rcases s h with _ | matrix <;> rfl

theorem groupedBackendStatus_withDevicePlanes (plan : Plan) (finiteU8 : Bool) (modulus : ℕ)
    (tasks : List GroupedGemmTask) :
    groupedBackendStatus plan finiteU8 modulus (s.withDevicePlanes mem) tasks =
      groupedBackendStatus plan finiteU8 modulus s tasks := by
  simp only [groupedBackendStatus, groupedOperandsValid, groupedMatrixValid_withDevicePlanes,
    finiteModulus_withDevicePlanes, groupedDeviceId_congr (sameView_withDevicePlanes s mem)]
  rfl

/-- Whether the launches are reached does not depend on what the matrices hold. -/
theorem groupedReachesLaunch_withDevicePlanes (ctx : Context) (plan : Plan) (finiteU8 : Bool)
    (modulus : ℕ) (workspaces : Workspaces) (tasks : List GroupedGemmTask) :
    groupedReachesLaunch ctx plan finiteU8 modulus workspaces tasks (s.withDevicePlanes mem) =
      groupedReachesLaunch ctx plan finiteU8 modulus workspaces tasks s := by
  simp only [groupedReachesLaunch, groupedRanges_withDevicePlanes,
    groupedPrepared_withDevicePlanes, groupedBackendStatus_withDevicePlanes,
    buildPublicGroupedGemmDescriptor_congr (sameView_withDevicePlanes s mem)]

end Contents

/-! ### A call that does not reach the launches -/

theorem exactGroupedRanges_error {ctx : Context} {plan : Plan} {s : Store}
    {all tasks : List GroupedGemmTask} {i : ℕ} {status : Status}
    (h : exactGroupedRanges ctx plan s all i tasks = .error status) : status ≠ .success := by
  induction tasks generalizing i with
  | nil => cases h
  | cons task tasks ih =>
    unfold exactGroupedRanges at h
    split at h
    · simp only at h
      split at h
      · next hst => cases h; exact hst
      · split at h
        · next hr => cases h; exact exactGemmRange_error hr
        · split at h
          · cases h; decide
          · split at h
            · next hrec => cases h; exact ih hrec
            · cases h
    · cases h; decide

theorem groupedRanges_error {ctx : Context} {plan : Plan} {s : Store}
    {tasks : List GroupedGemmTask} {status : Status}
    (h : groupedRanges ctx plan s tasks = .error status) : status ≠ .success := by
  unfold groupedRanges at h
  split at h
  · exact exactGroupedRanges_error h
  · cases h

/-- A call that does not reach the launches fails and leaves all device residues. -/
theorem execute_of_not_reaches {ctx : Context} {plan : Plan} {finiteU8 : Bool} {modulus : ℕ}
    {workspaces : Workspaces} {tasks : List GroupedGemmTask} {s : Store}
    (h : groupedReachesLaunch ctx plan finiteU8 modulus workspaces tasks s = false) :
    ∃ r : Status × Store, r.1 ≠ .success ∧ r.2.devicePlanes = s.devicePlanes ∧
      ∀ orders : TaskOrders tasks,
        executePublicGroupedGemm orders ctx plan finiteU8 modulus workspaces s = r := by
  unfold executePublicGroupedGemm
  -- in the order of the checks: each rejection is the same for every order of the tasks
  by_cases hsem : groupedSemanticsMatch plan finiteU8 modulus = true
  swap
  · exact ⟨(.invalidArgument, s), by simp, rfl, fun _ => by simp [hsem]⟩
  by_cases hdesc : buildPublicGroupedGemmDescriptor ctx plan workspaces s tasks = .success
  swap
  · exact ⟨(buildPublicGroupedGemmDescriptor ctx plan workspaces s tasks, s), hdesc, rfl,
      fun _ => by simp [hsem, hdesc]⟩
  cases hranges : groupedRanges ctx plan s tasks with
  | error status =>
    exact ⟨(status, s), groupedRanges_error hranges, rfl, fun _ => by simp [hsem, hdesc]⟩
  | ok ranges =>
    -- all host checks passed, so it is the backend that rejects
    have hback : groupedBackendStatus plan finiteU8 modulus (groupedPrepared plan tasks s) tasks ≠
        .success := by
      intro hb
      simp [groupedReachesLaunch, hsem, hdesc, hranges, hb, Except.toOption] at h
    refine ⟨(groupedBackendStatus plan finiteU8 modulus (groupedPrepared plan tasks s) tasks,
      if exactWideSemantics plan.desc.semantics then
      tasks.foldl invalidateGroupedOutput (groupedPrepared plan tasks s)
      else groupedPrepared plan tasks s), hback, ?_, fun _ => ?_⟩
    · have hprep := devicePlanes_groupedPrepared plan tasks s
      dsimp only
      split
      · rw [devicePlanes_foldl devicePlanes_invalidateGroupedOutput, hprep]
      · exact hprep
    · simp only [hsem, hdesc, Bool.not_true, Bool.false_eq_true, if_false, ne_eq, not_true,
        dispatchGrouped, hback, not_false_eq_true, if_true]

/-! ### A call that reaches the launches -/

section Reached

variable {ctx : Context} {plan : Plan} {finiteU8 : Bool} {modulus : ℕ} {workspaces : Workspaces}
  {tasks : List GroupedGemmTask} {s : Store}

/-- What a call that reaches its launches has checked. -/
structure GroupedReached (ctx : Context) (plan : Plan) (finiteU8 : Bool) (modulus : ℕ)
    (workspaces : Workspaces) (tasks : List GroupedGemmTask) (s : Store) : Prop where
  setup : validateGroupedGemmDescriptorSetup plan workspaces s tasks = .success
  shape : (groupedShape plan finiteU8 modulus).Valid
  dispatch : ∃ ranges, ∀ orders : TaskOrders tasks,
    executePublicGroupedGemm orders ctx plan finiteU8 modulus workspaces s =
      dispatchGrouped orders plan finiteU8 modulus workspaces ranges s
  backend : groupedBackendStatus plan finiteU8 modulus (groupedPrepared plan tasks s) tasks = .success

theorem setup_of_descriptor
    (h : buildPublicGroupedGemmDescriptor ctx plan workspaces s tasks = .success) :
    validateGroupedGemmDescriptorSetup plan workspaces s tasks = .success := by
  unfold buildPublicGroupedGemmDescriptor at h
  simp only at h
  split_ifs at h with _ h1 _ _ h2 _
  · exact absurd h h1
  · exact absurd h h2
  · simpa using h2

/-- The launches of an accepted call have positive dimensions and moduli of a byte. -/
theorem shape_valid (hsetup : validateGroupedGemmDescriptorSetup plan workspaces s tasks = .success)
    {s' : Store} (hback : groupedBackendStatus plan finiteU8 modulus s' tasks = .success) :
    (groupedShape plan finiteU8 modulus).Valid := by
  -- the setup rejects an empty dimension; the backend bounds the moduli of both kinds of launch
  have hdims : plan.desc.m ≠ 0 ∧ plan.desc.n ≠ 0 ∧ plan.desc.k ≠ 0 := by
    unfold validateGroupedGemmDescriptorSetup at hsetup
    split at hsetup
    · cases hsetup
    · next h => tauto
  have hpos : 0 < plan.desc.m ∧ 0 < plan.desc.n ∧ 0 < plan.desc.k := by omega
  unfold groupedBackendStatus at hback
  split at hback
  · cases hback
  split at hback
  · next hfin =>
    split at hback
    · cases hback
    split at hback
    · cases hback
    · next hlaunch =>
      simp only [groupedFiniteLaunchValid, Bool.not_eq_true', Bool.not_eq_false, Bool.and_eq_true,
        decide_eq_true_eq] at hlaunch
      exact ⟨hpos.1, hpos.2.1, hpos.2.2, by simp [groupedShape, hfin], fun p _ => by
        simp only [groupedShape, hfin, if_true]; omega⟩
  · next hfin =>
    split at hback
    · cases hback
    split at hback
    · cases hback
    · next hlaunch =>
      simp only [groupedTaskPrefixLaunchValid, Bool.not_eq_true', Bool.not_eq_false,
        Bool.and_eq_true, decide_eq_true_eq] at hlaunch
      have h20 : maxSupportedPrefix = 20 := rfl
      refine ⟨hpos.1, hpos.2.1, hpos.2.2, ?_, fun p hp => ?_⟩
      · simp only [groupedShape, hfin, if_false, Bool.false_eq_true]; omega
      · simp only [groupedShape, hfin, if_false, Bool.false_eq_true] at hp ⊢
        exact modulusAt_bounds (by omega)

theorem reached_of (h : groupedReachesLaunch ctx plan finiteU8 modulus workspaces tasks s = true) :
    GroupedReached ctx plan finiteU8 modulus workspaces tasks s := by
  simp only [groupedReachesLaunch, Bool.and_eq_true, decide_eq_true_eq] at h
  obtain ⟨⟨⟨hsem, hdesc⟩, hranges⟩, hback⟩ := h
  have hsetup := setup_of_descriptor hdesc
  refine ⟨hsetup, shape_valid hsetup hback, ?_, hback⟩
  cases hr : groupedRanges ctx plan s tasks with
  | error status => simp [hr, Except.toOption] at hranges
  | ok ranges =>
    refine ⟨ranges, fun orders => ?_⟩
    unfold executePublicGroupedGemm
    simp [hsem, hdesc, hr]

/-- The store after the launches and the bookkeeping of the backend. -/
def afterLaunches (plan : Plan) (finiteU8 : Bool) (modulus : ℕ) {tasks : List GroupedGemmTask}
    (orders : TaskOrders tasks) (s : Store) : Store :=
  let s := groupedPrepared plan tasks s
  tasks.foldl (markGroupedOutput plan finiteU8 modulus) (s.withDevicePlanes
    (groupedLaunches (groupedShape plan finiteU8 modulus) orders s.devicePlanes))

theorem sameView_afterLaunches (orders : TaskOrders tasks) :
    (afterLaunches plan finiteU8 modulus orders s).SameView s :=
  ((sameView_foldl (sameView_markGroupedOutput plan finiteU8 modulus) _ _).trans
    (sameView_withDevicePlanes _ _)).trans (sameView_groupedPrepared plan tasks s)

/-- The launches leave in an output what the kernels wrote. -/
theorem devicePlanes_afterLaunches (orders : TaskOrders tasks) {task : GroupedGemmTask}
    (hchecked : GroupedTaskChecked plan s task) :
    (afterLaunches plan finiteU8 modulus orders s).devicePlanes task.c =
      groupedLaunches (groupedShape plan finiteU8 modulus) orders s.devicePlanes task.c := by
  obtain ⟨C, hC, hmatch⟩ := hchecked.matches_c
  have hres := (matrixMatchesDescriptor_shape hmatch).2.2
  obtain ⟨C', hC', hview⟩ := (sameView_groupedPrepared plan tasks s).exists_some hC
  have hres' : C'.hipResidues.isSome = true := by
    simp only [RnsMatrix.descriptorView, Prod.mk.injEq] at hview
    rw [hview.2.2.2.1]; exact hres
  simp only [afterLaunches]
  rw [devicePlanes_foldl (devicePlanes_markGroupedOutput plan finiteU8 modulus),
    devicePlanes_withDevicePlanes _ _ hC' hres', devicePlanes_groupedPrepared]

/-- **What a call that reaches its launches leaves.** -/
theorem GroupedReached.execute
    (h : GroupedReached ctx plan finiteU8 modulus workspaces tasks s) (orders : TaskOrders tasks) :
    ∃ ranges, executePublicGroupedGemm orders ctx plan finiteU8 modulus workspaces s =
      if tasks.all (groupedOutputValid plan (afterLaunches plan finiteU8 modulus orders s)) then
        (.success, (tasks.zip ranges).foldl (commitGroupedRange plan)
          (afterLaunches plan finiteU8 modulus orders s))
      else (.invalidArgument, if exactWideSemantics plan.desc.semantics then
        tasks.foldl invalidateGroupedOutput (afterLaunches plan finiteU8 modulus orders s)
        else afterLaunches plan finiteU8 modulus orders s) := by
  obtain ⟨ranges, hdispatch⟩ := h.dispatch
  refine ⟨ranges, (hdispatch orders).trans ?_⟩
  have hsetup : validateGroupedGemmDescriptorSetup plan workspaces
      (afterLaunches plan finiteU8 modulus orders s) tasks = .success :=
    (validateGroupedGemmDescriptorSetup_congr (sameView_afterLaunches orders) plan workspaces
      tasks).trans h.setup
  have hstore : tasks.foldl (markGroupedOutput plan finiteU8 modulus)
      ((groupedPrepared plan tasks s).withDevicePlanes (groupedLaunches
        (groupedShape plan finiteU8 modulus) orders (groupedPrepared plan tasks s).devicePlanes)) =
      afterLaunches plan finiteU8 modulus orders s := rfl
  simp only [dispatchGrouped, h.backend, ne_eq, not_true, if_false, hstore, hsetup, false_or]
  by_cases hall : tasks.all (groupedOutputValid plan (afterLaunches plan finiteU8 modulus orders s))
  · simp [hall]
  · simp [hall]

/-- The device residues after a call that reaches its launches, whatever its status. -/
theorem GroupedReached.devicePlanes
    (h : GroupedReached ctx plan finiteU8 modulus workspaces tasks s) (orders : TaskOrders tasks)
    {task : GroupedGemmTask} (ht : task ∈ tasks) :
    (executePublicGroupedGemm orders ctx plan finiteU8 modulus workspaces s).2.devicePlanes task.c =
      groupedLaunches (groupedShape plan finiteU8 modulus) orders s.devicePlanes task.c := by
  obtain ⟨ranges, hexec⟩ := h.execute orders
  rw [hexec, ← devicePlanes_afterLaunches orders ((groupedSetup_checked h.setup).1 task ht)]
  split
  · rw [devicePlanes_foldl (devicePlanes_commitGroupedRange plan)]
  · dsimp only
    split
    · rw [devicePlanes_foldl devicePlanes_invalidateGroupedOutput]
    · rfl

end Reached

/-! ### A hazard-free group passes its final check -/

section FinalCheck

variable {plan : Plan} {finiteU8 : Bool} {modulus : ℕ} {tasks : List GroupedGemmTask}

/-- The three matrices of the task are live. -/
def GroupedGemmTask.Live (s : Store) (task : GroupedGemmTask) : Prop :=
  (s task.a).isSome = true ∧ (s task.b).isSome = true ∧ (s task.c).isSome = true

theorem Store.SameView.live {s s' : Store} (h : s.SameView s') {task : GroupedGemmTask}
    (ht : task.Live s') : task.Live s := by
  have hsome : ∀ x, (s' x).isSome = true → (s x).isSome = true := by
    intro x hx
    obtain ⟨matrix, hm⟩ := Option.isSome_iff_exists.1 hx
    obtain ⟨matrix', hm', -⟩ := h.exists_some hm
    simp [hm']
  exact ⟨hsome _ ht.1, hsome _ ht.2.1, hsome _ ht.2.2⟩

theorem GroupedTaskChecked.live {s : Store} {task : GroupedGemmTask}
    (h : GroupedTaskChecked plan s task) : task.Live s := by
  obtain ⟨A, hA, -⟩ := h.matches_a
  obtain ⟨B, hB, -⟩ := h.matches_b
  obtain ⟨C, hC, -⟩ := h.matches_c
  simp [GroupedGemmTask.Live, hA, hB, hC]

theorem markGroupedOutput_of_ne (s : Store) {task : GroupedGemmTask} {h : Handle}
    (hh : h ≠ task.c) : markGroupedOutput plan finiteU8 modulus s task h = s h := by
  cases hA : s task.a <;> cases hB : s task.b <;>
    simp [markGroupedOutput, hA, hB, Store.modify, hh]

/-- Marking a task whose output is not one of its operands makes its output valid. -/
theorem groupedOutputValid_mark {s : Store} {task : GroupedGemmTask} (hlive : task.Live s)
    (ha : task.a ≠ task.c) (hb : task.b ≠ task.c) :
    groupedOutputValid plan (markGroupedOutput plan finiteU8 modulus s task) task = true := by
  obtain ⟨A, hA⟩ := Option.isSome_iff_exists.1 hlive.1
  obtain ⟨B, hB⟩ := Option.isSome_iff_exists.1 hlive.2.1
  obtain ⟨C, hC⟩ := Option.isSome_iff_exists.1 hlive.2.2
  have hc : markGroupedOutput plan finiteU8 modulus s task task.c =
      some (stampGroupedOutput plan finiteU8 modulus (gemmOutputSourceVersion A B) C) := by
    simp [markGroupedOutput, hA, hB, Store.modify, hC]
  have hstamp : ∀ version, (stampGroupedOutput plan finiteU8 modulus version C).deviceResiduesCurrent =
      true ∧ ((plan.desc.semantics ≠ .boundedI64 ∧ plan.desc.semantics ≠ .boundedU64) ∨
        (stampGroupedOutput plan finiteU8 modulus version C).sourceVersion = version) := by
    intro version
    unfold stampGroupedOutput
    constructor
    · split_ifs <;> rfl
    · cases hsem : plan.desc.semantics <;> simp [exactWideSemantics]
  rw [groupedOutputValid, markGroupedOutput_of_ne s ha, markGroupedOutput_of_ne s hb, hA, hB, hc]
  obtain ⟨h1, h2⟩ := hstamp (gemmOutputSourceVersion A B)
  simp only [h1, Bool.true_and, Bool.or_eq_true, decide_eq_true_eq]
  exact h2

theorem groupedOutputValid_mark_other {s : Store} {task other : GroupedGemmTask}
    (h : groupedOutputValid plan s task = true) (ha : task.a ≠ other.c) (hb : task.b ≠ other.c)
    (hc : task.c ≠ other.c) :
    groupedOutputValid plan (markGroupedOutput plan finiteU8 modulus s other) task = true := by
  rw [groupedOutputValid, markGroupedOutput_of_ne s ha, markGroupedOutput_of_ne s hb,
    markGroupedOutput_of_ne s hc]
  exact h

/-- **After the marking of a hazard-free group every output is valid.** -/
theorem groupedOutputValid_foldl (hfree : HazardFree tasks) (l : List GroupedGemmTask)
    (hl : ∀ u ∈ l, u ∈ tasks) (s : Store) (hlive : ∀ t ∈ tasks, t.Live s)
    (hdone : ∀ t ∈ tasks, t ∉ l → groupedOutputValid plan s t = true) :
    ∀ t ∈ tasks,
      groupedOutputValid plan (l.foldl (markGroupedOutput plan finiteU8 modulus) s) t = true := by
  induction l generalizing s with
  | nil => exact fun t ht => hdone t ht (by simp)
  | cons u l ih =>
    have hu : u ∈ tasks := hl u List.mem_cons_self
    refine ih (fun v hv => hl v (List.mem_cons_of_mem _ hv)) _ (fun t ht =>
      (sameView_markGroupedOutput plan finiteU8 modulus s u).live (hlive t ht)) fun t ht htl => ?_
    by_cases htu : t = u
    · subst htu
      exact groupedOutputValid_mark (hlive t ht) (hfree t ht t ht).1.symm (hfree t ht t ht).2.1.symm
    · exact groupedOutputValid_mark_other (hdone t ht (by simp [htu, htl])) (hfree u hu t ht).1.symm
        (hfree u hu t ht).2.1.symm ((hfree u hu t ht).2.2 htu).symm

end FinalCheck

/-! ### The exact condition -/

section Outcome

variable {ctx : Context} {plan : Plan} {finiteU8 : Bool} {modulus : ℕ} {workspaces : Workspaces}
  {tasks : List GroupedGemmTask} {s : Store}

/-- A hazard-free group that reaches its launches meets the property. -/
theorem outcome_of_hazardFree (h : GroupedReached ctx plan finiteU8 modulus workspaces tasks s)
    (hfree : HazardFree tasks) (orders : TaskOrders tasks) :
    (∀ orders' : TaskOrders tasks,
      executePublicGroupedGemm orders' ctx plan finiteU8 modulus workspaces s =
        executePublicGroupedGemm orders ctx plan finiteU8 modulus workspaces s) ∧
    (executePublicGroupedGemm orders ctx plan finiteU8 modulus workspaces s).1 = .success ∧
    ∀ task ∈ tasks, GroupedProduct (groupedShape plan finiteU8 modulus) task s.devicePlanes
      (executePublicGroupedGemm orders ctx plan finiteU8 modulus workspaces s).2.devicePlanes := by
  obtain ⟨hchecked, hapart⟩ := groupedSetup_checked h.setup
  have hnodup := nodup_of_apart hapart
  -- no task reads or writes what another writes, so the launches commute
  have horder : ∀ orders' : TaskOrders tasks, afterLaunches plan finiteU8 modulus orders' s =
      afterLaunches plan finiteU8 modulus orders s := by
    intro orders'
    simp only [afterLaunches, groupedLaunches_order hfree hnodup orders' orders]
  -- and the checks after the launches see the outputs the setup saw
  have hvalid : ∀ orders' : TaskOrders tasks, tasks.all
      (groupedOutputValid plan (afterLaunches plan finiteU8 modulus orders' s)) = true := by
    intro orders'
    refine List.all_eq_true.2 (groupedOutputValid_foldl hfree tasks (fun _ hu => hu) _ ?_
      fun t ht hn => absurd ht hn)
    exact fun t ht => ((sameView_withDevicePlanes _ _).trans
      (sameView_groupedPrepared plan tasks s)).live (hchecked t ht).live
  obtain ⟨ranges, hdispatch⟩ := h.dispatch
  refine ⟨fun orders' => ?_, ?_, fun task ht => ?_⟩
  · rw [hdispatch, hdispatch]
    simp only [dispatchGrouped, groupedLaunches_order hfree hnodup orders' orders]
  · obtain ⟨_, hexec⟩ := h.execute orders
    rw [hexec, if_pos (hvalid orders)]
  · intro p hp row hrow col hcol
    rw [h.devicePlanes orders ht]
    exact groupedLaunches_product h.shape hfree hnodup orders s.devicePlanes ht p hp row hrow col hcol

/-- The contents that reveal a hazard on the output of `t`. -/
def hazardContents (shape : GroupedShape) (t : GroupedGemmTask) : Planes Handle := fun h o =>
  if h ≠ t.c ∧ o = 0 then shape.one else 0

/-- The number of cells of a plane of the matrix behind a handle. -/
def Store.planeCells (s : Store) (h : Handle) : ℕ := ((s h).map fun M => M.desc.cells).getD 0

theorem planeSizes_of_checked (hchecked : ∀ task ∈ tasks, GroupedTaskChecked plan s task) :
    PlaneSizes (groupedShape plan finiteU8 modulus) tasks s.planeCells := by
  constructor <;> intro task ht
  · obtain ⟨A, hA, hm⟩ := (hchecked task ht).matches_a
    obtain ⟨h1, h2, -⟩ := matrixMatchesDescriptor_shape hm
    simp [Store.planeCells, hA, MatrixDesc.cells, h1, h2, groupedShape]
  · obtain ⟨B, hB, hm⟩ := (hchecked task ht).matches_b
    obtain ⟨h1, h2, -⟩ := matrixMatchesDescriptor_shape hm
    simp [Store.planeCells, hB, MatrixDesc.cells, h1, h2, groupedShape]
  · obtain ⟨C, hC, hm⟩ := (hchecked task ht).matches_c
    obtain ⟨h1, h2, -⟩ := matrixMatchesDescriptor_shape hm
    simp [Store.planeCells, hC, MatrixDesc.cells, h1, h2, groupedShape]

theorem revealing_hazardContents (shape : GroupedShape)
    (hchecked : ∀ task ∈ tasks, GroupedTaskChecked plan s task) {t : GroupedGemmTask}
    (ht : t ∈ tasks) (cells : Handle → ℕ) :
    Revealing shape tasks cells t (s.withDevicePlanes (hazardContents shape t)).devicePlanes := by
  constructor
  · intro h o hpos _
    cases hs : s h with
    | none => simp [Store.devicePlanes, Store.withDevicePlanes, hs]
    | some matrix =>
      cases hb : matrix.hipResidues with
      | none =>
        simp only [Store.devicePlanes, Store.withDevicePlanes, hs, RnsMatrix.withHipResidues, hb,
          Option.map_some, Option.map_none, DeviceBuffer.cells]
        rfl
      | some buffer =>
        rw [devicePlanes_withDevicePlanes _ _ hs (by simp [hb])]
        simp [hazardContents, Nat.pos_iff_ne_zero.1 hpos]
  · obtain ⟨C, hC, hm⟩ := (hchecked t ht).matches_c
    rw [devicePlanes_withDevicePlanes _ _ hC (matrixMatchesDescriptor_shape hm).2.2]
    funext o
    simp [hazardContents]
  · intro v hv hne
    obtain ⟨A, hA, hm⟩ := (hchecked v hv).matches_a
    rw [devicePlanes_withDevicePlanes _ _ hA (matrixMatchesDescriptor_shape hm).2.2]
    simp [hazardContents, hne]
  · intro v hv hne
    obtain ⟨B, hB, hm⟩ := (hchecked v hv).matches_b
    rw [devicePlanes_withDevicePlanes _ _ hB (matrixMatchesDescriptor_shape hm).2.2]
    simp [hazardContents, hne]

/-- A group with the property has no hazard. -/
theorem hazardFree_of_outcome
    (hreach : groupedReachesLaunch ctx plan finiteU8 modulus workspaces tasks s = true)
    (h : GroupedOutcome ctx plan finiteU8 modulus workspaces tasks s) : HazardFree tasks := by
  obtain ⟨hchecked, hapart⟩ := groupedSetup_checked (reached_of hreach).setup
  by_contra hnot
  obtain ⟨t, ht, u, hu, hhazard⟩ : ∃ t ∈ tasks, ∃ u ∈ tasks, t.c = u.a ∨ t.c = u.b := by
    by_contra hno
    refine hnot fun t ht u hu => ⟨fun heq => hno ⟨t, ht, u, hu, Or.inl heq⟩,
      fun heq => hno ⟨t, ht, u, hu, Or.inr heq⟩, fun hut => ?_⟩
    exact out_ne_of_apart hapart t ht u hu hut.symm
  set shape := groupedShape plan finiteU8 modulus with hshape
  set before := s.withDevicePlanes (hazardContents shape t) with hbefore
  have hreach' : GroupedReached ctx plan finiteU8 modulus workspaces tasks before :=
    reached_of (by rw [hbefore, groupedReachesLaunch_withDevicePlanes]; exact hreach)
  obtain ⟨orders, hchange, hwrong⟩ := groupedLaunches_hazard (reached_of hreach).shape
    (planeSizes_of_checked hchecked) hapart (fun task htask => (hchecked task htask).distinct) ht hu
    hhazard (revealing_hazardContents shape hchecked ht s.planeCells)
  rcases (h (hazardContents shape t) orders).2 with ⟨-, hsame⟩ | ⟨-, hproduct⟩
  · refine hchange ?_
    rw [← hshape, ← hbefore, ← hreach'.devicePlanes orders ht]
    exact congrFun hsame t.c
  · refine hwrong fun p hp row hrow col hcol => ?_
    rw [← hshape, ← hbefore, ← hreach'.devicePlanes orders hu]
    exact hproduct u hu p hp row hrow col hcol

/-- **Order independence, exactly.** A grouped call has the same outcome in every order of its tasks,
rejected before any task runs or with every product computed from the operands as they were, if and
only if no output of a group that reaches its launches is an operand of the group. -/
theorem groupedOutcome_iff (ctx : Context) (plan : Plan) (finiteU8 : Bool) (modulus : ℕ)
    (workspaces : Workspaces) (tasks : List GroupedGemmTask) (s : Store) :
    GroupedOutcome ctx plan finiteU8 modulus workspaces tasks s ↔
      (groupedReachesLaunch ctx plan finiteU8 modulus workspaces tasks s = true →
        HazardFree tasks) := by
  constructor
  · exact fun h hreach => hazardFree_of_outcome hreach h
  · intro h mem orders
    have hreach := groupedReachesLaunch_withDevicePlanes s mem ctx plan finiteU8 modulus workspaces
      tasks
    by_cases hr : groupedReachesLaunch ctx plan finiteU8 modulus workspaces tasks s = true
    · have hout := outcome_of_hazardFree (reached_of (hreach.trans hr)) (h hr) orders
      exact ⟨hout.1, Or.inr hout.2⟩
    · obtain ⟨r, hst, hplanes, hexec⟩ := execute_of_not_reaches (hreach.trans (by simpa using hr))
      simp only [hexec, implies_true, true_and]
      exact Or.inl ⟨hst, hplanes⟩

/-- **Exact-wide groups have no hazard.** Their outputs are compared with every operand before any
task runs. -/
theorem exactWide_hazardFree (hexact : exactWideSemantics plan.desc.semantics = true)
    (hreach : groupedReachesLaunch ctx plan finiteU8 modulus workspaces tasks s = true) :
    HazardFree tasks := by
  have hapart := (groupedSetup_checked (reached_of hreach).setup).2
  -- induction on the tasks still to check: the range loop compares each output with all operands
  have hclean : ∀ (l : List GroupedGemmTask) i, (exactGroupedRanges ctx plan s tasks i
      l).toOption.isSome = true → ∀ t ∈ l, ∀ u ∈ tasks, t.c ≠ u.a ∧ t.c ≠ u.b := by
    intro l
    induction l with
    | nil => intro _ _ t ht; cases ht
    | cons task l ih =>
      intro i h t ht u hu
      unfold exactGroupedRanges at h
      split at h
      · simp only at h
        split at h
        · cases h
        split at h
        · cases h
        split at h
        · cases h
        next hreused =>
        split at h
        · cases h
        next hrest =>
        rcases List.mem_cons.1 ht with rfl | ht
        · obtain ⟨j, hj, hget⟩ := List.mem_iff_getElem.1 hu
          have hmem : (u, j) ∈ tasks.zipIdx := by
            rw [List.mem_zipIdx_iff_getElem?, List.getElem?_eq_getElem hj, hget]
          simp only [exactOutputReused, List.any_eq_true, not_exists, not_and, Bool.or_eq_true,
            decide_eq_true_eq, not_or] at hreused
          exact (hreused (u, j) hmem).1
        · exact ih (i + 1) (by simp [hrest, Except.toOption]) t ht u hu
      · cases h
  simp only [groupedReachesLaunch, groupedRanges, hexact, if_true, Bool.and_eq_true] at hreach
  have hne := hclean tasks 0 hreach.1.2
  exact fun t ht u hu => ⟨(hne t ht u hu).1, (hne t ht u hu).2,
    fun hut => out_ne_of_apart hapart t ht u hu hut.symm⟩

end Outcome

/-! ### A chain of two products -/

/-- A context of the direct HIP backend. -/
def Context.hip : Context := { backend := .hipDirect, deviceId := 0 }

/-- A bounded product of order one on the direct HIP backend. -/
def unitHipDesc : GemmDesc where
  semantics := .boundedI64
  boundKind := .globalMaxAbs
  requestedBackend := .hipDirect
  m := 1
  n := 1
  k := 1
  bound := 100

/-- A bounded matrix of order one that was created and packed on the direct HIP backend. -/
def unitHipMatrix (instanceId : UInt64) (value : Int64) : Option RnsMatrix :=
  (rns8CreateMatrix (.ok instanceId) .hip (makeMatrixDesc 1 1 .boundedI64 .globalMaxAbs 1 0 0)).toOption
    |>.map fun matrix => (rns8PackI64 (.ok _) .hip matrix (fun _ => value) 1 instanceId).2

/-- The matrices of the chain. -/
def chainStore : Store := fun h => match h with
  | 0 => unitHipMatrix 1 2
  | 1 => unitHipMatrix 2 3
  | 2 => unitHipMatrix 3 5
  | 3 => unitHipMatrix 4 7
  | 4 => unitHipMatrix 5 0
  | _ => none

/-- The output of the first product is the left operand of the second. -/
def chainTasks : List GroupedGemmTask :=
  [{ a := 0, b := 1, c := 2, workspace := 0 }, { a := 2, b := 3, c := 4, workspace := 1 }]

/-- The second product runs first in every launch. -/
def TaskOrders.reversed (tasks : List GroupedGemmTask) : TaskOrders tasks :=
  ⟨fun _ => tasks.reverse, fun _ => List.reverse_perm tasks⟩

/-- **The order shows.** The chain is accepted, and its second product is `6 * 7` or `5 * 7`. -/
theorem chain_depends_on_order :
    ∃ plan ∈ (rns8CreatePlan .hip unitHipDesc).toOption,
      ∃ workspace ∈ (rns8CreateWorkspace .hip plan).toOption,
        let listed := rns8GemmRnsGrouped (TaskOrders.listed chainTasks) .hip plan
          (fun _ => some workspace) chainStore
        let reversed := rns8GemmRnsGrouped (TaskOrders.reversed chainTasks) .hip plan
          (fun _ => some workspace) chainStore
        listed.1 = .success ∧ listed.2.devicePlanes 4 0 = 42 ∧
          reversed.1 = .success ∧ reversed.2.devicePlanes 4 0 = 35 := by
  decide +kernel

end Rns8
