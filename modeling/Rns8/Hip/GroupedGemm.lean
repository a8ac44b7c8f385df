import Rns8.Hip.KBlocks
import Rns8.Hip.ShapeChecks
import Rns8.Api.Gemm
import Rns8.Lib.TaskGroup

/-!
# Grouped tasks on the direct HIP backend

The descriptor checks of `hip_grouped_descriptor.cpp`, the operand checks of
`hip_direct_gemm_rns_grouped_matrices_device` and `hip_direct_gemm_finite_u8_grouped_matrices_device`,
and the launches of the grouped task kernels. One launch runs the K block of every task, and the
blocks of threads of different tasks run in any order (`TaskOrders`).

`matrix_matches_descriptor` makes a task's matrices as large as the launch assumes, and
`checked_matrix_elements_i32` keeps their planes within `int`, so that the indices of the kernels are
natural numbers here.
-/

namespace Rns8

open CenteredResidue Finset

/-- A workspace handle as the caller holds it. -/
abbrev WorkspaceHandle := ℕ

/-- The live workspaces. -/
abbrev Workspaces := WorkspaceHandle → Option Workspace

/-- `rns8_grouped_gemm_task`. -/
structure GroupedGemmTask where
  abiOk : Bool := true
  a : Handle
  b : Handle
  c : Handle
  workspace : WorkspaceHandle
  deriving DecidableEq, Repr

/-! ### The descriptor -/

/-- `grouped_semantics_supported`. -/
def groupedSemanticsSupported (semantics : Semantics) : Bool :=
  usesRnsStorage semantics || usesFiniteStorage semantics

/-- `matrix_matches_descriptor`. -/
def matrixMatchesDescriptor (matrix : RnsMatrix) (semantics : Semantics) (rows cols rnsPrefix : ℕ) :
    Bool :=
  decide (matrix.backend = .hipDirect) && decide (matrix.desc.rows = rows) &&
    decide (matrix.desc.cols = cols) && decide (matrix.desc.logicalLd = cols) &&
    decide (matrix.desc.logicalLayout = .rowMajor) && decide (matrix.desc.semantics = semantics) &&
    decide (matrix.rnsPrefix = rnsPrefix) && matrix.hipResidues.isSome &&
    decide (0 ≤ matrix.hipDeviceId)

/-- `workspace_matches_plan`. -/
def workspaceMatchesPlan (plan : Plan) (workspace : Workspace) : Bool :=
  decide (workspace.identity.backend = .hipDirect) &&
    decide (workspace.identity.backend = plan.backend) &&
    decide (workspace.identity.semantics = plan.desc.semantics) &&
    decide (workspace.identity.boundKind = plan.desc.boundKind) &&
    decide (workspace.identity.m = plan.desc.m) && decide (workspace.identity.n = plan.desc.n) &&
    decide (workspace.identity.k = plan.desc.k) &&
    decide (workspace.identity.rnsPrefix = plan.rnsPrefix) &&
    decide (workspace.contract = scheduleContract plan)

/-- `task_triplet_owns_distinct_objects`. -/
def taskTripletOwnsDistinctObjects (task : GroupedGemmTask) : Bool :=
  decide (task.a ≠ task.b) && decide (task.a ≠ task.c) && decide (task.b ≠ task.c)

/-- `task_reuses_prior_objects`: objects are compared in the same role only. -/
def taskReusesPriorObjects (prior : List GroupedGemmTask) (task : GroupedGemmTask) : Bool :=
  prior.any fun other => decide (task.a = other.a) || decide (task.b = other.b) ||
    decide (task.c = other.c) || decide (task.workspace = other.workspace)

/-- The checks of one task on its live objects; the device ids agree with `deviceId`. -/
def groupedTaskMatches (plan : Plan) (workspaces : Workspaces) (s : Store) (deviceId : ℤ)
    (task : GroupedGemmTask) : Bool :=
  match s task.a, s task.b, s task.c, workspaces task.workspace with
  | some A, some B, some C, some workspace =>
    taskTripletOwnsDistinctObjects task &&
      matrixMatchesDescriptor A plan.desc.semantics plan.desc.m plan.desc.k plan.rnsPrefix &&
      matrixMatchesDescriptor B plan.desc.semantics plan.desc.k plan.desc.n plan.rnsPrefix &&
      matrixMatchesDescriptor C plan.desc.semantics plan.desc.m plan.desc.n plan.rnsPrefix &&
      workspaceMatchesPlan plan workspace && decide (A.hipDeviceId = B.hipDeviceId) &&
      decide (A.hipDeviceId = C.hipDeviceId) &&
      decide (workspace.identity.hipDeviceId = A.hipDeviceId) && decide (A.hipDeviceId = deviceId)
  | _, _, _, _ => false

/-- The loop over the tasks, each compared with the tasks before it. -/
def groupedTasksMatch (plan : Plan) (workspaces : Workspaces) (s : Store) (deviceId : ℤ) :
    List GroupedGemmTask → List GroupedGemmTask → Bool
  | _, [] => true
  | prior, task :: tasks =>
    !taskReusesPriorObjects prior task && groupedTaskMatches plan workspaces s deviceId task &&
      groupedTasksMatch plan workspaces s deviceId (prior ++ [task]) tasks

/-- The device of the first task. -/
def groupedDeviceId (s : Store) : List GroupedGemmTask → ℤ
  | task :: _ => match s task.a with
    | some A => A.hipDeviceId
    | none => -1
  | [] => -1

/-- `hip_direct_validate_grouped_gemm_descriptor_setup`, for the descriptor that
`hip_direct_build_same_shape_grouped_bucket_plan` makes of a plan. -/
def validateGroupedGemmDescriptorSetup (plan : Plan) (workspaces : Workspaces) (s : Store)
    (tasks : List GroupedGemmTask) : Status :=
  if tasks.length ≤ 1 ∨ groupedSemanticsSupported plan.desc.semantics = false ∨ plan.desc.m = 0 ∨
      plan.desc.n = 0 ∨ plan.desc.k = 0 ∨ plan.backend ≠ .hipDirect then .invalidArgument
  else if !groupedTasksMatch plan workspaces s (groupedDeviceId s tasks) [] tasks then
    .invalidArgument
  else .success

/-! ### Operand checks of the backend -/

/-- `validate_grouped_rns_matrices` on one matrix, for a prefix that all matrices share. -/
def groupedMatrixValid (plan : Plan) (rows cols rnsPrefix : ℕ) (requireCurrent : Bool) (deviceId : ℤ)
    (matrix : Option RnsMatrix) : Bool :=
  match matrix with
  | none => false
  | some matrix =>
    decide (matrix.backend = .hipDirect) && decide (matrix.desc.semantics = plan.desc.semantics) &&
      matrix.hipResidues.isSome && decide (0 ≤ matrix.hipDeviceId) &&
      decide (matrix.desc.rows = rows) && decide (matrix.desc.cols = cols) &&
      (!requireCurrent || matrix.deviceResiduesCurrent) &&
      decide (matrix.hipDeviceId = deviceId) && decide (matrix.rnsPrefix = rnsPrefix)

/-- The three `validate_grouped_rns_matrices` of a grouped GEMM. -/
def groupedOperandsValid (plan : Plan) (s : Store) (rnsPrefix : ℕ) (deviceId : ℤ)
    (tasks : List GroupedGemmTask) : Bool :=
  checkedMatrixElementsI32 plan.desc.m plan.desc.k &&
    tasks.all (fun task =>
      groupedMatrixValid plan plan.desc.m plan.desc.k rnsPrefix true deviceId (s task.a)) &&
    checkedMatrixElementsI32 plan.desc.k plan.desc.n &&
    tasks.all (fun task =>
      groupedMatrixValid plan plan.desc.k plan.desc.n rnsPrefix true deviceId (s task.b)) &&
    checkedMatrixElementsI32 plan.desc.m plan.desc.n &&
    tasks.all (fun task =>
      groupedMatrixValid plan plan.desc.m plan.desc.n rnsPrefix false deviceId (s task.c))

/-- The argument checks of `rns8_hip_direct_ring_gemm_i8_grouped_task_prefix_on_stream` and of
`launch_rns_grouped_task_prefix_gemm`. -/
def groupedTaskPrefixLaunchValid (taskCount m n k rnsPrefix : ℕ) : Bool :=
  decide (0 < taskCount) && decide (taskCount ≤ intMax) && decide (0 < m) && decide (0 < n) &&
    decide (0 < k) && decide (0 < rnsPrefix) && decide (rnsPrefix ≤ maxSupportedPrefix) &&
    decide (taskCount ≤ intMax / rnsPrefix) && decide (m ≤ int64Max / rnsPrefix / k) &&
    decide (k ≤ int64Max / rnsPrefix / n) && decide (m ≤ int64Max / rnsPrefix / n)

/-- The argument checks of `rns8_hip_direct_finite_ring_gemm_i8_grouped_device`. -/
def groupedFiniteLaunchValid (taskCount m n k modulus : ℕ) : Bool :=
  decide (0 < taskCount) && decide (taskCount ≤ intMax) && decide (0 < m) && decide (0 < n) &&
    decide (0 < k) && decide (2 ≤ modulus) && decide (modulus ≤ 256)

/-- What `hip_direct_gemm_rns_grouped_matrices_device` (`finite_u8 = false`) and
`hip_direct_gemm_finite_u8_grouped_matrices_device` report before the first launch: a rejected
operand, or a launch that refuses its arguments. -/
def groupedBackendStatus (plan : Plan) (finiteU8 : Bool) (modulus : ℕ) (s : Store)
    (tasks : List GroupedGemmTask) : Status :=
  if intMax < plan.desc.m ∨ intMax < plan.desc.n ∨ intMax < plan.desc.k then .invalidArgument
  else if finiteU8 then
    if !validFiniteModulusForSemantics plan.desc.semantics modulus ||
        !groupedOperandsValid plan s 0 (groupedDeviceId s tasks) tasks ||
        !(tasks.all fun task => decide ((s task.a).map RnsMatrix.finiteModulus = some modulus) &&
          decide ((s task.b).map RnsMatrix.finiteModulus = some modulus)) then .invalidArgument
    else if !groupedFiniteLaunchValid tasks.length plan.desc.m plan.desc.n plan.desc.k modulus then
      .backendFailure
    else .success
  else if !usesRnsStorage plan.desc.semantics || decide (plan.rnsPrefix = 0) ||
      decide (maxSupportedPrefix < plan.rnsPrefix) ||
      !groupedOperandsValid plan s plan.rnsPrefix (groupedDeviceId s tasks) tasks then .invalidArgument
  else if !groupedTaskPrefixLaunchValid tasks.length plan.desc.m plan.desc.n plan.desc.k
      plan.rnsPrefix then .backendFailure
  else .success

/-! ### The launches -/

/-- The planes of a grouped launch and the modulus of each. -/
structure GroupedShape where
  m : ℕ
  n : ℕ
  k : ℕ
  planes : ℕ
  modulus : ℕ → ℕ

/-- The shape of the launches for a plan. -/
def groupedShape (plan : Plan) (finiteU8 : Bool) (modulus : ℕ) : GroupedShape :=
  ⟨plan.desc.m, plan.desc.n, plan.desc.k, if finiteU8 then 1 else plan.rnsPrefix,
    if finiteU8 then fun _ => modulus else modulusAt⟩

/-- A launch that was accepted: the dimensions and the moduli of its planes. -/
structure GroupedShape.Valid (shape : GroupedShape) : Prop where
  m_pos : 0 < shape.m
  n_pos : 0 < shape.n
  k_pos : 0 < shape.k
  planes_pos : 0 < shape.planes
  modulus_bounds : ∀ p < shape.planes, 2 ≤ shape.modulus p ∧ shape.modulus p ≤ 256

/-- The operands of a task. -/
def GroupedShape.args (shape : GroupedShape) (task : GroupedGemmTask) : GemmArgs Handle :=
  ⟨⟨task.a, shape.m, shape.k⟩, ⟨task.b, shape.k, shape.n⟩, ⟨task.c, shape.m, shape.n⟩, shape.k,
    shape.modulus⟩

/-- The blocks of one task in one launch of `rns8_ring_gemm_i8_i32_grouped_task_prefix_kernel` or of
`rns8_finite_ring_gemm_i8_i32_grouped_modulus_kernel`: the new contents of the output. Its threads
read `A` and `B` and each its own cell of `C`, three buffers. -/
def groupedTaskBlock (shape : GroupedShape) (r : KBlock) (task : GroupedGemmTask)
    (mem : Planes Handle) : ℕ → Int8 := fun o =>
  let p := o / shape.n / shape.m
  if p < shape.planes then
    blockCell (shape.args task) mem r p (o / shape.n % shape.m) (o % shape.n) (mem task.c o)
  else mem task.c o

/-- The tasks of a grouped launch as a task group. -/
def groupedTasks (shape : GroupedShape) : TaskGroup.Tasks GroupedGemmTask Handle (ℕ → Int8) KBlock where
  out := GroupedGemmTask.c
  step := groupedTaskBlock shape

/-- The order in which the tasks of each launch run. -/
structure TaskOrders (tasks : List GroupedGemmTask) where
  order : KBlock → List GroupedGemmTask
  perm : ∀ r, (order r).Perm tasks

/-- The tasks of every launch run as they are listed. -/
def TaskOrders.listed (tasks : List GroupedGemmTask) : TaskOrders tasks :=
  ⟨fun _ => tasks, fun _ => List.Perm.refl _⟩

/-- The launches of a grouped GEMM. -/
def groupedLaunches (shape : GroupedShape) {tasks : List GroupedGemmTask} (orders : TaskOrders tasks)
    (mem : Planes Handle) : Planes Handle :=
  (groupedTasks shape).runRounds orders.order (kBlocks shape.k) mem

/-! ### What the descriptor checks give -/

section Descriptor

variable {plan : Plan} {workspaces : Workspaces} {s : Store} {deviceId : ℤ}

/-- What the checks of one task say. -/
structure GroupedTaskChecked (plan : Plan) (s : Store) (task : GroupedGemmTask) : Prop where
  distinct : task.a ≠ task.b ∧ task.a ≠ task.c ∧ task.b ≠ task.c
  matches_a : ∃ A, s task.a = some A ∧
    matrixMatchesDescriptor A plan.desc.semantics plan.desc.m plan.desc.k plan.rnsPrefix = true
  matches_b : ∃ B, s task.b = some B ∧
    matrixMatchesDescriptor B plan.desc.semantics plan.desc.k plan.desc.n plan.rnsPrefix = true
  matches_c : ∃ C, s task.c = some C ∧
    matrixMatchesDescriptor C plan.desc.semantics plan.desc.m plan.desc.n plan.rnsPrefix = true

theorem groupedTaskMatches_checked {task : GroupedGemmTask}
    (h : groupedTaskMatches plan workspaces s deviceId task = true) :
    GroupedTaskChecked plan s task := by
  unfold groupedTaskMatches at h
  split at h
  · next A B C workspace hA hB hC hW =>
    simp only [Bool.and_eq_true, taskTripletOwnsDistinctObjects, decide_eq_true_eq] at h
    obtain ⟨⟨⟨⟨⟨⟨⟨⟨hd, ha⟩, hb⟩, hc⟩, -⟩, -⟩, -⟩, -⟩, -⟩ := h
    exact ⟨⟨hd.1.1, hd.1.2, hd.2⟩, ⟨A, hA, ha⟩, ⟨B, hB, hb⟩, ⟨C, hC, hc⟩⟩
  · cases h

/-- A matrix that matches the descriptor has device residues of the descriptor's shape. -/
theorem matrixMatchesDescriptor_shape {matrix : RnsMatrix} {semantics : Semantics}
    {rows cols rnsPrefix : ℕ}
    (h : matrixMatchesDescriptor matrix semantics rows cols rnsPrefix = true) :
    matrix.desc.rows = rows ∧ matrix.desc.cols = cols ∧ matrix.hipResidues.isSome = true := by
  simp only [matrixMatchesDescriptor, Bool.and_eq_true, decide_eq_true_eq] at h
  tauto

/-- The tasks share no object in the same role. -/
def GroupedGemmTask.Apart (t u : GroupedGemmTask) : Prop := t.a ≠ u.a ∧ t.b ≠ u.b ∧ t.c ≠ u.c

theorem apart_of_not_reuses {prior : List GroupedGemmTask} {task : GroupedGemmTask}
    (h : taskReusesPriorObjects prior task = false) : ∀ other ∈ prior, other.Apart task := by
  intro other hmem
  have := List.any_eq_false.1 h other hmem
  simp only [Bool.or_eq_true, decide_eq_true_eq, not_or] at this
  exact ⟨Ne.symm this.1.1.1, Ne.symm this.1.1.2, Ne.symm this.1.2⟩

/-- **The checked tasks.** Each task owns three live matrices, and no two tasks share a matrix in
the same role. -/
theorem groupedTasksMatch_checked {prior tasks : List GroupedGemmTask}
    (h : groupedTasksMatch plan workspaces s deviceId prior tasks = true) :
    (∀ task ∈ tasks, GroupedTaskChecked plan s task) ∧
      tasks.Pairwise GroupedGemmTask.Apart ∧
      ∀ other ∈ prior, ∀ task ∈ tasks, other.Apart task := by
  induction tasks generalizing prior with
  | nil => exact ⟨by simp, List.Pairwise.nil, by simp⟩
  | cons task tasks ih =>
    simp only [groupedTasksMatch, Bool.and_eq_true, Bool.not_eq_true'] at h
    obtain ⟨⟨hreuse, hmatch⟩, htail⟩ := h
    obtain ⟨hchecked, hpair, hprior⟩ := ih htail
    refine ⟨?_, List.pairwise_cons.2 ⟨fun u hu => hprior task (by simp) u hu, hpair⟩, ?_⟩
    · intro t ht
      rcases List.mem_cons.1 ht with rfl | ht
      · exact groupedTaskMatches_checked hmatch
      · exact hchecked t ht
    · intro other hother t ht
      rcases List.mem_cons.1 ht with rfl | ht
      · exact apart_of_not_reuses hreuse other hother
      · exact hprior other (by simp [hother]) t ht

theorem groupedSetup_checked {tasks : List GroupedGemmTask}
    (h : validateGroupedGemmDescriptorSetup plan workspaces s tasks = .success) :
    (∀ task ∈ tasks, GroupedTaskChecked plan s task) ∧ tasks.Pairwise GroupedGemmTask.Apart := by
  unfold validateGroupedGemmDescriptorSetup at h
  split at h
  · cases h
  · split at h
    · cases h
    · next hm =>
      obtain ⟨h1, h2, -⟩ := groupedTasksMatch_checked (by simpa using hm)
      exact ⟨h1, h2⟩

end Descriptor

/-! ### What a group leaves -/

/-- No output of the group is an operand of the group, or an output of another task of it. -/
def HazardFree (tasks : List GroupedGemmTask) : Prop :=
  ∀ t ∈ tasks, ∀ u ∈ tasks, t.c ≠ u.a ∧ t.c ≠ u.b ∧ (u ≠ t → t.c ≠ u.c)

/-- The output of the task holds, in every plane of the launch, the residues of the product of the
operands as they were in `mem`. -/
def GroupedProduct (shape : GroupedShape) (task : GroupedGemmTask) (mem mem' : Planes Handle) : Prop :=
  ∀ p < shape.planes, ∀ row < shape.m, ∀ col < shape.n,
    mem' task.c ((shape.args task).C.offset p row col) =
      centeredResidue (cellDot (shape.args task) mem p row col) (shape.modulus p)

section Group

variable {shape : GroupedShape} {tasks : List GroupedGemmTask}

theorem independent_of_hazardFree (shape : GroupedShape) (h : HazardFree tasks) :
    (groupedTasks shape).Independent tasks where
  out_ne := fun t ht u hu hut => (h t ht u hu).2.2 hut
  step_eq := by
    intro r t ht mem mem' hagree
    have hbuf : ∀ b, (∀ u ∈ tasks, u ≠ t → b ≠ u.c) → mem b = mem' b := hagree
    have hA : mem t.a = mem' t.a := hbuf _ fun u hu _ => ((h u hu t ht).1).symm
    have hB : mem t.b = mem' t.b := hbuf _ fun u hu _ => ((h u hu t ht).2.1).symm
    have hC : mem t.c = mem' t.c := hbuf _ fun u hu hut => (h t ht u hu).2.2 hut
    funext o
    simp only [groupedTasks, groupedTaskBlock, blockCell, hC,
      blockDot_congr (shape.args t) hA hB]

/-- One launch of a task, at a cell of a plane. -/
theorem groupedTaskBlock_cell (shape : GroupedShape) (r : KBlock) (task : GroupedGemmTask) (mem : Planes Handle)
    {p row col : ℕ} (hp : p < shape.planes) (hrow : row < shape.m) (hcol : col < shape.n) :
    groupedTaskBlock shape r task mem ((shape.args task).C.offset p row col) =
      blockCell (shape.args task) mem r p row col
        (mem task.c ((shape.args task).C.offset p row col)) := by
  obtain ⟨h1, h2, h3⟩ := RowMajor.plane_offset_parts (p := p) hrow hcol
  have hoff : (shape.args task).C.offset p row col = (p * shape.m + row) * shape.n + col := rfl
  simp only [groupedTaskBlock, hoff, h1, h2, h3, if_pos hp]

/-- **A task alone.** A task whose output is not one of its operands leaves their product. -/
theorem runAlone_product (hshape : shape.Valid) {task : GroupedGemmTask} (ha : task.a ≠ task.c)
    (hb : task.b ≠ task.c) (mem : Planes Handle) :
    GroupedProduct shape task mem ((groupedTasks shape).runAlone task (kBlocks shape.k) mem) := by
  intro p hp row hrow col hcol
  obtain ⟨hm, hm'⟩ := hshape.modulus_bounds p hp
  -- the operands stay, and the cell holds the dot product of the positions done so far
  refine (kBlocks_invariant (P := fun q (mem' : Planes Handle) => (mem' task.a = mem task.a ∧
    mem' task.b = mem task.b) ∧ (0 < q → mem' task.c ((shape.args task).C.offset p row col) =
      centeredResidue (partialDot (shape.args task) mem q p row col) (shape.modulus p))) ?_
    ⟨⟨rfl, rfl⟩, fun h => absurd h (Nat.lt_irrefl 0)⟩).2 hshape.k_pos
  rintro mem' r hr ⟨⟨hA, hB⟩, hcell⟩
  refine ⟨⟨?_, ?_⟩, fun _ => ?_⟩
  · rw [TaskGroup.Tasks.runTask_of_ne (T := groupedTasks shape) r mem' task ha, hA]
  · rw [TaskGroup.Tasks.runTask_of_ne (T := groupedTasks shape) r mem' task hb, hB]
  · have hself := TaskGroup.Tasks.runTask_self (T := groupedTasks shape) r mem' task
    change (groupedTasks shape).runTask r mem' task task.c = groupedTaskBlock shape r task mem' at hself
    rw [hself, groupedTaskBlock_cell shape _ _ mem' hp hrow hcol]
    have hpart : ∀ q, partialDot (shape.args task) mem q p row col =
        partialDot (shape.args task) mem' q p row col := by
      intro q
      simp only [partialDot, GroupedShape.args, hA, hB]
    rw [hpart]
    exact blockCell_advances (shape.args task) hr (by exact lt_of_lt_of_le Nat.two_pos hm) hm'
      fun hpos => (hcell hpos).trans (by rw [hpart]; rfl)

/-- The tasks of a checked list differ. -/
theorem nodup_of_apart (h : tasks.Pairwise GroupedGemmTask.Apart) : tasks.Nodup :=
  h.imp fun happ heq => happ.1 (by rw [heq])

/-- **A hazard-free group.** Every task leaves the product of its operands, in any order. -/
theorem groupedLaunches_product (hshape : shape.Valid) (hfree : HazardFree tasks)
    (hnodup : tasks.Nodup) (orders : TaskOrders tasks) (mem : Planes Handle)
    {task : GroupedGemmTask} (ht : task ∈ tasks) :
    GroupedProduct shape task mem (groupedLaunches shape orders mem) := by
  intro p hp row hrow col hcol
  have hout := TaskGroup.Tasks.runRounds_out (independent_of_hazardFree shape hfree)
    hnodup orders.perm ht (kBlocks shape.k) mem
  change groupedLaunches shape orders mem task.c = _ at hout
  rw [hout]
  exact runAlone_product hshape (hfree task ht task ht).1.symm (hfree task ht task ht).2.1.symm mem
    p hp row hrow col hcol

/-- A buffer that is no task's output keeps its contents. -/
theorem groupedLaunches_of_ne (orders : TaskOrders tasks) (mem : Planes Handle) {h : Handle}
    (hh : ∀ task ∈ tasks, h ≠ task.c) : groupedLaunches shape orders mem h = mem h :=
  TaskGroup.Tasks.runRounds_of_ne _ mem fun r t ht => hh t ((orders.perm r).mem_iff.1 ht)

/-- **The order does not matter** to a hazard-free group. -/
theorem groupedLaunches_order (hfree : HazardFree tasks) (hnodup : tasks.Nodup)
    (orders orders' : TaskOrders tasks) (mem : Planes Handle) :
    groupedLaunches shape orders mem = groupedLaunches shape orders' mem := by
  funext h
  by_cases hh : ∃ task ∈ tasks, h = task.c
  · obtain ⟨task, ht, rfl⟩ := hh
    have hout := fun o : TaskOrders tasks => TaskGroup.Tasks.runRounds_out
      (independent_of_hazardFree shape hfree) hnodup o.perm ht (kBlocks shape.k) mem
    exact (hout orders).trans (hout orders').symm
  · have hne : ∀ task ∈ tasks, h ≠ task.c := fun task ht heq => hh ⟨task, ht, heq⟩
    rw [groupedLaunches_of_ne orders mem hne, groupedLaunches_of_ne orders' mem hne]

end Group

/-! ### What a hazard does -/

section Hazard

variable {shape : GroupedShape} {tasks : List GroupedGemmTask}

/-- The number of cells of a plane of each matrix of the group. -/
structure PlaneSizes (shape : GroupedShape) (tasks : List GroupedGemmTask) (cells : Handle → ℕ) :
    Prop where
  a : ∀ task ∈ tasks, cells task.a = shape.m * shape.k
  b : ∀ task ∈ tasks, cells task.b = shape.k * shape.n
  c : ∀ task ∈ tasks, cells task.c = shape.m * shape.n

/-- In its first plane a matrix holds nothing outside the first cell. -/
def Spotted (cells : Handle → ℕ) (mem : Planes Handle) : Prop :=
  ∀ h o, 0 < o → o < cells h → mem h o = 0

/-- The residue of `1` in the first plane. -/
def GroupedShape.one (shape : GroupedShape) : Int8 := centeredResidue 1 (shape.modulus 0)

theorem GroupedShape.Valid.one_ne_zero (hshape : shape.Valid) : shape.one ≠ 0 := by
  obtain ⟨hm, hm'⟩ := hshape.modulus_bounds 0 hshape.planes_pos
  have hpos : 0 < shape.modulus 0 := by omega
  intro h
  have h1 := (centeredResidue_eq_iff hpos hm').1
    (h.trans (centeredResidue_zero hpos).symm : centeredResidue 1 (shape.modulus 0) = _)
  have h2 := (Int.modEq_zero_iff_dvd.1 h1)
  have h3 := Int.le_of_dvd (by decide) h2
  omega

theorem GroupedShape.Valid.one_mul_one (hshape : shape.Valid) :
    centeredResidue (shape.one.toInt * shape.one.toInt) (shape.modulus 0) = shape.one := by
  obtain ⟨hm, hm'⟩ := hshape.modulus_bounds 0 hshape.planes_pos
  have h1 := centeredResidue_modEq 1 (by omega : 0 < shape.modulus 0) hm'
  exact centeredResidue_congr (by omega) hm' (h1.mul h1)

theorem GroupedShape.Valid.centered_one (hshape : shape.Valid) :
    centeredResidue shape.one.toInt (shape.modulus 0) = shape.one := by
  obtain ⟨hm, hm'⟩ := hshape.modulus_bounds 0 hshape.planes_pos
  exact centeredResidue_congr (by omega) hm' (centeredResidue_modEq 1 (by omega) hm')

variable {cells : Handle → ℕ} {task : GroupedGemmTask} {r : KBlock} {mem : Planes Handle}

/-- On spotted operands only the product of the two first cells is not zero. -/
theorem blockDot_spotted (hshape : shape.Valid) (hsizes : PlaneSizes shape tasks cells)
    (ht : task ∈ tasks) (hr : r.Launched shape.k) (hmem : Spotted cells mem) {row col : ℕ}
    (hrow : row < shape.m) (hcol : col < shape.n) :
    blockDot (shape.args task) mem r 0 row col =
      if row = 0 ∧ col = 0 ∧ r.kOffset = 0 then (mem task.a 0).toInt * (mem task.b 0).toInt
      else 0 := by
  have hkpos := hshape.k_pos
  have hnpos := hshape.n_pos
  -- a term other than the first reads a cell that is not the first of its plane
  have hterm : ∀ kk < r.kBlock, ¬ (row = 0 ∧ col = 0 ∧ r.kOffset + kk = 0) →
      (mem task.a ((shape.args task).A.offset 0 row (r.kOffset + kk))).toInt *
        (mem task.b ((shape.args task).B.offset 0 (r.kOffset + kk) col)).toInt = 0 := by
    intro kk hkk hne
    have hlt : r.kOffset + kk < shape.k := by have := hr.le; omega
    have hoffA : (shape.args task).A.offset 0 row (r.kOffset + kk) =
        row * shape.k + (r.kOffset + kk) := by
      simp [PlaneOperand.offset, GroupedShape.args]
    have hoffB : (shape.args task).B.offset 0 (r.kOffset + kk) col =
        (r.kOffset + kk) * shape.n + col := by
      simp [PlaneOperand.offset, GroupedShape.args]
    rw [hoffA, hoffB]
    by_cases hA : row = 0 ∧ r.kOffset + kk = 0
    · have hc : col ≠ 0 := fun h => hne ⟨hA.1, h, hA.2⟩
      rw [hmem task.b _ (by omega) (by rw [hsizes.b task ht]; exact RowMajor.offset_lt hcol hlt)]
      simp
    · have hpos : 0 < row * shape.k + (r.kOffset + kk) := by
        rcases Nat.eq_zero_or_pos row with h0 | h0
        · have : r.kOffset + kk ≠ 0 := fun h => hA ⟨h0, h⟩
          omega
        · have := Nat.mul_pos h0 hkpos
          omega
      rw [hmem task.a _ hpos (by rw [hsizes.a task ht]; exact RowMajor.offset_lt hlt hrow)]
      simp
  unfold blockDot
  split
  · next h =>
    obtain ⟨rfl, rfl, h0⟩ := h
    -- the first term of the first block is all there is
    rw [Finset.sum_eq_single_of_mem 0 (Finset.mem_range.2 hr.pos)]
    · simp [h0, PlaneOperand.offset, GroupedShape.args]
    · intro kk hkk hne
      exact hterm kk (Finset.mem_range.1 hkk) fun h => hne (by omega)
  · next h =>
    refine Finset.sum_eq_zero fun kk hkk => hterm kk (Finset.mem_range.1 hkk) fun h' => h ?_
    exact ⟨h'.1, h'.2.1, by omega⟩

/-- A launch of a task keeps the memory spotted. -/
theorem Spotted.runTask (hshape : shape.Valid) (hsizes : PlaneSizes shape tasks cells)
    (ht : task ∈ tasks) (hr : r.Launched shape.k) (hmem : Spotted cells mem) :
    Spotted cells ((groupedTasks shape).runTask r mem task) := by
  obtain ⟨hm, hm'⟩ := hshape.modulus_bounds 0 hshape.planes_pos
  intro h o hpos hlt
  by_cases hh : h = task.c
  · subst hh
    rw [hsizes.c task ht] at hlt
    obtain ⟨hrow, hcol⟩ := RowMajor.div_mod_lt hlt
    have hself := TaskGroup.Tasks.runTask_self (T := groupedTasks shape) r mem task
    change (groupedTasks shape).runTask r mem task task.c = groupedTaskBlock shape r task mem
      at hself
    have hoff : o = (shape.args task).C.offset 0 (o / shape.n) (o % shape.n) := by
      have := Nat.div_add_mod o shape.n
      rw [Nat.mul_comm] at this
      simpa [PlaneOperand.offset, GroupedShape.args] using this.symm
    have hne : ¬ (o / shape.n = 0 ∧ o % shape.n = 0 ∧ r.kOffset = 0) := by
      rintro ⟨h1, h2, -⟩
      have := Nat.div_add_mod o shape.n
      rw [h1, h2] at this
      omega
    have hprev : mem task.c o = 0 := hmem _ o hpos (by rw [hsizes.c task ht]; exact hlt)
    rw [hself]
    conv_lhs => rw [hoff]
    rw [groupedTaskBlock_cell shape _ _ mem hshape.planes_pos hrow hcol, ← hoff, hprev, blockCell,
      blockDot_spotted hshape hsizes ht hr hmem hrow hcol, if_neg hne, reduceToCentered_eq]
    simpa [GroupedShape.args] using centeredResidue_zero (by omega : 0 < shape.modulus 0)
  · rw [TaskGroup.Tasks.runTask_of_ne (T := groupedTasks shape) r mem task hh]
    exact hmem h o hpos hlt

/-- The first cell of the output after a launch. -/
theorem runTask_first (hshape : shape.Valid) (hsizes : PlaneSizes shape tasks cells)
    (ht : task ∈ tasks) (hr : r.Launched shape.k) (hmem : Spotted cells mem) :
    (groupedTasks shape).runTask r mem task task.c 0 =
      centeredResidue (if r.kOffset = 0 then (mem task.a 0).toInt * (mem task.b 0).toInt
        else (mem task.c 0).toInt) (shape.modulus 0) := by
  have hself := TaskGroup.Tasks.runTask_self (T := groupedTasks shape) r mem task
  change (groupedTasks shape).runTask r mem task task.c = groupedTaskBlock shape r task mem at hself
  have hoff : (shape.args task).C.offset 0 0 0 = 0 := by simp [PlaneOperand.offset]
  have hcell := groupedTaskBlock_cell shape r task mem hshape.planes_pos hshape.m_pos
    hshape.n_pos
  rw [hoff] at hcell
  rw [hself, hcell, blockCell, blockDot_spotted hshape hsizes ht hr hmem hshape.m_pos hshape.n_pos,
    reduceToCentered_eq, hr.accumulate]
  by_cases h0 : r.kOffset = 0
  · simp [h0, GroupedShape.args]
  · simp [h0, Nat.pos_of_ne_zero h0, GroupedShape.args]

/-- Contents that reveal a hazard on the output of `t`: that output is zero, and every other operand
of the group holds a one in its first cell and nothing else in its first plane. -/
structure Revealing (shape : GroupedShape) (tasks : List GroupedGemmTask) (cells : Handle → ℕ)
    (t : GroupedGemmTask) (mem : Planes Handle) : Prop where
  spotted : Spotted cells mem
  output : mem t.c = fun _ => 0
  one_a : ∀ v ∈ tasks, v.a ≠ t.c → mem v.a 0 = shape.one
  one_b : ∀ v ∈ tasks, v.b ≠ t.c → mem v.b 0 = shape.one

/-- The first cells of the two outputs hold a one. -/
def OnesAt (shape : GroupedShape) (t u : GroupedGemmTask) (mem : Planes Handle) : Prop :=
  mem t.c 0 = shape.one ∧ mem u.c 0 = shape.one

/-- A task with another output keeps the two ones. -/
theorem OnesAt.other {t u : GroupedGemmTask} (h : OnesAt shape t u mem) (ht : task.c ≠ t.c)
    (hu : task.c ≠ u.c) : OnesAt shape t u ((groupedTasks shape).runTask r mem task) := by
  have hframe := fun b (hb : b ≠ task.c) =>
    TaskGroup.Tasks.runTask_of_ne (T := groupedTasks shape) r mem task hb
  exact ⟨by rw [hframe _ ht.symm]; exact h.1, by rw [hframe _ hu.symm]; exact h.2⟩

/-- A later launch of any task keeps the two ones. -/
theorem OnesAt.later (hshape : shape.Valid) (hsizes : PlaneSizes shape tasks cells)
    (ht : task ∈ tasks) (hr : r.Launched shape.k) (hmem : Spotted cells mem)
    (hpos : 0 < r.kOffset) {t u : GroupedGemmTask} (h : OnesAt shape t u mem) :
    OnesAt shape t u ((groupedTasks shape).runTask r mem task) := by
  have hfirst := runTask_first hshape hsizes ht hr hmem
  rw [if_neg (by omega)] at hfirst
  have hkeep : ∀ b, mem b 0 = shape.one →
      (groupedTasks shape).runTask r mem task b 0 = shape.one := by
    intro b hb
    by_cases hbt : b = task.c
    · rw [hbt] at hb ⊢
      rw [hfirst, hb, hshape.centered_one]
    · rw [TaskGroup.Tasks.runTask_of_ne (T := groupedTasks shape) r mem task hbt, hb]
  exact ⟨hkeep _ h.1, hkeep _ h.2⟩

/-- The first launch, `t` before `u` before the rest, leaves the two ones. -/
theorem OnesAt.first (hshape : shape.Valid) (hsizes : PlaneSizes shape tasks cells)
    (hdistinct : ∀ task ∈ tasks, task.a ≠ task.b ∧ task.a ≠ task.c ∧ task.b ≠ task.c)
    {t u : GroupedGemmTask} (ht : t ∈ tasks) (hu : u ∈ tasks) (htu : t.c ≠ u.c)
    (hr : r.Launched shape.k) (h0 : r.kOffset = 0) (hmem : Revealing shape tasks cells t mem) :
    OnesAt shape t u
      ((groupedTasks shape).runTask r ((groupedTasks shape).runTask r mem t) u) := by
  have hdt := hdistinct t ht
  have hspot := hmem.spotted.runTask hshape hsizes ht hr
  have htc : (groupedTasks shape).runTask r mem t t.c 0 = shape.one := by
    rw [runTask_first hshape hsizes ht hr hmem.spotted, if_pos h0, hmem.one_a t ht hdt.2.1,
      hmem.one_b t ht hdt.2.2, hshape.one_mul_one]
  -- after `t`, also the operands of `u` hold a one, whether they are the output of `t` or not
  have hop : ∀ h, (h ≠ t.c → mem h 0 = shape.one) →
      (groupedTasks shape).runTask r mem t h 0 = shape.one := by
    intro h hh
    by_cases heq : h = t.c
    · rw [heq, htc]
    · rw [TaskGroup.Tasks.runTask_of_ne (T := groupedTasks shape) r mem t heq, hh heq]
  constructor
  · rw [TaskGroup.Tasks.runTask_of_ne (T := groupedTasks shape) r _ u htu, htc]
  · rw [runTask_first hshape hsizes hu hr hspot, if_pos h0, hop _ (hmem.one_a u hu),
      hop _ (hmem.one_b u hu), hshape.one_mul_one]

theorem out_ne_of_apart (hapart : tasks.Pairwise GroupedGemmTask.Apart) :
    ∀ v ∈ tasks, ∀ w ∈ tasks, v ≠ w → v.c ≠ w.c := fun _ hv _ hw hvw =>
  (List.Pairwise.forall_of_forall_of_flip (R := fun v w => v ≠ w → v.c ≠ w.c)
    (fun _ _ h => absurd rfl h) (hapart.imp fun h _ => h.2.2)
    (hapart.imp fun h _ => h.2.2.symm)) hv hw hvw

/-- After every launch in which `t` runs before `u` before the rest, both outputs hold a one. -/
theorem groupedLaunches_ones (hshape : shape.Valid) (hsizes : PlaneSizes shape tasks cells)
    (hapart : tasks.Pairwise GroupedGemmTask.Apart)
    (hdistinct : ∀ task ∈ tasks, task.a ≠ task.b ∧ task.a ≠ task.c ∧ task.b ≠ task.c)
    {t u : GroupedGemmTask} {rest : List GroupedGemmTask} (hperm : (t :: u :: rest).Perm tasks)
    (hmem : Revealing shape tasks cells t mem) :
    OnesAt shape t u (groupedLaunches shape ⟨fun _ => t :: u :: rest, fun _ => hperm⟩ mem) := by
  have hin : ∀ v ∈ t :: u :: rest, v ∈ tasks := fun v hv => hperm.mem_iff.1 hv
  have hnodup : (t :: u :: rest).Nodup := hperm.nodup_iff.2 (nodup_of_apart hapart)
  have ht : t ∈ tasks := hin t (by simp)
  have hu : u ∈ tasks := hin u (by simp)
  have hc := out_ne_of_apart hapart
  have htu : t ≠ u := fun h => by simp [h] at hnodup
  -- the tasks of a launch keep the ones that are there
  have hlaunch : ∀ r : KBlock, r.Launched shape.k → ∀ l : List GroupedGemmTask,
      (∀ v ∈ l, v ∈ tasks) → ∀ mem : Planes Handle,
      (0 < r.kOffset ∨ (∀ v ∈ l, v ≠ t ∧ v ≠ u)) → Spotted cells mem ∧ OnesAt shape t u mem →
      Spotted cells (l.foldl ((groupedTasks shape).runTask r) mem) ∧
        OnesAt shape t u (l.foldl ((groupedTasks shape).runTask r) mem) := by
    intro r hr l hl mem hor h
    refine LoopFold.foldl_invariant (I := fun mem => Spotted cells mem ∧ OnesAt shape t u mem)
      ?_ h
    rintro mem v hv ⟨hspot, hones⟩
    refine ⟨hspot.runTask hshape hsizes (hl v hv) hr, ?_⟩
    rcases hor with hpos | hne
    · exact hones.later hshape hsizes (hl v hv) hr hspot hpos
    · exact hones.other (hc v (hl v hv) t ht (hne v hv).1) (hc v (hl v hv) u hu (hne v hv).2)
  refine ((kBlocks_invariant (P := fun q (mem' : Planes Handle) => (q = 0 → mem' = mem) ∧
    (0 < q → Spotted cells mem' ∧ OnesAt shape t u mem')) ?_
    ⟨fun _ => rfl, fun h => absurd h (Nat.lt_irrefl 0)⟩).2 hshape.k_pos).2
  rintro mem' r hr ⟨hfirst, hlater⟩
  have hpos := hr.pos
  refine ⟨fun h => by omega, fun _ => ?_⟩
  by_cases h0 : r.kOffset = 0
  · obtain rfl := hfirst h0
    refine hlaunch r hr rest (fun v hv => hin v (by simp [hv])) _ (Or.inr fun v hv => ?_) ⟨?_, ?_⟩
    · simp only [List.nodup_cons, List.mem_cons, not_or] at hnodup
      exact ⟨fun h => hnodup.1.2 (h ▸ hv), fun h => hnodup.2.1 (h ▸ hv)⟩
    · exact (hmem.spotted.runTask hshape hsizes ht hr).runTask hshape hsizes hu hr
    · exact OnesAt.first hshape hsizes hdistinct ht hu (hc t ht u hu htu) hr h0 hmem
  · exact hlaunch r hr _ hin _ (Or.inl (by omega)) (hlater (by omega))

/-- **A hazard shows.** When the output of one task is an operand of another, revealing contents and
some order of the tasks make the launches write a wrong product. -/
theorem groupedLaunches_hazard (hshape : shape.Valid) (hsizes : PlaneSizes shape tasks cells)
    (hapart : tasks.Pairwise GroupedGemmTask.Apart)
    (hdistinct : ∀ task ∈ tasks, task.a ≠ task.b ∧ task.a ≠ task.c ∧ task.b ≠ task.c)
    {t u : GroupedGemmTask} (ht : t ∈ tasks) (hu : u ∈ tasks) (hhazard : t.c = u.a ∨ t.c = u.b)
    (hmem : Revealing shape tasks cells t mem) :
    ∃ orders : TaskOrders tasks, groupedLaunches shape orders mem t.c ≠ mem t.c ∧
      ¬ GroupedProduct shape u mem (groupedLaunches shape orders mem) := by
  have hdt := hdistinct t ht
  have hut : u ≠ t := by
    rintro rfl
    exact hhazard.elim (fun h => hdt.2.1 h.symm) fun h => hdt.2.2 h.symm
  -- the order in which the producer runs right before the consumer
  have hperm : (t :: u :: (tasks.erase t).erase u).Perm tasks :=
    ((List.perm_cons_erase ((List.mem_erase_of_ne hut).2 hu)).symm.cons t).trans
      (List.perm_cons_erase ht).symm
  obtain ⟨htone, huone⟩ := groupedLaunches_ones hshape hsizes hapart hdistinct hperm hmem
  refine ⟨⟨fun _ => t :: u :: (tasks.erase t).erase u, fun _ => hperm⟩, fun heq => ?_,
    fun hprod => ?_⟩
  · rw [heq, hmem.output] at htone
    exact hshape.one_ne_zero htone.symm
  · have hcell := hprod 0 hshape.planes_pos 0 hshape.m_pos 0 hshape.n_pos
    have hoff : (shape.args u).C.offset 0 0 0 = 0 := by simp [PlaneOperand.offset]
    -- the consumer was to read the zeros that the output held before
    have hdot : cellDot (shape.args u) mem 0 0 0 = 0 := by
      refine Finset.sum_eq_zero fun kk _ => ?_
      rcases hhazard with h | h
      · have hz : mem (shape.args u).A.buf = fun _ => 0 := (congrArg mem h.symm).trans hmem.output
        simp [hz]
      · have hz : mem (shape.args u).B.buf = fun _ => 0 := (congrArg mem h.symm).trans hmem.output
        simp [hz]
    obtain ⟨hm, -⟩ := hshape.modulus_bounds 0 hshape.planes_pos
    rw [hoff, huone, hdot, centeredResidue_zero (by omega)] at hcell
    exact hshape.one_ne_zero hcell

end Hazard

end Rns8
