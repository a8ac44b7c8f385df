import Rns8.Hip.GroupedGemm

/-!
# The grouped GEMM entry points

`rns8_gemm_rns_grouped` and `rns8_gemm_finite_u8_grouped`, both
`execute_public_grouped_gemm` of `api_gemm.cpp`. The device operations of a call complete; what is
open is the order in which the device runs the tasks of a launch.
-/

namespace Rns8

/-! ### Validation -/

/-- The loop over the tasks of `build_public_grouped_gemm_descriptor`. -/
def validateGroupedTasks (ctx : Context) (plan : Plan) (workspaces : Workspaces) (s : Store) :
    List GroupedGemmTask → Status
  | [] => .success
  | task :: tasks =>
    if task.abiOk = false ∨ s task.a = none ∨ s task.b = none ∨ s task.c = none then .invalidArgument
    else match workspaces task.workspace with
      | none => .invalidArgument
      | some workspace =>
        let workspaceStatus := validatePlanContextWorkspace ctx plan workspace
        if workspaceStatus ≠ .success then workspaceStatus
        else validateGroupedTasks ctx plan workspaces s tasks

/-- `build_public_grouped_gemm_descriptor`. -/
def buildPublicGroupedGemmDescriptor (ctx : Context) (plan : Plan) (workspaces : Workspaces)
    (s : Store) (tasks : List GroupedGemmTask) : Status :=
  if tasks.length ≤ 1 then .invalidArgument
  else
    let tasksStatus := validateGroupedTasks ctx plan workspaces s tasks
    if tasksStatus ≠ .success then tasksStatus
    else if plan.backend ≠ .hipDirect then .unsupportedBackend
    else if !contextAcceptsBackend ctx plan.backend then .invalidArgument
    else
      let setupStatus := validateGroupedGemmDescriptorSetup plan workspaces s tasks
      if setupStatus ≠ .success then setupStatus
      else if groupedDeviceId s tasks ≠ ctx.deviceId then .invalidArgument
      else .success

/-- An exact-wide output must not be an input, or the output of another task, of the group. -/
def exactOutputReused (tasks : List GroupedGemmTask) (i : ℕ) (task : GroupedGemmTask) : Bool :=
  tasks.zipIdx.any fun other => decide (task.c = other.1.a) || decide (task.c = other.1.b) ||
    (decide (i ≠ other.2) && decide (task.c = other.1.c))

/-- The loop over the tasks of an exact-wide group, from task `i` on: their output ranges. -/
def exactGroupedRanges (ctx : Context) (plan : Plan) (s : Store) (all : List GroupedGemmTask) :
    ℕ → List GroupedGemmTask → Except Status (List (ℤ × MatrixRanges))
  | _, [] => .ok []
  | i, task :: tasks => match s task.a, s task.b, s task.c with
    | some A, some B, some C =>
      let operandStatus := validateRnsGemmOperands ctx plan task.a task.b task.c A B C
      if operandStatus ≠ .success then .error operandStatus
      else match exactGemmRange plan A B with
        | .error status => .error status
        | .ok range =>
          if exactOutputReused all i task then .error .invalidArgument
          else match exactGroupedRanges ctx plan s all (i + 1) tasks with
            | .error status => .error status
            | .ok ranges => .ok (range :: ranges)
    | _, _, _ => .error .invalidArgument

/-- The ranges of an exact-wide group; the other groups have none. -/
def groupedRanges (ctx : Context) (plan : Plan) (s : Store) (tasks : List GroupedGemmTask) :
    Except Status (List (ℤ × MatrixRanges)) :=
  if exactWideSemantics plan.desc.semantics then exactGroupedRanges ctx plan s tasks 0 tasks
  else .ok []

/-- The semantics check of `execute_public_grouped_gemm`. -/
def groupedSemanticsMatch (plan : Plan) (finiteU8 : Bool) (modulus : ℕ) : Bool :=
  if finiteU8 then usesFiniteStorage plan.desc.semantics && decide (plan.desc.finiteModulus = modulus) &&
    validFiniteModulusForSemantics plan.desc.semantics modulus
  else usesRnsStorage plan.desc.semantics

/-! ### Execution -/

/-- The store with other device residues, in buffers of the same length. -/
def Store.withDevicePlanes (s : Store) (mem : Planes Handle) : Store := fun h =>
  (s h).map fun matrix => matrix.withHipResidues (mem h)

/-- A change of one live matrix. -/
def Store.modify (s : Store) (h : Handle) (f : RnsMatrix → RnsMatrix) : Store := fun h' =>
  if h' = h then (s h).map f else s h'

/-- The flags of an output after the launches; the exact-wide semantics restamp it later. -/
def stampGroupedOutput (plan : Plan) (finiteU8 : Bool) (modulus : ℕ) (version : UInt64)
    (C : RnsMatrix) : RnsMatrix :=
  let C := markOutputDeviceResiduesCurrent C
  let C := if finiteU8 then { C with finiteModulus := modulus } else C
  if exactWideSemantics plan.desc.semantics then C else { C with sourceVersion := version }

/-- The loop over the outputs after the launches. -/
def markGroupedOutput (plan : Plan) (finiteU8 : Bool) (modulus : ℕ) (s : Store)
    (task : GroupedGemmTask) : Store :=
  match s task.a, s task.b with
  | some A, some B =>
    s.modify task.c (stampGroupedOutput plan finiteU8 modulus (gemmOutputSourceVersion A B))
  | _, _ => s

/-- The loop of `hip_direct_validate_grouped_gemm_descriptor_after_gemm` over one task. -/
def groupedOutputValid (plan : Plan) (s : Store) (task : GroupedGemmTask) : Bool :=
  match s task.a, s task.b, s task.c with
  | some A, some B, some C => C.deviceResiduesCurrent &&
    (decide (plan.desc.semantics ≠ .boundedI64 ∧ plan.desc.semantics ≠ .boundedU64) ||
      decide (C.sourceVersion = gemmOutputSourceVersion A B))
  | _, _, _ => false

/-- `commit_exact_range` on the outputs of an exact-wide group. -/
def commitGroupedRange (plan : Plan) (s : Store)
    (task : GroupedGemmTask × (ℤ × MatrixRanges)) : Store :=
  match s task.1.a, s task.1.b with
  | some A, some B => s.modify task.1.c fun C =>
    { commitExactRange C plan task.2.1 task.2.2 with sourceVersion := gemmOutputSourceVersion A B }
  | _, _ => s

/-- The outputs of a failed exact-wide group. -/
def invalidateGroupedOutput (s : Store) (task : GroupedGemmTask) : Store :=
  s.modify task.c fun C => if C.exactRangePrefix = 0 then invalidateOutputCurrentness C else C

/-- The outputs before the launches: those of an exact-wide group are invalidated. -/
def groupedPrepared (plan : Plan) (tasks : List GroupedGemmTask) (s : Store) : Store :=
  if exactWideSemantics plan.desc.semantics then
    tasks.foldl (fun s task => s.modify task.c invalidateOutputCurrentness) s
  else s

/-- `execute_public_grouped_gemm` after its validation: the launches and the bookkeeping. -/
def dispatchGrouped {tasks : List GroupedGemmTask} (orders : TaskOrders tasks) (plan : Plan)
    (finiteU8 : Bool) (modulus : ℕ) (workspaces : Workspaces) (ranges : List (ℤ × MatrixRanges))
    (s : Store) : Status × Store :=
  let exact := exactWideSemantics plan.desc.semantics
  let s := groupedPrepared plan tasks s
  let failed (s : Store) : Store := if exact then tasks.foldl invalidateGroupedOutput s else s
  let backendStatus := groupedBackendStatus plan finiteU8 modulus s tasks
  if backendStatus ≠ .success then (backendStatus, failed s)
  else
    let s := s.withDevicePlanes
      (groupedLaunches (groupedShape plan finiteU8 modulus) orders s.devicePlanes)
    let s := tasks.foldl (markGroupedOutput plan finiteU8 modulus) s
    if validateGroupedGemmDescriptorSetup plan workspaces s tasks ≠ .success ∨
        tasks.all (groupedOutputValid plan s) = false then (.invalidArgument, failed s)
    else (.success, (tasks.zip ranges).foldl (commitGroupedRange plan) s)

/-- `execute_public_grouped_gemm`. -/
def executePublicGroupedGemm {tasks : List GroupedGemmTask} (orders : TaskOrders tasks)
    (ctx : Context) (plan : Plan) (finiteU8 : Bool) (modulus : ℕ) (workspaces : Workspaces)
    (s : Store) : Status × Store :=
  if !groupedSemanticsMatch plan finiteU8 modulus then (.invalidArgument, s)
  else
    let descriptorStatus := buildPublicGroupedGemmDescriptor ctx plan workspaces s tasks
    if descriptorStatus ≠ .success then (descriptorStatus, s)
    else match groupedRanges ctx plan s tasks with
      | .error status => (status, s)
      | .ok ranges => dispatchGrouped orders plan finiteU8 modulus workspaces ranges s

/-- `rns8_gemm_rns_grouped`. -/
def rns8GemmRnsGrouped {tasks : List GroupedGemmTask} (orders : TaskOrders tasks) (ctx : Context)
    (plan : Plan) (workspaces : Workspaces) (s : Store) : Status × Store :=
  executePublicGroupedGemm orders ctx plan false 0 workspaces s

/-- `rns8_gemm_finite_u8_grouped`. -/
def rns8GemmFiniteU8Grouped {tasks : List GroupedGemmTask} (orders : TaskOrders tasks)
    (ctx : Context) (plan : Plan) (modulus : ℕ) (workspaces : Workspaces) (s : Store) :
    Status × Store :=
  executePublicGroupedGemm orders ctx plan true modulus workspaces s

end Rns8
