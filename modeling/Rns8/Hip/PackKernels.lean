import Mathlib.Tactic
import Rns8.Core.Residue
import Rns8.Hip.Garner
import Rns8.Hip.ShapeChecks

/-!
# The pack kernels of the direct HIP backend

`hip_direct_pack_kernels.cuh` and its launchers. The kernels of the two element types are the same
text, so each is one definition with the centering function as a parameter; every block has 256
threads. A kernel is the list of stores of one thread. The shapes that the launchers accept keep every
`int64_t` index far below its range, and a row, a column and a plane below the `int` that bounds it,
so that indices are natural numbers; the number of blocks is cast as the launch casts it.
-/

namespace Rns8

/-! ### Centering 64-bit values -/

/-- `static_cast<int64_t>(b)`. -/
def bitI64 (b : Bool) : Int64 := if b then 1 else 0

/-- `static_cast<uint64_t>(b)`. -/
def bitU64 (b : Bool) : UInt64 := if b then 1 else 0

/-- `rns8_center_i64_device`, and `rns8_center_i64_fixed_modulus_device<modulus>`. -/
def centerI64Device (value : Int64) (modulus : ℕ) : Int8 :=
  let m := Int64.ofNat modulus
  let residue := value % m
  let residue := residue + (m &&& -bitI64 (decide (residue < 0)))
  let threshold := (m + 1) / 2
  (residue - (m &&& -bitI64 (decide (threshold ≤ residue)))).toInt8

/-- `rns8_center_u64_device`, and `rns8_center_u64_fixed_modulus_device<modulus>`. -/
def centerU64Device (value : UInt64) (modulus : ℕ) : Int8 :=
  let m := UInt64.ofNat modulus
  let residue := value % m
  let threshold := (m + 1) / 2
  (residue - (m &&& (0 - bitU64 (decide (threshold ≤ residue))))).toInt64.toInt8

/-- The moduli of the `switch` of the `default_modulus_fixed` functions, by case. -/
def fixedModulusCases : List ℕ :=
  [256, 255, 253, 251, 247, 239, 233, 229, 227, 223, 217, 211, 199, 197, 193, 191, 181, 179, 173, 167]

/-- `rns8_center_i64_default_modulus_fixed_device`. -/
def centerI64DefaultModulusFixedDevice (value : Int64) (modulusIndex fallbackModulus : ℕ) : Int8 :=
  match fixedModulusCases[modulusIndex]? with
  | some modulus => centerI64Device value modulus
  | none => centerI64Device value fallbackModulus

/-- `rns8_center_u64_default_modulus_fixed_device`. -/
def centerU64DefaultModulusFixedDevice (value : UInt64) (modulusIndex fallbackModulus : ℕ) : Int8 :=
  match fixedModulusCases[modulusIndex]? with
  | some modulus => centerU64Device value modulus
  | none => centerU64Device value fallbackModulus

/-- The centering written out in the eight-cell and the small kernel. -/
def centerByHalf (value : Int64) (modulus : ℕ) : Int8 :=
  let m := Int64.ofNat modulus
  let reduced := value % m
  let reduced := if reduced < 0 then reduced + m else reduced
  (if Int64.ofNat (modulus / 2) < reduced then reduced - m else reduced).toInt8

/-! ### Kernels -/

/-- `blockIdx.x` and `threadIdx.x`. -/
abbrev PackThread := ℕ × ℕ

/-- `blockIdx.x * blockDim.x + threadIdx.x`. -/
def PackThread.index (t : PackThread) : ℕ := t.1 * 256 + t.2

section Kernels

variable {α : Type} (center : α → ℕ → Int8) (centerFixed : α → ℕ → ℕ → Int8) (src : ℕ → α)
  (rows cols ld rnsPrefix : ℕ)

/-- `rns8_pack_{i64,u64}_kernel`. -/
def packKernel (t : PackThread) : List (ℕ × Int8) :=
  let elements := rows * cols
  let total := elements * rnsPrefix
  let idx := t.index
  if total ≤ idx then []
  else
    let modulusIndex := idx / elements
    let element := idx - modulusIndex * elements
    let row := element / cols
    let col := element - row * cols
    [(idx, center (src (row * ld + col)) (defaultModuliDevice.getD modulusIndex 0))]

/-- `rns8_pack_{i64,u64}_contiguous_kernel`. -/
def packContiguousKernel (t : PackThread) : List (ℕ × Int8) :=
  let elements := rows * cols
  let total := elements * rnsPrefix
  let idx := t.index
  if total ≤ idx then []
  else
    let modulusIndex := idx / elements
    let cell := idx - modulusIndex * elements
    [(idx, center (src cell) (defaultModuliDevice.getD modulusIndex 0))]

/-- `rns8_pack_{i64,u64}_fixed_prefix_kernel<Prefix>`. -/
def packFixedPrefixKernel (t : PackThread) : List (ℕ × Int8) :=
  let elements := rows * cols
  let cell := t.index
  if elements ≤ cell then []
  else
    let row := cell / cols
    let col := cell - row * cols
    let value := src (row * ld + col)
    (List.range rnsPrefix).map fun modulusIndex =>
      (modulusIndex * elements + cell,
        centerFixed value modulusIndex (defaultModuliDevice.getD modulusIndex 0))

/-- `rns8_pack_{i64,u64}_fixed_prefix_contiguous{,_pair,_quad}_kernel<Prefix>`, for a `width` of 1, 2
and 4 cells. -/
def packFixedPrefixContiguousKernel (width : ℕ) (t : PackThread) : List (ℕ × Int8) :=
  let elements := rows * cols
  let cell := t.index * width
  if elements ≤ cell then []
  else
    (List.range rnsPrefix).flatMap fun modulusIndex =>
      let output := modulusIndex * elements + cell
      ((List.range width).filter fun c => decide (cell + c < elements)).map fun c =>
        (output + c, centerFixed (src (cell + c)) modulusIndex (defaultModuliDevice.getD modulusIndex 0))

end Kernels

/-- `rns8_pack_native_i64_to_rns_8wide_vopd_kernel`. -/
def packNativeI64ToRns8wideVopdKernel (src : ℕ → Int64) (rows cols ld plane modulus : ℕ)
    (t : PackThread) : List (ℕ × Int8) :=
  let elements := rows * cols
  let cell := t.index * 8
  if elements ≤ cell then []
  else
    ((List.range 8).takeWhile fun c => decide (cell + c < elements)).map fun c =>
      let row := (cell + c) / cols
      let col := cell + c - row * cols
      (plane * elements + (cell + c), centerByHalf (src (row * ld + col)) modulus)

/-- `rns8_pack_i64_4wide_coalesced_kernel`. -/
def packI64FourWideCoalescedKernel (src : ℕ → Int64) (rows cols rnsPrefix : ℕ) (t : PackThread) :
    List (ℕ × Int8) :=
  let elements := rows * cols
  let cellsPerThread := 4
  let total := elements * rnsPrefix
  let baseCell := t.1 * 256 * cellsPerThread + t.2 * cellsPerThread
  if total ≤ baseCell then []
  else
    ((List.range 4).takeWhile fun c => decide (baseCell + c < total)).map fun c =>
      let index := baseCell + c
      let modulusIndex := index / elements
      let element := index - modulusIndex * elements
      (index, centerI64Device (src element) (defaultModuliDevice.getD modulusIndex 0))

/-- `rns8_persistent_small_pack_i64_kernel`. -/
def persistentSmallPackI64Kernel (src : ℕ → Int64) (rows cols ld rnsPrefix : ℕ) (t : PackThread) :
    List (ℕ × Int8) :=
  let cellsPerPlane := rows * cols
  let totalCells := cellsPerPlane * rnsPrefix
  let cell := t.index
  if totalCells ≤ cell then []
  else
    let plane := cell / cellsPerPlane
    let element := cell - plane * cellsPerPlane
    let row := element / cols
    let col := element - row * cols
    [(cell, centerByHalf (src (row * ld + col)) (defaultModuliDevice.getD plane 0))]

/-! ### Launches -/

/-- `launches` launches of `blocks` blocks, and the stores of a thread of one of them. -/
structure PackLaunch where
  launches : ℕ
  blocks : ℕ
  kernel : ℕ → PackThread → List (ℕ × Int8)

/-- A thread of one of the launches. -/
abbrev PackLaunch.Thread := ℕ × PackThread

/-- `dim3(static_cast<int>(count))`. -/
def gridDim (count : ℕ) : ℕ := count % 2 ^ 32

/-- The threads of a grid. -/
def packThreads (blocks : ℕ) : List PackThread := (List.range blocks).product (List.range 256)

/-- All threads of the launches. -/
def PackLaunch.threads (launch : PackLaunch) : List PackLaunch.Thread :=
  (List.range launch.launches).product (packThreads launch.blocks)

/-- What the launches store when the threads run in the given order. -/
def PackLaunch.stores (launch : PackLaunch) (order : List PackLaunch.Thread) : List (ℕ × Int8) :=
  order.flatMap fun t => launch.kernel t.1 t.2

/-- The prefixes with a `fixed_prefix` case. -/
def fixedPackPrefixes : List ℕ := [1, 2, 3, 4, 5, 6, 7, 8, 9, 18, 20]

section Launchers

variable {α : Type} (center : α → ℕ → Int8) (centerFixed : α → ℕ → ℕ → Int8) (src : ℕ → α)
  (rows cols ld rnsPrefix : ℕ)

/-- `rns8_hip_direct_pack_{i64,u64}_device_on_stream`. -/
def hipDirectPackOnStream : PackLaunch :=
  let elements := rows * cols
  let total := rnsPrefix * elements
  let blocks := gridDim ((total + 256 - 1) / 256)
  let fixedBlocks := gridDim ((elements + 256 - 1) / 256)
  let fixedQuadBlocks := gridDim (((elements + 3) / 4 + 256 - 1) / 256)
  let contiguous := decide (ld = cols)
  if rnsPrefix ∈ fixedPackPrefixes then
    if contiguous then
      ⟨1, fixedQuadBlocks, fun _ => packFixedPrefixContiguousKernel centerFixed src rows cols rnsPrefix 4⟩
    else ⟨1, fixedBlocks, fun _ => packFixedPrefixKernel centerFixed src rows cols ld rnsPrefix⟩
  else if contiguous then ⟨1, blocks, fun _ => packContiguousKernel center src rows cols rnsPrefix⟩
  else ⟨1, blocks, fun _ => packKernel center src rows cols ld rnsPrefix⟩

end Launchers

section Dispatch

variable (rows cols ld rnsPrefix : ℕ)

/-- `rns8_hip_direct_pack_i64_device_on_stream`. -/
def rns8HipDirectPackI64DeviceOnStream (src : ℕ → Int64) : PackLaunch :=
  hipDirectPackOnStream centerI64Device centerI64DefaultModulusFixedDevice src rows cols ld rnsPrefix

/-- `rns8_hip_direct_pack_u64_device_on_stream`. -/
def rns8HipDirectPackU64DeviceOnStream (src : ℕ → UInt64) : PackLaunch :=
  hipDirectPackOnStream centerU64Device centerU64DefaultModulusFixedDevice src rows cols ld rnsPrefix

/-- `rns8_hip_direct_pack_native_i64_to_rns_vopd_device`, called with `kDefaultModuli`. -/
def rns8HipDirectPackNativeI64ToRnsVopdDevice (src : ℕ → Int64) : PackLaunch where
  launches := rnsPrefix
  blocks := gridDim ((rows * cols + 256 * 8 - 1) / (256 * 8))
  kernel := fun plane =>
    packNativeI64ToRns8wideVopdKernel src rows cols ld plane (kDefaultModuli.getD plane 0)

/-- `rns8_hip_direct_pack_i64_4wide_coalesced_device`. -/
def rns8HipDirectPackI64FourWideCoalescedDevice (src : ℕ → Int64) : PackLaunch where
  launches := 1
  blocks := gridDim ((rows * cols * rnsPrefix + 256 * 4 - 1) / (256 * 4))
  kernel := fun _ => packI64FourWideCoalescedKernel src rows cols rnsPrefix

/-- `rns8_hip_direct_pack_i64_persistent_small_device`. -/
def rns8HipDirectPackI64PersistentSmallDevice (src : ℕ → Int64) : PackLaunch where
  launches := 1
  blocks := gridDim ((rows * cols * rnsPrefix + 256 - 1) / 256)
  kernel := fun _ => persistentSmallPackI64Kernel src rows cols ld rnsPrefix

/-- The checks of `hip_direct_pack_{i64,u64}_device` on the shape. -/
def packShapeAccepted : Bool :=
  checkedI32Shape rows cols ld rnsPrefix && checkedPackElements rows cols rnsPrefix

/-- `hip_direct_pack_i64_device`, from the upload on. -/
def hipDirectPackI64Device (src : ℕ → Int64) : Option PackLaunch :=
  if packShapeAccepted rows cols ld rnsPrefix then
    let cellCount := rows * cols
    let useFourCellPack := decide (ld = cols) && decide (256 ≤ cellCount) && decide (cellCount ≤ 4096)
    let useEightCellPack := decide (ld = cols) && decide (4096 < cellCount)
    let useSmallPack := decide (cellCount ≤ 4096) && !useFourCellPack
    if useFourCellPack then some (rns8HipDirectPackI64FourWideCoalescedDevice rows cols rnsPrefix src)
    else if useEightCellPack then
      some (rns8HipDirectPackNativeI64ToRnsVopdDevice rows cols ld rnsPrefix src)
    else if useSmallPack then
      some (rns8HipDirectPackI64PersistentSmallDevice rows cols ld rnsPrefix src)
    else some (rns8HipDirectPackI64DeviceOnStream rows cols ld rnsPrefix src)
  else none

/-- `hip_direct_pack_u64_device`, from the upload on. -/
def hipDirectPackU64Device (src : ℕ → UInt64) : Option PackLaunch :=
  if packShapeAccepted rows cols ld rnsPrefix then
    some (rns8HipDirectPackU64DeviceOnStream rows cols ld rnsPrefix src)
  else none

end Dispatch

/-! ### Groups of tasks -/

/-- A thread of a grouped launch: `blockIdx.y`, and the thread of the task. -/
abbrev GroupedPackThread := ℕ × PackThread

/-- A grouped launch: `grid.y`, `grid.x`, and the stores of a thread through `residue_ptrs[task]`. -/
structure GroupedPackLaunch where
  taskCount : ℕ
  blocks : ℕ
  kernel : ℕ → PackThread → List (ℕ × Int8)

/-- All threads of a grouped launch. -/
def GroupedPackLaunch.threads (launch : GroupedPackLaunch) : List GroupedPackThread :=
  (List.range launch.taskCount).product (packThreads launch.blocks)

/-- What a grouped launch stores through each pointer, as task, index and value. -/
def GroupedPackLaunch.stores (launch : GroupedPackLaunch) (order : List GroupedPackThread) :
    List (ℕ × ℕ × Int8) :=
  order.flatMap fun t => (launch.kernel t.1 t.2).map fun s => (t.1, s)

/-- The stores through `residue_ptrs[task]`. -/
def taskStores (stores : List (ℕ × ℕ × Int8)) (task : ℕ) : List (ℕ × Int8) :=
  (stores.filter fun s => decide (s.1 = task)).map Prod.snd

section Grouped

variable {α : Type} (center : α → ℕ → Int8) (centerFixed : α → ℕ → ℕ → Int8)
  (taskCount srcTaskStride rows cols ld rnsPrefix : ℕ) (src : ℕ → α)

/-- `rns8_hip_direct_pack_{i64,u64}_grouped_device`, with the kernels
`rns8_pack_{i64,u64}_grouped…_kernel`: the kernels above, reading at `task * src_task_stride`. -/
def hipDirectPackGroupedDevice : Option GroupedPackLaunch :=
  -- the count is cast to `int`, so that a large one is negative
  if taskCount = 0 ∨ intMax < taskCount ∨ srcTaskStride = 0 ∨ rows = 0 ∨ cols = 0 ∨ ld < cols ∨
      rnsPrefix = 0 ∨ 20 < rnsPrefix then none
  else
    let elements := rows * cols
    let perTaskTotal := rnsPrefix * elements
    let blocks := gridDim ((perTaskTotal + 256 - 1) / 256)
    let fixedBlocks := gridDim ((elements + 256 - 1) / 256)
    let fixedQuadBlocks := gridDim (((elements + 3) / 4 + 256 - 1) / 256)
    let contiguous := decide (ld = cols)
    let taskSrc := fun task i => src (task * srcTaskStride + i)
    if rnsPrefix ∈ fixedPackPrefixes then
      if contiguous then
        some ⟨taskCount, fixedQuadBlocks, fun task =>
          packFixedPrefixContiguousKernel centerFixed (taskSrc task) rows cols rnsPrefix 4⟩
      else
        some ⟨taskCount, fixedBlocks, fun task =>
          packFixedPrefixKernel centerFixed (taskSrc task) rows cols ld rnsPrefix⟩
    else if contiguous then
      some ⟨taskCount, blocks, fun task =>
        packContiguousKernel center (taskSrc task) rows cols rnsPrefix⟩
    else
      some ⟨taskCount, blocks, fun task => packKernel center (taskSrc task) rows cols ld rnsPrefix⟩

/-- `hip_direct_pack_i64_grouped_device` and `hip_direct_pack_u64_grouped_device`, from the upload
on: the shape is checked, and a task's source is `rows * ld` values. -/
def hipDirectPackGrouped : Option GroupedPackLaunch :=
  if packShapeAccepted rows cols ld rnsPrefix then
    hipDirectPackGroupedDevice center centerFixed taskCount (rows * ld) rows cols ld rnsPrefix src
  else none

end Grouped

/-- `hip_direct_pack_i64_grouped_device`. -/
def hipDirectPackI64GroupedDevice (taskCount rows cols ld rnsPrefix : ℕ) (src : ℕ → Int64) :
    Option GroupedPackLaunch :=
  hipDirectPackGrouped centerI64Device centerI64DefaultModulusFixedDevice taskCount rows cols ld
    rnsPrefix src

/-- `hip_direct_pack_u64_grouped_device`. -/
def hipDirectPackU64GroupedDevice (taskCount rows cols ld rnsPrefix : ℕ) (src : ℕ → UInt64) :
    Option GroupedPackLaunch :=
  hipDirectPackGrouped centerU64Device centerU64DefaultModulusFixedDevice taskCount rows cols ld
    rnsPrefix src

end Rns8
