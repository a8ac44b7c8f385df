import Rns8.Hip.WrapKernels

/-!
# The rocWMMA candidate of the wrapping GEMM

`rocwmma_wrap64_accumulate_component` of `rocwmma_backend_rns_kernels.inc` and
`rocwmma_backend_wrap64_kernel.inc`. The matrix unit multiplies signed bytes: each byte is taken as a
signed value and its high bit, and the four products of two bytes go into the diagonals with weights.
What the fragments of the library compute is a parameter.
-/

namespace Rns8

open ByteLimbs BlockLoop TreeReduction

/-! ### Lanes -/

/-- `wrap64_signed_byte_lane`. -/
def wrap64SignedByteLane (value : UInt8) : Int8 :=
  if value < 128 then value.toInt8 else Int8.ofInt ((value.toNat : ℤ) - 256)

/-- `wrap64_lane_component`. -/
def wrap64LaneComponent (value : UInt8) (highBitComponent : Bool) : Int8 :=
  if highBitComponent then (value >>> 7).toInt8 else wrap64SignedByteLane value

/-- The arguments of a call that differ from call to call. -/
structure WmmaComponent where
  aLimb : ℕ
  bLimb : ℕ
  aHighBitComponent : Bool
  bHighBitComponent : Bool
  coefficient : Int64

/-- The calls of a pass over `k_base`: four for each pair of limbs. -/
def wmmaComponents : List WmmaComponent :=
  (List.range 8).flatMap fun aLimb => (List.range (8 - aLimb)).flatMap fun bLimb =>
    [⟨aLimb, bLimb, false, false, 1⟩, ⟨aLimb, bLimb, true, false, 256⟩,
      ⟨aLimb, bLimb, false, true, 256⟩, ⟨aLimb, bLimb, true, true, 65536⟩]

/-! ### The kernel -/

/-- The shared memory of a block, and how many loops over it have run. -/
structure WmmaShared where
  aPack : ℕ → Int8
  bPack : ℕ → Int8
  tileAcc : ℕ → Int32
  diagonalAcc : ℕ → Int64
  loops : ℕ

/-- The wave: its threads, the order in which they run through each loop, what the shared memory of a
block holds before, and the fragments. `mma` is what `store_matrix_sync` leaves after `mma_sync` on
the fragments loaded from `a_pack` and `b_pack` and a zero accumulator. -/
structure WmmaEnv where
  waveThreads : ℕ
  waveThreads_pos : 0 < waveThreads
  order : (blockX blockY loop : ℕ) → List ℕ
  perm : ∀ blockX blockY loop, (order blockX blockY loop).Perm (List.range waveThreads)
  shared : WmmaShared
  mma : (ℕ → Int8) → (ℕ → Int8) → ℕ → Int32

section Kernel

variable (env : WmmaEnv) (aLimbs bLimbs : ℕ → UInt8) (m n k : ℕ)

/-- What the first loop stores in `a_pack[index]`. -/
def wmmaAValue (tileRow kBase : ℕ) (component : WmmaComponent) (index : ℕ) : Int8 :=
  let localK := index % 16
  let localRow := index / 16
  let row := tileRow + localRow
  let kk := kBase + localK
  if row < m ∧ localK < kExtent k kBase then
    wrap64LaneComponent (aLimbs (wrap64CompactLimbIndex row kk k component.aLimb))
      component.aHighBitComponent
  else 0

/-- What the second loop stores in `b_pack[index]`. -/
def wmmaBValue (tileCol kBase : ℕ) (component : WmmaComponent) (index : ℕ) : Int8 :=
  let localK := index % 16
  let localCol := index / 16
  let col := tileCol + localCol
  let kk := kBase + localK
  if col < n ∧ localK < kExtent k kBase then
    wrap64LaneComponent (bLimbs (wrap64CompactLimbIndex kk col n component.bLimb))
      component.bHighBitComponent
  else 0

/-- `rocwmma_wrap64_accumulate_component`, for the block at `blockX` and `blockY`. -/
def rocwmmaWrap64AccumulateComponent (blockX blockY : ℕ) (shared : WmmaShared)
    (pass : ℕ × WmmaComponent) : WmmaShared :=
  let tileCol := blockX * 16
  let tileRow := blockY * 16
  let aPack := sweep env.waveThreads (16 * 16) (env.order blockX blockY shared.loops)
    (fun index _ => wmmaAValue aLimbs m k tileRow pass.1 pass.2 index) shared.aPack
  let bPack := sweep env.waveThreads (16 * 16) (env.order blockX blockY (shared.loops + 1))
    (fun index _ => wmmaBValue bLimbs n k tileCol pass.1 pass.2 index) shared.bPack
  let tileAcc := env.mma aPack bPack
  let diagonal := pass.2.aLimb + pass.2.bLimb
  let diagonalAcc := sweepAt (diagonal * 16 * 16) env.waveThreads (16 * 16)
    (env.order blockX blockY (shared.loops + 2))
    (fun index acc =>
      let localRow := index / 16
      let localCol := index - localRow * 16
      if tileRow + localRow < m ∧ tileCol + localCol < n then
        acc + (tileAcc index).toInt64 * pass.2.coefficient
      else acc) shared.diagonalAcc
  ⟨aPack, bPack, tileAcc, diagonalAcc, shared.loops + 3⟩

/-- The shared memory after the loop that clears `diagonal_acc`. -/
def wmmaCleared (blockX blockY : ℕ) : WmmaShared :=
  { env.shared with
    diagonalAcc := sweep env.waveThreads (8 * 16 * 16) (env.order blockX blockY 0) (fun _ _ => 0)
      env.shared.diagonalAcc
    loops := 1 }

/-- The calls of the loop over `k_base`. -/
def wmmaPasses : List (ℕ × WmmaComponent) :=
  (List.range ((k + 15) / 16)).flatMap fun step => wmmaComponents.map fun c => (16 * step, c)

/-- The shared memory after some of the calls. -/
def wmmaSharedAfter (blockX blockY : ℕ) (passes : List (ℕ × WmmaComponent)) : WmmaShared :=
  passes.foldl (rocwmmaWrap64AccumulateComponent env aLimbs bLimbs m n k blockX blockY)
    (wmmaCleared env blockX blockY)

/-- The loop over `diagonal` of a cell. -/
def wmmaStores (dst : ℕ) (diagonals : ℕ → Int64) : List (ℕ × UInt8) :=
  ((List.range 8).foldl (fun (stores, carry) diagonal =>
    let column := (diagonals diagonal + carry.toInt64).toUInt64
    (stores ++ [(dst + diagonal, (column &&& 0xff).toUInt8)], column >>> 8))
    (([] : List (ℕ × UInt8)), (0 : UInt64))).1

/-- `rocwmma_wrap64_byte_gemm36_candidate_kernel`. -/
def rocwmmaWrap64ByteGemm36CandidateKernel (t : WrapThread) : List (ℕ × UInt8) :=
  let shared := wmmaSharedAfter env aLimbs bLimbs m n k t.blockX t.blockY (wmmaPasses k)
  (stridedIndices env.waveThreads (16 * 16) t.threadX).flatMap fun index =>
    let localRow := index / 16
    let localCol := index - localRow * 16
    let row := t.blockY * 16 + localRow
    let col := t.blockX * 16 + localCol
    if m ≤ row ∨ n ≤ col then []
    else wmmaStores (wrap64CompactLimbIndex row col n 0) fun diagonal =>
      shared.diagonalAcc (diagonal * 16 * 16 + index)

/-- `rns8_rocwmma_wrap64_gemm_byte_limbs_candidate_device`, on buffers that exist. -/
def rns8RocwmmaWrap64GemmByteLimbsCandidateDevice : Option (WrapLaunch UInt8) :=
  if 0 < m ∧ 0 < n ∧ 0 < k ∧ m ≤ intMax ∧ n ≤ intMax ∧ k ≤ intMax ∧ k ≤ 32768 then
    some ⟨wrapGridDim ((n + 16 - 1) / 16), wrapGridDim ((m + 16 - 1) / 16), env.waveThreads, 1,
      rocwmmaWrap64ByteGemm36CandidateKernel env aLimbs bLimbs m n k⟩
  else none

end Kernel

end Rns8
