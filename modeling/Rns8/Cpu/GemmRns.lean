import Rns8.Cpu.RingTeam
import Rns8.Core.Matrix
import Rns8.Plan.Grid
import Rns8.Lib.WriteOnce

/-!
# The plane loops of the CPU backend

`cpu_gemm_rns` and `cpu_gemm_finite_u8` as lists of kernel calls over the storage of all matrices:
one call for each plane and tile, made in order until the allocation of a call's accumulator fails.

The calls write disjoint cells of the output (`CallPlan.disjoint_loopSteps`), so that the result is
settled by `WriteOnce`: the loop ends with a target exactly when each call stores it after the calls
before it have (`CallPlan.run_iff`), and with an output that is neither operand it stores the residue
of the dot product in every cell a call covers (`CallPlan.run_read`).
-/

namespace Rns8

open CenteredResidue

variable {ι : Type} [DecidableEq ι]

/-- A matrix operand of the plane loop: its buffer and its dimensions. -/
structure PlaneOperand (ι : Type) where
  buf : ι
  rows : ℕ
  cols : ℕ

/-- The pointer `residues.data() + plane * rows * cols + row * cols + col`. -/
def PlaneOperand.ptr (M : PlaneOperand ι) (plane row col : ℕ) : PlanePtr ι :=
  ⟨M.buf, plane * M.rows * M.cols + row * M.cols + col, M.cols⟩

/-- One call of the plane loop: a plane and a rectangle of the output. -/
structure KernelCall where
  plane : ℕ
  rowOffset : ℕ
  colOffset : ℕ
  rowExtent : ℕ
  colExtent : ℕ
  zeroOutput : Bool
  deriving DecidableEq, Repr

/-- The calls of one schedule entry, over `p < entry.selected_prefix`. -/
def TileScheduleEntry.calls (entry : TileScheduleEntry) : List KernelCall :=
  (List.range entry.selectedPrefix).map fun p =>
    ⟨p, entry.rowOffset, entry.colOffset, entry.rowExtent, entry.colExtent, entry.flags.zeroOutput⟩

/-- The calls of `cpu_gemm_rns`, in order. -/
def cpuGemmCalls (plan : Plan) : List KernelCall :=
  if plan.tileSchedule = [] then
    (List.range plan.rnsPrefix).map fun p => ⟨p, 0, 0, plan.desc.m, plan.desc.n, false⟩
  else plan.tileSchedule.flatMap TileScheduleEntry.calls

/-- The call of `cpu_gemm_finite_u8`. -/
def finiteGemmCalls (plan : Plan) : List KernelCall := [⟨0, 0, 0, plan.desc.m, plan.desc.n, false⟩]

/-- What a plane loop is run with: the operands, the inner dimension and the modulus of each plane. -/
structure GemmArgs (ι : Type) where
  A : PlaneOperand ι
  B : PlaneOperand ι
  C : PlaneOperand ι
  k : ℕ
  modulus : ℕ → ℕ

variable (g : GemmArgs ι)

/-- The output rectangle of a call. -/
def GemmArgs.cPtr (call : KernelCall) : PlanePtr ι := g.C.ptr call.plane call.rowOffset call.colOffset

/-- The rows of `A` a call multiplies. -/
def GemmArgs.aPtr (call : KernelCall) : PlanePtr ι := g.A.ptr call.plane call.rowOffset 0

/-- The columns of `B` a call multiplies. -/
def GemmArgs.bPtr (call : KernelCall) : PlanePtr ι := g.B.ptr call.plane 0 call.colOffset

/-- `fill_tile_modulus` for a zero-output call, `ring_gemm_modulus` otherwise. -/
def kernelCall (team : RowTeam RingAction) (call : KernelCall) (mem : Planes ι) : Planes ι :=
  if call.zeroOutput then fillTileModulus (g.cPtr call) call.rowExtent call.colExtent 0 mem
  else ringGemmModulus team (g.aPtr call) (g.bPtr call) (g.cPtr call) call.rowExtent call.colExtent
    g.k (g.modulus call.plane) mem

/-- What the operating system answers during one call of a CPU entry point: whether the allocation
of the accumulator of the `i`-th kernel call succeeds, and which team runs its rows. -/
structure CpuEnv where
  allocOk : ℕ → Bool
  team : ℕ → RowTeam RingAction
  wrapTeam : RowTeam WrapAction

/-- Every allocation succeeds and the rows run on the calling thread. -/
def CpuEnv.serial : CpuEnv := ⟨fun _ => true, fun _ => serialTeam, serialTeam⟩

/-- The plane loop. `ring_gemm_modulus` allocates its accumulator before it writes; the exception of
a failed allocation leaves the loop and becomes `RNS8_INTERNAL_ERROR` in `guard_api`. -/
def kernelLoop (env : CpuEnv) : ℕ → List KernelCall → Planes ι → Status × Planes ι
  | _, [], mem => (.success, mem)
  | i, call :: calls, mem =>
    if call.zeroOutput = false ∧ env.allocOk i = false then (.internalError, mem)
    else kernelLoop env (i + 1) calls (kernelCall g (env.team i) call mem)

/-! ### Which cells the calls cover -/

/-- The call writes the cell of the plane. -/
def KernelCall.Covers (call : KernelCall) (plane row col : ℕ) : Prop :=
  call.plane = plane ∧ call.rowOffset ≤ row ∧ row < call.rowOffset + call.rowExtent ∧
    call.colOffset ≤ col ∧ col < call.colOffset + call.colExtent

/-- A list of calls for an `m × n` output: the rectangles lie in the output, and no cell of a plane
is covered twice. -/
structure CallPlan (m n : ℕ) (calls : List KernelCall) : Prop where
  fits : ∀ call ∈ calls, ∀ plane row col, call.Covers plane row col → row < m ∧ col < n
  pairwise : calls.Pairwise fun c d => ∀ plane row col, c.Covers plane row col →
    ¬ d.Covers plane row col

theorem planes_callPlan (m n r : ℕ) :
    CallPlan m n ((List.range r).map fun p => ⟨p, 0, 0, m, n, false⟩) where
  fits := by
    rintro call hcall plane row col ⟨-, -, hrow, -, hcol⟩
    obtain ⟨p, -, rfl⟩ := List.mem_map.1 hcall
    exact ⟨by simpa using hrow, by simpa using hcol⟩
  pairwise := by
    rw [List.pairwise_map]
    exact List.nodup_range.imp fun hne plane row col h h' => hne (h.1.trans h'.1.symm)

theorem finiteGemmCalls_callPlan (plan : Plan) :
    CallPlan plan.desc.m plan.desc.n (finiteGemmCalls plan) :=
  planes_callPlan plan.desc.m plan.desc.n 1

theorem mem_entry_calls {entry : TileScheduleEntry} {call : KernelCall} {plane row col : ℕ}
    (hcall : call ∈ entry.calls) (hc : call.Covers plane row col) :
    plane < entry.selectedPrefix ∧ entry.Covers row col ∧
      call.zeroOutput = entry.flags.zeroOutput := by
  obtain ⟨p, hp, rfl⟩ := List.mem_map.1 hcall
  obtain ⟨rfl, h1, h2, h3, h4⟩ := hc
  exact ⟨List.mem_range.1 hp, ⟨h1, h2, h3, h4⟩, rfl⟩

/-- **The calls of a scheduled GEMM write each cell at most once.** -/
theorem cpuGemmCalls_callPlan {plan : Plan} (hgrid : ScheduleGrid plan) :
    CallPlan plan.desc.m plan.desc.n (cpuGemmCalls plan) := by
  unfold cpuGemmCalls
  split
  · exact planes_callPlan _ _ _
  · constructor
    · intro call hcall plane row col hc
      obtain ⟨entry, he, hmem⟩ := List.mem_flatMap.1 hcall
      exact hgrid.lt_of_covers he (mem_entry_calls hmem hc).2.1
    · refine List.pairwise_flatMap.2 ⟨fun entry _ => ?_, ?_⟩
      · refine List.pairwise_map.2 (List.nodup_range.imp fun hne plane row col h h' => ?_)
        exact hne (h.1.trans h'.1.symm)
      · refine hgrid.pairwise_covers.imp fun hdisj c hc d hd plane row col h h' => ?_
        exact hdisj row col (mem_entry_calls hc h).2.1 (mem_entry_calls hd h').2.1

/-- Whether the plan declares the tile of the cell zero. -/
def zeroOutputForCell (plan : Plan) (row col : ℕ) : Bool :=
  match tileScheduleEntryForCell plan row col with
  | some entry => entry.flags.zeroOutput
  | none => false

/-- **Which planes of a cell are written.** A call covers plane `p` of an output cell exactly when
`p` is below the prefix selected for the cell. -/
theorem exists_covers_iff {plan : Plan} (hgrid : ScheduleGrid plan) {p row col : ℕ}
    (hrow : row < plan.desc.m) (hcol : col < plan.desc.n) :
    (∃ call ∈ cpuGemmCalls plan, call.Covers p row col) ↔ p < selectedPrefixForCell plan row col := by
  unfold cpuGemmCalls
  split
  · next hnil =>
    have hsel : selectedPrefixForCell plan row col = plan.rnsPrefix := by
      simp [selectedPrefixForCell, tileScheduleEntryForCell, hnil]
    rw [hsel]
    constructor
    · rintro ⟨call, hcall, hc⟩
      obtain ⟨q, hq, rfl⟩ := List.mem_map.1 hcall
      obtain rfl : q = p := hc.1
      exact List.mem_range.1 hq
    · intro hp
      exact ⟨_, List.mem_map.2 ⟨p, List.mem_range.2 hp, rfl⟩, rfl, Nat.zero_le _, by simpa,
        Nat.zero_le _, by simpa⟩
  · next hne =>
    constructor
    · rintro ⟨call, hcall, hc⟩
      obtain ⟨entry, he, hmem⟩ := List.mem_flatMap.1 hcall
      obtain ⟨hp, hcov, -⟩ := mem_entry_calls hmem hc
      rw [selectedPrefixForCell, hgrid.entry_eq_of_covers he hcov]
      exact hp
    · intro hp
      obtain ⟨entry, hget, he, hcov⟩ := hgrid.exists_entry hne hrow hcol
      rw [selectedPrefixForCell, hget] at hp
      exact ⟨_, List.mem_flatMap.2 ⟨entry, he, List.mem_map.2 ⟨p, List.mem_range.2 hp, rfl⟩⟩,
        rfl, hcov⟩

/-- The call that covers a cell is a zero-output call exactly when the plan declares its tile zero. -/
theorem zeroOutput_eq_of_covers {plan : Plan} (hgrid : ScheduleGrid plan) {call : KernelCall}
    (hcall : call ∈ cpuGemmCalls plan) {p row col : ℕ} (hc : call.Covers p row col) :
    call.zeroOutput = zeroOutputForCell plan row col := by
  unfold cpuGemmCalls at hcall
  split at hcall
  · next hnil =>
    obtain ⟨q, -, rfl⟩ := List.mem_map.1 hcall
    simp [zeroOutputForCell, tileScheduleEntryForCell, hnil]
  · obtain ⟨entry, he, hmem⟩ := List.mem_flatMap.1 hcall
    obtain ⟨-, hcov, hz⟩ := mem_entry_calls hmem hc
    rw [hz, zeroOutputForCell, hgrid.entry_eq_of_covers he hcov]

/-! ### Cells and their offsets -/

/-- The offset of a cell of a plane. -/
def PlaneOperand.offset (M : PlaneOperand ι) (plane row col : ℕ) : ℕ :=
  (plane * M.rows + row) * M.cols + col

omit [DecidableEq ι] in
theorem cPtr_addr (call : KernelCall) (row col : ℕ) : (g.cPtr call).addr row col =
    g.C.offset call.plane (call.rowOffset + row) (call.colOffset + col) := by
  simp only [GemmArgs.cPtr, PlaneOperand.ptr, PlanePtr.addr, PlaneOperand.offset]
  ring

/-- The dot product of a row of plane `p` of `A` with a column of plane `p` of `B`. -/
def cellDot (mem : Planes ι) (p row col : ℕ) : ℤ :=
  ∑ kk ∈ Finset.range g.k,
    (mem g.A.buf (g.A.offset p row kk)).toInt * (mem g.B.buf (g.B.offset p kk col)).toInt

omit [DecidableEq ι] in
theorem planeDot_eq_cellDot (mem : Planes ι) (call : KernelCall) (row col : ℕ) :
    planeDot (g.aPtr call) (g.bPtr call) row col g.k mem =
      cellDot g mem call.plane (call.rowOffset + row) (call.colOffset + col) := by
  refine Finset.sum_congr rfl fun kk _ => ?_
  congr 2
  · simp only [PlanePtr.read, PlanePtr.addr, GemmArgs.aPtr, PlaneOperand.ptr, PlaneOperand.offset]
    congr 1; ring
  · simp only [PlanePtr.read, PlanePtr.addr, GemmArgs.bPtr, PlaneOperand.ptr, PlaneOperand.offset]
    congr 1; ring

omit [DecidableEq ι] in
theorem cellDot_congr {mem mem' : Planes ι} (hA : mem g.A.buf = mem' g.A.buf)
    (hB : mem g.B.buf = mem' g.B.buf) (p row col : ℕ) :
    cellDot g mem p row col = cellDot g mem' p row col := by
  simp [cellDot, hA, hB]

/-! ### The calls of a plane loop -/

/-- The cells a call writes. -/
def CallWrites (call : KernelCall) (b : ι) (o : ℕ) : Prop :=
  b = g.C.buf ∧ ∃ row col, call.Covers call.plane row col ∧ o = g.C.offset call.plane row col

omit [DecidableEq ι] in
/-- An offset in a row of the rectangle of a call is a cell the call covers. -/
theorem callWrites_of_inRow {call : KernelCall} {row o : ℕ} (hrow : row < call.rowExtent)
    (ho : (g.cPtr call).addr row 0 ≤ o ∧ o < (g.cPtr call).addr row 0 + call.colExtent) :
    CallWrites g call g.C.buf o := by
  have haddr := cPtr_addr g call row 0
  simp only [PlaneOperand.offset] at haddr
  refine ⟨rfl, call.rowOffset + row, call.colOffset + (o - (g.cPtr call).addr row 0),
    ⟨rfl, ?_, ?_, ?_, ?_⟩, ?_⟩
  · omega
  · omega
  · omega
  · omega
  · simp only [PlaneOperand.offset]
    omega

/-- A call changes only the cells it writes. -/
theorem kernelCall_frame (team : RowTeam RingAction) (call : KernelCall) (mem : Planes ι) (b : ι)
    (o : ℕ) (h : ¬ CallWrites g call b o) : kernelCall g team call mem b o = mem b o := by
  by_cases hb : b = g.C.buf
  · subst hb
    have ho : ∀ row < call.rowExtent, ¬ ((g.cPtr call).addr row 0 ≤ o ∧
        o < (g.cPtr call).addr row 0 + call.colExtent) :=
      fun row hrow hin => h (callWrites_of_inRow g hrow hin)
    unfold kernelCall
    split
    · exact fillTileModulus_frame (g.cPtr call) _ _ _ mem ho
    · exact ringGemmModulus_frame team _ _ (g.cPtr call) _ _ _ _ mem ho
  · have hb' : b ≠ (g.cPtr call).buf := hb
    unfold kernelCall
    split
    · rw [fillTileModulus_of_ne (g.cPtr call) _ _ _ mem hb']
    · rw [ringGemmModulus_of_ne team _ _ (g.cPtr call) _ _ _ _ mem hb']

/-- The calls of a loop with their teams. -/
def loopSteps (env : CpuEnv) : ℕ → List KernelCall → List (KernelCall × RowTeam RingAction)
  | _, [] => []
  | i, call :: calls => (call, env.team i) :: loopSteps env (i + 1) calls

theorem map_fst_loopSteps (env : CpuEnv) (i : ℕ) (calls : List KernelCall) :
    (loopSteps env i calls).map Prod.fst = calls := by
  induction calls generalizing i with
  | nil => rfl
  | cons call calls ih => rw [loopSteps, List.map_cons, ih]

theorem mem_of_mem_loopSteps {env : CpuEnv} {i : ℕ} {calls : List KernelCall}
    {s : KernelCall × RowTeam RingAction} (hs : s ∈ loopSteps env i calls) : s.1 ∈ calls := by
  rw [← map_fst_loopSteps env i calls]
  exact List.mem_map_of_mem hs

/-- What one call does. -/
def loopStep (s : KernelCall × RowTeam RingAction) (mem : Planes ι) : Planes ι :=
  kernelCall g s.2 s.1 mem

/-- A loop that ends well has made every call. -/
theorem kernelLoop_success {env : CpuEnv} {i : ℕ} {calls : List KernelCall} {mem mem' : Planes ι}
    (h : kernelLoop g env i calls mem = (.success, mem')) :
    mem' = (loopSteps env i calls).foldl (fun mem s => loopStep g s mem) mem := by
  induction calls generalizing i mem with
  | nil => exact (Prod.ext_iff.1 h).2.symm
  | cons call calls ih =>
    unfold kernelLoop at h
    split at h
    · cases h
    · rw [ih h, loopSteps, List.foldl_cons, loopStep]

/-- The loop ends well when every allocation does. -/
theorem kernelLoop_of_allocOk {env : CpuEnv} (i : ℕ) (calls : List KernelCall)
    (halloc : ∀ j < calls.length, env.allocOk (i + j) = true) (mem : Planes ι) :
    (kernelLoop g env i calls mem).1 = .success := by
  induction calls generalizing i mem with
  | nil => rfl
  | cons call calls ih =>
    unfold kernelLoop
    have hfirst : env.allocOk i = true := halloc 0 (by simp)
    rw [if_neg (by simp [hfirst])]
    refine ih (i + 1) (fun j hj => ?_) _
    have hnext := halloc (j + 1) (by simpa using hj)
    rwa [Nat.add_comm j 1, ← Nat.add_assoc] at hnext

/-- The allocation of the first kernel call fails. -/
def FailsAtOnce (env : CpuEnv) (calls : List KernelCall) : Prop :=
  ∃ call ∈ calls.head?, call.zeroOutput = false ∧ env.allocOk 0 = false

/-- A loop that fails at once has written nothing. -/
theorem kernelLoop_of_failsAtOnce {env : CpuEnv} {calls : List KernelCall}
    (h : FailsAtOnce env calls) (mem : Planes ι) :
    kernelLoop g env 0 calls mem = (.internalError, mem) := by
  obtain ⟨call, hcall, hfails⟩ := h
  cases calls with
  | nil => cases hcall
  | cons first calls =>
    obtain rfl : first = call := Option.some.inj hcall
    unfold kernelLoop
    rw [if_pos hfails]

namespace CallPlan

variable {g} {calls : List KernelCall} (hplan : CallPlan g.C.rows g.C.cols calls)

include hplan

omit [DecidableEq ι] in
/-- A written cell is covered by its call. -/
theorem covers_of_callWrites {call : KernelCall} (hcall : call ∈ calls) {b : ι} {p row col : ℕ}
    (hrow : row < g.C.rows) (hcol : col < g.C.cols)
    (h : CallWrites g call b (g.C.offset p row col)) : call.Covers p row col := by
  obtain ⟨-, row', col', hc, heq⟩ := h
  have hin := hplan.fits _ hcall _ _ _ hc
  obtain ⟨rfl, rfl, rfl⟩ := RowMajor.eq_of_plane_offset_eq hrow hcol hin.1 hin.2 heq
  exact hc

omit [DecidableEq ι] in
/-- **The calls of the loop write disjoint cells.** -/
theorem disjoint_loopSteps (env : CpuEnv) (i : ℕ) :
    WriteOnce.Disjoint (fun s : KernelCall × RowTeam RingAction => CallWrites g s.1)
      (loopSteps env i calls) := by
  have hpairwise : calls.Pairwise fun c d => ∀ b o, CallWrites g c b o → ¬ CallWrites g d b o := by
    refine hplan.pairwise.imp_of_mem fun {c d} hc hd hdisj b o h h' => ?_
    obtain ⟨rfl, row, col, hcov, rfl⟩ := h
    have hin := hplan.fits c hc _ _ _ hcov
    exact hdisj _ _ _ hcov (hplan.covers_of_callWrites hd hin.1 hin.2 h')
  rw [← map_fst_loopSteps env i calls] at hpairwise
  exact List.pairwise_map.1 hpairwise

end CallPlan

/-! ### The result of a plane loop -/

/-- The memory that holds `T plane row col` in every cell of `M`. -/
def planeTarget (M : PlaneOperand ι) (T : ℕ → ℕ → ℕ → Int8) : Planes ι :=
  fun _ o => T (o / M.cols / M.rows) (o / M.cols % M.rows) (o % M.cols)

omit [DecidableEq ι] in
theorem planeTarget_offset (M : PlaneOperand ι) (T : ℕ → ℕ → ℕ → Int8) (b : ι) {p row col : ℕ}
    (hrow : row < M.rows) (hcol : col < M.cols) :
    planeTarget M T b (M.offset p row col) = T p row col := by
  have hrows : 0 < M.rows := by omega
  have hcols : 0 < M.cols := by omega
  have h1 : M.offset p row col / M.cols = p * M.rows + row := by
    rw [PlaneOperand.offset, Nat.mul_comm _ M.cols, Nat.mul_add_div hcols, Nat.div_eq_of_lt hcol,
      Nat.add_zero]
  have h2 : M.offset p row col % M.cols = col := by
    rw [PlaneOperand.offset, Nat.mul_comm _ M.cols, Nat.mul_add_mod, Nat.mod_eq_of_lt hcol]
  simp only [planeTarget, h1, h2]
  rw [Nat.mul_comm p, Nat.mul_add_div hrows, Nat.mul_add_mod, Nat.div_eq_of_lt hrow,
    Nat.mod_eq_of_lt hrow, Nat.add_zero]

/-- What a loop with the calls computes from its operands: zero in the zero-output calls, the
residue of the dot product in the others. -/
def CallTarget (calls : List KernelCall) (mem : Planes ι) (T : ℕ → ℕ → ℕ → Int8) : Prop :=
  ∀ call ∈ calls, ∀ p row col, call.Covers p row col → T p row col =
    if call.zeroOutput then 0 else centeredResidue (cellDot g mem p row col) (g.modulus p)

/-- A call writes its target whenever the operands hold what they held at the start. -/
theorem kernelCall_target {calls : List KernelCall} {mem₀ mem : Planes ι} {T : ℕ → ℕ → ℕ → Int8}
    (hT : CallTarget g calls mem₀ T) (hm : ∀ call ∈ calls, 0 < g.modulus call.plane ∧
      g.modulus call.plane ≤ 256) (hA : g.A.buf ≠ g.C.buf) (hB : g.B.buf ≠ g.C.buf)
    (hA' : mem g.A.buf = mem₀ g.A.buf) (hB' : mem g.B.buf = mem₀ g.B.buf)
    (team : RowTeam RingAction) {call : KernelCall} (hcall : call ∈ calls)
    (hld : call.colExtent ≤ g.C.cols) {row col : ℕ} (hc : call.Covers call.plane row col) :
    kernelCall g team call mem g.C.buf (g.C.offset call.plane row col) = T call.plane row col := by
  obtain ⟨-, hrlo, hrhi, hclo, hchi⟩ := hc
  have hrow : call.rowOffset + (row - call.rowOffset) = row := by omega
  have hcol : call.colOffset + (col - call.colOffset) = col := by omega
  have haddr := cPtr_addr g call (row - call.rowOffset) (col - call.colOffset)
  rw [hrow, hcol] at haddr
  rw [hT _ hcall _ _ _ ⟨rfl, hrlo, hrhi, hclo, hchi⟩, ← haddr]
  change (g.cPtr call).read (kernelCall g team call mem) _ _ = _
  unfold kernelCall
  split
  · exact fillTileModulus_read (C := g.cPtr call) hld 0 mem (by omega) (by omega)
  · have hApt : (g.aPtr call).buf ≠ (g.cPtr call).buf := hA
    have hBpt : (g.bPtr call).buf ≠ (g.cPtr call).buf := hB
    rw [ringGemmModulus_read team hApt hBpt (hm _ hcall).1 (hm _ hcall).2 hld mem (by omega)
      (by omega), planeDot_eq_cellDot, hrow, hcol, cellDot_congr g hA' hB']

omit [DecidableEq ι] in
variable {g} in
/-- The target of a call lies in no operand when its output is neither. -/
theorem operands_of_patch {mem m : Planes ι} {T : ℕ → ℕ → ℕ → Int8} (hA : g.A.buf ≠ g.C.buf)
    (hB : g.B.buf ≠ g.C.buf) (call : KernelCall)
    (h : m g.A.buf = mem g.A.buf ∧ m g.B.buf = mem g.B.buf) :
    WriteOnce.patch m (CallWrites g call) (planeTarget g.C T) g.A.buf = mem g.A.buf ∧
      WriteOnce.patch m (CallWrites g call) (planeTarget g.C T) g.B.buf = mem g.B.buf := by
  rw [← h.1, ← h.2]
  exact ⟨funext fun o => WriteOnce.patch_of_not_mem fun hw => hA hw.1,
    funext fun o => WriteOnce.patch_of_not_mem fun hw => hB hw.1⟩

namespace CallPlan

variable {g} {calls : List KernelCall} (hplan : CallPlan g.C.rows g.C.cols calls) {env : CpuEnv}
  {i : ℕ} {mem mem' : Planes ι} {T : ℕ → ℕ → ℕ → Int8}

include hplan

omit [DecidableEq ι] in
/-- A call that covers a cell is no wider than the output. -/
theorem colExtent_le {call : KernelCall} (hcall : call ∈ calls) {p row col : ℕ}
    (hc : call.Covers p row col) : call.colExtent ≤ g.C.cols := by
  have hlast : call.Covers p row (call.colOffset + (call.colExtent - 1)) := by
    obtain ⟨h1, h2, h3, h4, h5⟩ := hc
    exact ⟨h1, h2, h3, by omega, by omega⟩
  have := (hplan.fits _ hcall _ _ _ hlast).2
  omega

omit [DecidableEq ι] in
/-- A memory has the target in the cells a call writes, cell by cell. -/
theorem target_iff {call : KernelCall} (hcall : call ∈ calls) {mem : Planes ι} :
    (∀ b o, CallWrites g call b o → mem b o = planeTarget g.C T b o) ↔
      ∀ row col, call.Covers call.plane row col →
        mem g.C.buf (g.C.offset call.plane row col) = T call.plane row col := by
  constructor
  · intro h row col hc
    have hin := hplan.fits _ hcall _ _ _ hc
    rw [h _ _ ⟨rfl, row, col, hc, rfl⟩, planeTarget_offset g.C T g.C.buf hin.1 hin.2]
  · rintro h b o ⟨rfl, row, col, hc, rfl⟩
    have hin := hplan.fits _ hcall _ _ _ hc
    rw [planeTarget_offset g.C T g.C.buf hin.1 hin.2]
    exact h row col hc

/-- **When a successful loop ends with `T`.** It does in every covered cell exactly when every call
stores `T` after the calls before it have, whatever its operands are. -/
theorem run_iff (h : kernelLoop g env i calls mem = (.success, mem')) :
    (∀ call ∈ calls, ∀ p row col, call.Covers p row col →
        mem' g.C.buf (g.C.offset p row col) = T p row col) ↔
      WriteOnce.Replays (loopStep g) (fun s => CallWrites g s.1) (planeTarget g.C T) mem
        (loopSteps env i calls) := by
  have hframe : ∀ (s : KernelCall × RowTeam RingAction) (mem : Planes ι) b o,
      ¬ CallWrites g s.1 b o → loopStep g s mem b o = mem b o :=
    fun s => kernelCall_frame g s.2 s.1
  rw [← WriteOnce.run_eq_target_iff hframe (hplan.disjoint_loopSteps env i), ← kernelLoop_success g h]
  constructor
  · intro hall s hs
    have hcall := mem_of_mem_loopSteps hs
    exact (hplan.target_iff hcall).2 fun row col hc => hall _ hcall _ row col hc
  · intro hall call hcall p row col hc
    obtain ⟨s, hs, rfl⟩ : ∃ s ∈ loopSteps env i calls, s.1 = call := by
      rw [← map_fst_loopSteps env i calls] at hcall
      exact List.mem_map.1 hcall
    obtain rfl : s.1.plane = p := hc.1
    exact (hplan.target_iff hcall).1 (hall s hs) row col hc

/-- **The loop computes the product** when its output is neither operand. -/
theorem run_read (h : kernelLoop g env i calls mem = (.success, mem'))
    (hT : CallTarget g calls mem T) (hm : ∀ call ∈ calls,
      0 < g.modulus call.plane ∧ g.modulus call.plane ≤ 256) (hA : g.A.buf ≠ g.C.buf)
    (hB : g.B.buf ≠ g.C.buf) {call : KernelCall} (hcall : call ∈ calls) {p row col : ℕ}
    (hc : call.Covers p row col) : mem' g.C.buf (g.C.offset p row col) = T p row col := by
  refine (hplan.run_iff h).2 (WriteOnce.AtStages.of_invariant
    (I := fun m => m g.A.buf = mem g.A.buf ∧ m g.B.buf = mem g.B.buf)
    (fun s _ m hm => operands_of_patch hA hB s.1 hm) ?_ ⟨rfl, rfl⟩) call hcall p row col hc
  · rintro s hs m ⟨h1, h2⟩
    have hmem := mem_of_mem_loopSteps hs
    exact (hplan.target_iff hmem).2 fun row col hc =>
      kernelCall_target g hT hm hA hB h1 h2 s.2 hmem (hplan.colExtent_le hmem hc) hc

end CallPlan

/-! ### The entry points of the CPU backend -/

/-- The bytes of the residue storage of every live matrix. -/
def Store.planes (s : Store) : Planes Handle := fun h => match s h with
  | some matrix => matrix.residues.cell
  | none => fun _ => 0

/-- A matrix as an operand of the plane loop. -/
def RnsMatrix.operand (matrix : RnsMatrix) (h : Handle) : PlaneOperand Handle :=
  ⟨h, matrix.desc.rows, matrix.desc.cols⟩

/-- `cpu_rns_storage_prefix_for_plan`. -/
def cpuRnsStoragePrefixForPlan (plan : Plan) : ℕ :=
  if plan.tileSchedule ≠ [] ∧ 0 < plan.scheduleMaxSelectedPrefix then plan.scheduleMaxSelectedPrefix
  else plan.rnsPrefix

/-- The operands have the shapes of the plan. -/
def gemmShapesMatch (plan : Plan) (A B C : RnsMatrix) : Bool :=
  decide (A.desc.rows = plan.desc.m) && decide (A.desc.cols = plan.desc.k) &&
    decide (B.desc.rows = plan.desc.k) && decide (B.desc.cols = plan.desc.n) &&
    decide (C.desc.rows = plan.desc.m) && decide (C.desc.cols = plan.desc.n)

/-- The plane loop of a plan over three matrices. -/
def gemmArgs (plan : Plan) (a b c : Handle) (A B C : RnsMatrix) (modulus : ℕ → ℕ) :
    GemmArgs Handle :=
  ⟨A.operand a, B.operand b, C.operand c, plan.desc.k, modulus⟩

/-- `cpu_gemm_rns`. -/
def cpuGemmRns (env : CpuEnv) (plan : Plan) (a b c : Handle) (A B C : RnsMatrix)
    (mem : Planes Handle) : Status × Planes Handle :=
  if !gemmShapesMatch plan A B C then (.invalidArgument, mem)
  else
    let storagePrefix := cpuRnsStoragePrefixForPlan plan
    if A.rnsPrefix < storagePrefix ∨ B.rnsPrefix < storagePrefix ∨ C.rnsPrefix < storagePrefix then
      (.invalidArgument, mem)
    else kernelLoop (gemmArgs plan a b c A B C modulusAt) env 0 (cpuGemmCalls plan) mem

/-- `cpu_gemm_finite_u8`. -/
def cpuGemmFiniteU8 (env : CpuEnv) (plan : Plan) (modulus : ℕ) (a b c : Handle)
    (A B C : RnsMatrix) (mem : Planes Handle) : Status × Planes Handle :=
  if !gemmShapesMatch plan A B C || decide (A.residues.size ≠ A.desc.cells) ||
      decide (B.residues.size ≠ B.desc.cells) || decide (C.residues.size ≠ C.desc.cells) then
    (.invalidArgument, mem)
  else kernelLoop (gemmArgs plan a b c A B C fun _ => modulus) env 0 (finiteGemmCalls plan) mem

theorem gemmShapesMatch_spec {plan : Plan} {A B C : RnsMatrix}
    (h : gemmShapesMatch plan A B C = true) :
    (A.desc.rows = plan.desc.m ∧ A.desc.cols = plan.desc.k) ∧
      (B.desc.rows = plan.desc.k ∧ B.desc.cols = plan.desc.n) ∧
      C.desc.rows = plan.desc.m ∧ C.desc.cols = plan.desc.n := by
  simp only [gemmShapesMatch, Bool.and_eq_true, decide_eq_true_eq] at h
  tauto

/-- `cpu_gemm_rns` is either a rejection or its plane loop. -/
theorem cpuGemmRns_cases (env : CpuEnv) (plan : Plan) (a b c : Handle) (A B C : RnsMatrix)
    (mem : Planes Handle) :
    cpuGemmRns env plan a b c A B C mem = (.invalidArgument, mem) ∨
      gemmShapesMatch plan A B C = true ∧ cpuGemmRns env plan a b c A B C mem =
        kernelLoop (gemmArgs plan a b c A B C modulusAt) env 0 (cpuGemmCalls plan) mem := by
  unfold cpuGemmRns
  split
  · exact Or.inl rfl
  · next hshape =>
    simp only
    split
    · exact Or.inl rfl
    · exact Or.inr ⟨by simpa using hshape, rfl⟩

/-- Whether `cpu_gemm_rns` reaches its plane loop does not depend on what happens in it. -/
theorem cpuGemmRns_of_success {env : CpuEnv} {plan : Plan} {a b c : Handle} {A B C : RnsMatrix}
    {mem : Planes Handle} (h : (cpuGemmRns env plan a b c A B C mem).1 = .success) :
    gemmShapesMatch plan A B C = true ∧ ∀ cpu : CpuEnv, cpuGemmRns cpu plan a b c A B C mem =
      kernelLoop (gemmArgs plan a b c A B C modulusAt) cpu 0 (cpuGemmCalls plan) mem := by
  unfold cpuGemmRns at h ⊢
  split at h
  · cases h
  next hshape =>
  simp only at h
  split at h
  · cases h
  next hprefix =>
  refine ⟨by simpa using hshape, fun cpu => ?_⟩
  rw [if_neg hshape]
  exact if_neg hprefix

/-- `cpu_gemm_finite_u8` is either a rejection or its plane loop. -/
theorem cpuGemmFiniteU8_cases (env : CpuEnv) (plan : Plan) (modulus : ℕ) (a b c : Handle)
    (A B C : RnsMatrix) (mem : Planes Handle) :
    cpuGemmFiniteU8 env plan modulus a b c A B C mem = (.invalidArgument, mem) ∨
      gemmShapesMatch plan A B C = true ∧ cpuGemmFiniteU8 env plan modulus a b c A B C mem =
        kernelLoop (gemmArgs plan a b c A B C fun _ => modulus) env 0 (finiteGemmCalls plan) mem := by
  unfold cpuGemmFiniteU8
  split
  · exact Or.inl rfl
  · next h =>
    simp only [Bool.or_eq_true, not_or, Bool.not_eq_true', Bool.not_eq_false] at h
    exact Or.inr ⟨h.1.1.1, rfl⟩

/-- Whether `cpu_gemm_finite_u8` reaches its plane loop does not depend on what happens in it. -/
theorem cpuGemmFiniteU8_of_success {env : CpuEnv} {plan : Plan} {modulus : ℕ} {a b c : Handle}
    {A B C : RnsMatrix} {mem : Planes Handle}
    (h : (cpuGemmFiniteU8 env plan modulus a b c A B C mem).1 = .success) :
    gemmShapesMatch plan A B C = true ∧ ∀ cpu : CpuEnv,
      cpuGemmFiniteU8 cpu plan modulus a b c A B C mem =
        kernelLoop (gemmArgs plan a b c A B C fun _ => modulus) cpu 0 (finiteGemmCalls plan) mem := by
  unfold cpuGemmFiniteU8 at h ⊢
  split at h
  · cases h
  · next hrej =>
    have hshape := hrej
    simp only [Bool.or_eq_true, not_or, Bool.not_eq_true', Bool.not_eq_false] at hshape
    exact ⟨hshape.1.1.1, fun cpu => if_neg hrej⟩

end Rns8
