import Rns8.Cpu.GemmRns
import Rns8.Cpu.RingRaces

/-!
# Plane loops whose output is an operand

Where an operand is the output matrix, a kernel call overwrites part of it: the columns of its tile in
a row of the left operand, the rows of its tile in the right operand (`GemmArgs.left`,
`GemmArgs.right`). `LoopUndisturbed` asks of every call, with the target in the tiles of the calls
before it, that the overwriting does no harm. Then every run of the loop ends with the target
(`CallPlan.run_undisturbed`), and for an inner dimension of one K block no other operands make every
run end with it (`CallPlan.undisturbed_of_runs`).
-/

namespace Rns8

open Finset CenteredResidue

variable {ι : Type} [DecidableEq ι] (g : GemmArgs ι)

/-- The call overwrites position `kk` of the rows of the left operand. -/
def GemmArgs.left (call : KernelCall) (kk : ℕ) : Bool :=
  decide (g.A.buf = g.C.buf ∧ call.colOffset ≤ kk ∧ kk < call.colOffset + call.colExtent)

/-- The row of its rectangle in which the call overwrites position `kk` of the right operand. -/
def GemmArgs.right (call : KernelCall) (kk : ℕ) : Option ℕ :=
  if g.B.buf = g.C.buf ∧ call.rowOffset ≤ kk ∧ kk < call.rowOffset + call.rowExtent then
    some (kk - call.rowOffset)
  else none

/-- One call does no harm: a zero call finds a target of zeros, the operands of a call that overwrites
one of them are left undisturbed, and the target of any other call is the product. -/
def CallUndisturbed (T : ℕ → ℕ → ℕ → Int8) (mem : Planes ι) (call : KernelCall) : Prop :=
  if call.zeroOutput then ∀ row col, call.Covers call.plane row col → T call.plane row col = 0
  else if g.A.buf = g.C.buf ∨ g.B.buf = g.C.buf then
    RingUndisturbed (g.aPtr call) (g.bPtr call) (g.cPtr call) (· < call.rowExtent) call.colExtent
      g.k (g.modulus call.plane) (g.left call) (g.right call) mem
      fun row col => T call.plane (call.rowOffset + row) (call.colOffset + col)
  else ∀ row col, call.Covers call.plane row col → T call.plane row col =
    centeredResidue (cellDot g mem call.plane row col) (g.modulus call.plane)

/-- No call of the loop does harm when the calls before it have left the target. -/
def LoopUndisturbed (calls : List KernelCall) (T : ℕ → ℕ → ℕ → Int8) (mem : Planes ι) : Prop :=
  WriteOnce.AtStages (CallWrites g) (planeTarget g.C T) (CallUndisturbed g T) mem calls

/-- The operands have the inner dimension of the loop, and operands in one buffer are one matrix. -/
structure GemmArgs.Shaped : Prop where
  left : g.k ≤ g.A.cols
  right : g.k ≤ g.B.rows
  left_eq : g.A.buf = g.C.buf → g.A.rows = g.C.rows ∧ g.A.cols = g.C.cols
  right_eq : g.B.buf = g.C.buf → g.B.rows = g.C.rows ∧ g.B.cols = g.C.cols

/-! ### Where the operands of a call lie in its output -/

omit [DecidableEq ι] in
theorem aPtr_addr (call : KernelCall) (row kk : ℕ) : (g.aPtr call).addr row kk =
    g.A.offset call.plane (call.rowOffset + row) kk := by
  simp only [GemmArgs.aPtr, PlaneOperand.ptr, PlanePtr.addr, PlaneOperand.offset]
  ring

omit [DecidableEq ι] in
theorem bPtr_addr (call : KernelCall) (kk col : ℕ) : (g.bPtr call).addr kk col =
    g.B.offset call.plane kk (call.colOffset + col) := by
  simp only [GemmArgs.bPtr, PlaneOperand.ptr, PlanePtr.addr, PlaneOperand.offset]
  ring

variable {g}

omit [DecidableEq ι] in
/-- An offset in a row of a call's rectangle is a cell of that row. -/
theorem exists_col_of_inRow {call : KernelCall} {r o : ℕ} {b : ι}
    (h : (g.cPtr call).InRow call.colExtent r b o) :
    b = g.C.buf ∧ ∃ col < call.colExtent,
      o = g.C.offset call.plane (call.rowOffset + r) (call.colOffset + col) := by
  obtain ⟨hbuf, hlo, hhi⟩ := h
  refine ⟨hbuf, o - (g.cPtr call).addr r 0, by omega, ?_⟩
  rw [← cPtr_addr]
  simp only [PlanePtr.addr] at hlo hhi ⊢
  omega

namespace CallPlan

variable {calls : List KernelCall} (hplan : CallPlan g.C.rows g.C.cols calls)

include hplan

omit [DecidableEq ι] in
/-- A cell of a call's rectangle. -/
theorem inside {call : KernelCall} (hcall : call ∈ calls) {row col : ℕ} (hrow : row < call.rowExtent)
    (hcol : col < call.colExtent) :
    call.rowOffset + row < g.C.rows ∧ call.colOffset + col < g.C.cols :=
  hplan.fits call hcall call.plane _ _ ⟨rfl, by omega, by omega, by omega, by omega⟩

/-- **Where a call meets its operands.** -/
theorem ringOverlap (hshape : g.Shaped) {call : KernelCall} (hcall : call ∈ calls) :
    RingOverlap (g.aPtr call) (g.bPtr call) (g.cPtr call) (· < call.rowExtent) call.colExtent g.k
      (g.left call) (g.right call) where
  ld row hrow := by
    rcases Nat.eq_zero_or_pos call.colExtent with h | h
    · omega
    · have hlast : call.colExtent - 1 < call.colExtent := by omega
      have : call.colOffset + (call.colExtent - 1) < g.C.cols := (hplan.inside hcall hrow hlast).2
      change call.colExtent ≤ g.C.cols
      omega
  left_cell := by
    intro kk h
    -- position `kk` of the left operand is a column of the rectangle
    obtain ⟨hbuf, hlo, hhi⟩ := of_decide_eq_true h
    refine ⟨hbuf, kk - call.colOffset, by omega, fun row => ?_⟩
    obtain ⟨hrows, hcols⟩ := hshape.left_eq hbuf
    rw [aPtr_addr, cPtr_addr, Nat.add_sub_cancel' hlo, PlaneOperand.offset, PlaneOperand.offset,
      hrows, hcols]
  left_out := by
    intro kk hkk h row hrow r hr hin
    obtain ⟨hbuf, col, hcol, heq⟩ := exists_col_of_inRow hin
    obtain ⟨hrows, hcols⟩ := hshape.left_eq hbuf
    obtain ⟨hr', hc'⟩ := hplan.inside hcall hr hcol
    obtain ⟨hr'', -⟩ := hplan.inside hcall hrow hcol
    have hk := hshape.left
    rw [aPtr_addr, PlaneOperand.offset, PlaneOperand.offset, hrows, hcols] at heq
    -- equal offsets are equal cells, as the two operands are one matrix
    obtain ⟨-, -, hkk'⟩ := RowMajor.eq_of_plane_offset_eq hr'' (by omega) hr' hc' heq
    exact of_decide_eq_false h ⟨hbuf, by omega, by omega⟩
  right_cell := by
    intro kk r h
    unfold GemmArgs.right at h
    split at h
    swap
    · cases h
    next hin =>
    obtain ⟨hbuf, hlo, hhi⟩ := hin
    -- position `kk` of the right operand is a row of the rectangle
    obtain rfl : kk - call.rowOffset = r := Option.some.inj h
    obtain ⟨hrows, hcols⟩ := hshape.right_eq hbuf
    refine ⟨by omega, hbuf, fun col _ => ?_⟩
    rw [bPtr_addr, cPtr_addr, Nat.add_sub_cancel' hlo, PlaneOperand.offset, PlaneOperand.offset,
      hrows, hcols]
  right_out := by
    intro kk hkk h col hcol r hr hin
    obtain ⟨hbuf, col', hcol', heq⟩ := exists_col_of_inRow hin
    obtain ⟨hrows, hcols⟩ := hshape.right_eq hbuf
    obtain ⟨hr', hc'⟩ := hplan.inside hcall hr hcol'
    obtain ⟨-, hc''⟩ := hplan.inside hcall hr hcol
    have hk := hshape.right
    rw [bPtr_addr, PlaneOperand.offset, PlaneOperand.offset, hrows, hcols] at heq
    obtain ⟨-, hkk', -⟩ := RowMajor.eq_of_plane_offset_eq (by omega) hc'' hr' hc' heq
    unfold GemmArgs.right at h
    rw [if_pos ⟨hbuf, by omega, by omega⟩] at h
    cases h
  right_inj := by
    intro kk kk' r h h'
    unfold GemmArgs.right at h h'
    split at h
    · split at h'
      · have := (Option.some.inj h).trans (Option.some.inj h').symm
        omega
      · cases h'
    · cases h

/-! ### One call -/

variable {T : ℕ → ℕ → ℕ → Int8} {mem : Planes ι}

omit [DecidableEq ι] in
/-- The cells of a call are the cells of its rectangle. -/
theorem ringTarget_iff {call : KernelCall} (hcall : call ∈ calls) :
    (∀ b o, CallWrites g call b o → mem b o = planeTarget g.C T b o) ↔
      ∀ row < call.rowExtent, ∀ col < call.colExtent, (g.cPtr call).read mem row col =
        T call.plane (call.rowOffset + row) (call.colOffset + col) := by
  rw [hplan.target_iff hcall]
  constructor
  · intro h row hrow col hcol
    rw [← h _ _ ⟨rfl, by omega, by omega, by omega, by omega⟩, PlanePtr.read, cPtr_addr]
    rfl
  · rintro h row col ⟨-, hrlo, hrhi, hclo, hchi⟩
    have hcell := h (row - call.rowOffset) (by omega) (col - call.colOffset) (by omega)
    rw [PlanePtr.read, cPtr_addr, Nat.add_sub_cancel' hrlo, Nat.add_sub_cancel' hclo] at hcell
    exact hcell

/-- A call whose overwriting does no harm stores the target, whatever its team does. -/
theorem kernelCall_undisturbed (hshape : g.Shaped) {call : KernelCall} (hcall : call ∈ calls)
    (hm : 0 < g.modulus call.plane) (hm' : g.modulus call.plane ≤ 256)
    (h : CallUndisturbed g T mem call) (team : RowTeam RingAction) :
    ∀ b o, CallWrites g call b o → kernelCall g team call mem b o = planeTarget g.C T b o := by
  have hover := hplan.ringOverlap hshape hcall
  rw [hplan.ringTarget_iff hcall]
  intro row hrow col hcol
  unfold CallUndisturbed at h
  unfold kernelCall
  split
  · next hzero =>
    rw [if_pos hzero] at h
    rw [fillTileModulus_read (hover.ld row hrow) 0 mem hrow hcol,
      h _ _ ⟨rfl, by omega, by omega, by omega, by omega⟩]
  · next hzero =>
    rw [if_neg hzero] at h
    split at h
    · obtain ⟨w, hw⟩ := (team.split call.rowExtent).covers row hrow
      exact ringRun_undisturbed (team.split call.rowExtent).rows hover h (team.split call.rowExtent).unique
        (team.split call.rowExtent).lt hm hm' (team.interleaves _ _) _ hw hcol
    · next hbuf =>
      obtain ⟨hA, hB⟩ := not_or.1 hbuf
      rw [h _ _ ⟨rfl, by omega, by omega, by omega, by omega⟩,
        ringGemmModulus_read (A := g.aPtr call) (B := g.bPtr call) (C := g.cPtr call) team hA hB hm
          hm' (hover.ld row hrow) mem hrow hcol, planeDot_eq_cellDot]

/-- A call that stores the target whatever its team does has done no harm. -/
theorem undisturbed_of_kernelCall (hshape : g.Shaped)
    (hk : g.A.buf = g.C.buf ∨ g.B.buf = g.C.buf → g.k ≤ safeInt32KBlock) {call : KernelCall}
    (hcall : call ∈ calls) (hm : 0 < g.modulus call.plane) (hm' : g.modulus call.plane ≤ 256)
    (h : ∀ team : RowTeam RingAction, ∀ b o, CallWrites g call b o →
      kernelCall g team call mem b o = planeTarget g.C T b o) :
    CallUndisturbed g T mem call := by
  have hover := hplan.ringOverlap hshape hcall
  simp only [hplan.ringTarget_iff hcall] at h
  unfold CallUndisturbed
  split
  -- a zero call leaves zeros, so its target is zero
  · next hzero =>
    rintro row col ⟨-, hrlo, hrhi, hclo, hchi⟩
    have hcell := h serialTeam (row - call.rowOffset) (by omega) (col - call.colOffset) (by omega)
    rw [Nat.add_sub_cancel' hrlo, Nat.add_sub_cancel' hclo, kernelCall, if_pos hzero,
      fillTileModulus_read (hover.ld (row - call.rowOffset) (by omega)) 0 mem (by omega)
        (by omega)] at hcell
    exact hcell.symm
  · next hzero =>
    split
    · next hbuf =>
      -- an operand in the output: the orders in which rows run first say all
      refine undisturbed_of_all_teams hover (hk hbuf) hm hm' fun team row hrow col hcol => ?_
      rw [← h team row hrow col hcol, kernelCall, if_neg hzero]
    · next hbuf =>
      -- separate operands: one order is enough
      obtain ⟨hA, hB⟩ := not_or.1 hbuf
      rintro row col ⟨-, hrlo, hrhi, hclo, hchi⟩
      have hcell := h serialTeam (row - call.rowOffset) (by omega) (col - call.colOffset) (by omega)
      rw [kernelCall, if_neg hzero, ringGemmModulus_read (A := g.aPtr call) (B := g.bPtr call)
        (C := g.cPtr call) serialTeam hA hB hm hm' (hover.ld (row - call.rowOffset) (by omega)) mem
        (by omega) (by omega), planeDot_eq_cellDot, Nat.add_sub_cancel' hrlo,
        Nat.add_sub_cancel' hclo] at hcell
      exact hcell.symm

/-! ### The loop -/

variable (hm : ∀ call ∈ calls, 0 < g.modulus call.plane ∧ g.modulus call.plane ≤ 256)

include hm

/-- **Enough.** When no call does harm, every run of the loop ends with the target. -/
theorem run_undisturbed (hshape : g.Shaped) (h : LoopUndisturbed g calls T mem) {env : CpuEnv}
    {i : ℕ} {mem' : Planes ι} (hrun : kernelLoop g env i calls mem = (.success, mem')) :
    ∀ call ∈ calls, ∀ p row col, call.Covers p row col →
      mem' g.C.buf (g.C.offset p row col) = T p row col := by
  rw [hplan.run_iff hrun]
  have hcalls : WriteOnce.AtStages (CallWrites g) (planeTarget g.C T)
      (fun mem call => ∀ team, ∀ b o, CallWrites g call b o →
        kernelCall g team call mem b o = planeTarget g.C T b o) mem calls :=
    h.imp fun mem call hcall hun => hplan.kernelCall_undisturbed hshape hcall (hm call hcall).1
      (hm call hcall).2 hun
  clear h hrun hm hplan
  induction calls generalizing i mem with
  | nil => trivial
  | cons call calls ih => exact ⟨hcalls.1 (env.team i), ih hcalls.2⟩

/-- **And no less.** When every team makes the loop end with the target, no call does harm. -/
theorem undisturbed_of_runs (hshape : g.Shaped)
    (hk : g.A.buf = g.C.buf ∨ g.B.buf = g.C.buf → g.k ≤ safeInt32KBlock) (env : CpuEnv) (i : ℕ)
    (hrun : ∀ team, ∃ mem', kernelLoop g { env with team := fun _ => team } i calls mem =
      (.success, mem') ∧ ∀ call ∈ calls, ∀ p row col, call.Covers p row col →
        mem' g.C.buf (g.C.offset p row col) = T p row col) : LoopUndisturbed g calls T mem := by
  have hcalls : WriteOnce.AtStages (CallWrites g) (planeTarget g.C T)
      (fun mem call => ∀ team, ∀ b o, CallWrites g call b o →
        kernelCall g team call mem b o = planeTarget g.C T b o) mem calls := by
    refine WriteOnce.AtStages.forall fun team => ?_
    obtain ⟨mem', hloop, htarget⟩ := hrun team
    have hreplays := (hplan.run_iff hloop).1 htarget
    clear hrun hloop htarget hm hplan
    induction calls generalizing i mem with
    | nil => trivial
    | cons call calls ih => exact ⟨hreplays.1, ih (i + 1) hreplays.2⟩
  exact hcalls.imp fun mem call hcall hun =>
    hplan.undisturbed_of_kernelCall hshape hk hcall (hm call hcall).1 (hm call hcall).2 hun

/-- **When every run of the loop ends with the target.** -/
theorem all_runs_iff (hshape : g.Shaped)
    (hk : g.A.buf = g.C.buf ∨ g.B.buf = g.C.buf → g.k ≤ safeInt32KBlock) :
    (∀ cpu mem', kernelLoop g cpu 0 calls mem = (.success, mem') → ∀ call ∈ calls, ∀ p row col,
        call.Covers p row col → mem' g.C.buf (g.C.offset p row col) = T p row col) ↔
      LoopUndisturbed g calls T mem := by
  refine ⟨fun h => ?_, fun h cpu mem' hrun => hplan.run_undisturbed hm hshape h hrun⟩
  refine hplan.undisturbed_of_runs hm hshape hk .serial 0 fun team => ?_
  have hst : (kernelLoop g ⟨fun _ => true, fun _ => team, serialTeam⟩ 0 calls mem).1 = .success :=
    kernelLoop_of_allocOk g 0 calls (fun _ _ => rfl) mem
  exact ⟨_, Prod.ext hst rfl, h _ _ (Prod.ext hst rfl)⟩

end CallPlan

/-- An output that is neither operand leaves both undisturbed, when the target of the loop is what its
calls compute. -/
theorem loopUndisturbed_of_separate {calls : List KernelCall} {T : ℕ → ℕ → ℕ → Int8} {mem : Planes ι}
    (hA : g.A.buf ≠ g.C.buf) (hB : g.B.buf ≠ g.C.buf) (hT : CallTarget g calls mem T) :
    LoopUndisturbed g calls T mem := by
  refine WriteOnce.AtStages.of_invariant
    (I := fun m => m g.A.buf = mem g.A.buf ∧ m g.B.buf = mem g.B.buf)
    (fun call _ m hm => operands_of_patch hA hB call hm) (fun call hcall m hm => ?_) ⟨rfl, rfl⟩
  unfold CallUndisturbed
  split
  · next hzero => exact fun row col hc => (hT call hcall _ row col hc).trans (if_pos hzero)
  · next hzero =>
    rw [if_neg (not_or.2 ⟨hA, hB⟩)]
    intro row col hc
    rw [cellDot_congr g hm.1 hm.2]
    exact (hT call hcall _ row col hc).trans (if_neg hzero)

end Rns8
