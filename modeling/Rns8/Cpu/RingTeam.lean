import Rns8.Cpu.RingMachine

/-!
# The modular GEMM over shared buffers

`ring_gemm_modulus` run by a team, on buffers that all workers share: an action reads the operands as
they are at that moment, so that operands which are also the output are read with whatever the call
has stored in them. On an output buffer of its own the accumulator machine is what remains of this
one (`ringStep_view`), and each output cell becomes the centered residue of the dot product of the
operands' cells (`ringGemmModulus_read`). In any case the call writes cells of the output only
(`ringGemmModulus_frame`).
-/

namespace Rns8

open Finset CenteredResidue LabelledRun

variable {ι : Type} [DecidableEq ι]

/-- The residue buffers and the accumulator of every worker. -/
structure TeamState (ι : Type) where
  mem : Planes ι
  acc : ℕ → ℕ → Int32

/-- One action of a worker. -/
def ringStep (A B C : PlanePtr ι) (n modulus : ℕ) (s : TeamState ι) : ℕ × RingAction → TeamState ι
  | (_, .clearRow row) => { s with mem := storeRow C row n (fun _ => 0) s.mem }
  | (w, .clearAcc) => { s with acc := Function.update s.acc w fun _ => 0 }
  | (w, .accumulate row kk col) =>
    { s with
      acc := Function.update s.acc w (Function.update (s.acc w) col
        (s.acc w col + (A.read s.mem row kk).toInt32 * (B.read s.mem kk col).toInt32)) }
  | (w, .reduce row col) =>
    { s with
      mem := C.store row col (reduceToCentered
        ((C.read s.mem row col).toInt + (s.acc w col).toInt) modulus) s.mem }

/-- `ring_gemm_modulus`; `ring_gemm_modulus_serial` is the `serialTeam`. The accumulators start out
as vectors of zeros. -/
def ringGemmModulus (team : RowTeam RingAction) (A B C : PlanePtr ι) (m n k modulus : ℕ)
    (mem : Planes ι) : Planes ι :=
  (exec (ringStep A B C n modulus) ⟨mem, fun _ _ => 0⟩ (team.events m (ringRowActions n k))).mem

/-! ### What a call writes -/

/-- A step writes the output buffer only. -/
theorem ringStep_of_ne (A B C : PlanePtr ι) (n modulus : ℕ) (s : TeamState ι) (e : ℕ × RingAction)
    {b : ι} (hb : b ≠ C.buf) : (ringStep A B C n modulus s e).mem b = s.mem b := by
  obtain ⟨w, a⟩ := e
  cases a with
  | clearRow row => exact storeRow_of_ne C row n (fun _ => 0) s.mem hb
  | clearAcc => rfl
  | accumulate row kk col => rfl
  | reduce row col =>
    funext o
    exact if_neg fun h => hb h.1

/-- The call on three residue buffers, with the operands as they are at the start. -/
def RingCall.onPlanes (A B C : PlanePtr ι) (m n k modulus : ℕ) (mem : Planes ι) : RingCall where
  A := fun o => mem A.buf (A.base + o)
  B := fun o => mem B.buf (B.base + o)
  m := m
  n := n
  k := k
  lda := A.ld
  ldb := B.ld
  ldc := C.ld
  modulus := modulus

omit [DecidableEq ι] in
theorem RowTeam.ringInterleaves (team : RowTeam RingAction) (A B C : PlanePtr ι)
    (m n k modulus : ℕ) (mem : Planes ι) :
    (RingCall.onPlanes A B C m n k modulus mem).Interleaves (team.split m)
      (team.events m (ringRowActions n k)) :=
  team.interleaves m (ringRowActions n k)

/-- A call changes no buffer but the output's. -/
theorem ringGemmModulus_of_ne (team : RowTeam RingAction) (A B C : PlanePtr ι) (m n k modulus : ℕ)
    (mem : Planes ι) {b : ι} (hb : b ≠ C.buf) :
    ringGemmModulus team A B C m n k modulus mem b = mem b :=
  LoopFold.foldl_read_of_frame (fun s : TeamState ι => s.mem b)
    (fun s e _ => ringStep_of_ne A B C n modulus s e hb) _

/-- A cell of the output buffer outside every row of the call keeps its value. -/
theorem ringGemmModulus_frame (team : RowTeam RingAction) (A B C : PlanePtr ι) (m n k modulus : ℕ)
    (mem : Planes ι) {o : ℕ} (ho : ∀ row < m, ¬ (C.addr row 0 ≤ o ∧ o < C.addr row 0 + n)) :
    ringGemmModulus team A B C m n k modulus mem C.buf o = mem C.buf o := by
  have hallowed := (team.ringInterleaves A B C m n k modulus mem).allowed
  refine LoopFold.foldl_read_of_frame (fun s : TeamState ι => s.mem C.buf o) (fun s e he => ?_) _
  have hrow := hallowed e he
  obtain ⟨w, a⟩ := e
  cases a with
  | clearRow row =>
    exact storeRow_of_not_mem C row n (fun _ => 0) s.mem (ho row ((team.split m).lt w row hrow))
  | clearAcc => rfl
  | accumulate row kk col => rfl
  | reduce row col =>
    refine if_neg fun h => ho row ((team.split m).lt w row hrow.1) ?_
    have hcol : col < n := hrow.2
    have haddr : o = C.addr row 0 + col := h.2
    omega

/-! ### An output of its own -/

/-- What the accumulator machine sees of the shared buffers. -/
def TeamState.view (C : PlanePtr ι) (s : TeamState ι) : RingState ℕ :=
  ⟨fun o => s.mem C.buf (C.base + o), s.acc⟩

/-- **The accumulator machine is what remains** of the shared one when the operands are in other
buffers than the output. -/
theorem ringStep_view {A B C : PlanePtr ι} {m n k modulus : ℕ} {mem : Planes ι} {s : TeamState ι}
    (hA : s.mem A.buf = mem A.buf) (hB : s.mem B.buf = mem B.buf) (e : ℕ × RingAction) :
    (ringStep A B C n modulus s e).view C =
      (RingCall.onPlanes A B C m n k modulus mem).step (s.view C) e := by
  obtain ⟨w, a⟩ := e
  cases a with
  | clearRow row =>
    have hmem : ∀ o, (storeRow C row n (fun _ => 0) s.mem) C.buf (C.base + o) =
        if row * C.ld ≤ o ∧ o < row * C.ld + n then 0 else s.mem C.buf (C.base + o) := fun o => by
      refine if_congr ?_ rfl rfl
      simp only [PlanePtr.addr, true_and]
      omega
    exact congrArg (fun C => RingState.mk C s.acc) (funext hmem)
  | clearAcc => rfl
  | accumulate row kk col =>
    simp only [ringStep, TeamState.view, RingCall.step, RingCall.onPlanes, PlanePtr.read,
      PlanePtr.addr, hA, hB, Nat.add_assoc]
  | reduce row col =>
    have hmem : ∀ v o, (C.store row col v s.mem) C.buf (C.base + o) =
        Function.update (fun o => s.mem C.buf (C.base + o)) (row * C.ld + col) v o := fun v o => by
      rw [Function.update_apply]
      refine if_congr ?_ rfl rfl
      simp only [PlanePtr.addr, true_and]
      omega
    have hread : C.read s.mem row col = s.mem C.buf (C.base + (row * C.ld + col)) := by
      rw [PlanePtr.read, PlanePtr.addr, Nat.add_assoc]
    simp only [ringStep, hread]
    exact congrArg (fun C => RingState.mk C s.acc) (funext (hmem _))

/-- **A whole run** of the shared machine is a run of the accumulator machine. -/
theorem exec_ringStep_view {A B C : PlanePtr ι} (hA : A.buf ≠ C.buf) (hB : B.buf ≠ C.buf)
    (m n k modulus : ℕ) {mem : Planes ι} (evs : List (ℕ × RingAction)) {s : TeamState ι}
    (hsA : s.mem A.buf = mem A.buf) (hsB : s.mem B.buf = mem B.buf) :
    (exec (ringStep A B C n modulus) s evs).view C =
      exec (RingCall.onPlanes A B C m n k modulus mem).step (s.view C) evs := by
  induction evs generalizing s with
  | nil => rfl
  | cons e evs ih =>
    rw [exec_cons, exec_cons, ← ringStep_view hsA hsB e]
    exact ih ((ringStep_of_ne A B C n modulus s e hA).trans hsA)
      ((ringStep_of_ne A B C n modulus s e hB).trans hsB)

/-- **The kernel is a modular product.** Whatever the team does, every cell of an output of its own
becomes the centered residue of the dot product of the operands' cells. -/
theorem ringGemmModulus_read (team : RowTeam RingAction) {A B C : PlanePtr ι} (hA : A.buf ≠ C.buf)
    (hB : B.buf ≠ C.buf) {m n k modulus : ℕ} (hm : 0 < modulus) (hm' : modulus ≤ 256)
    (hld : n ≤ C.ld) (mem : Planes ι) {row col : ℕ} (hrow : row < m) (hcol : col < n) :
    C.read (ringGemmModulus team A B C m n k modulus mem) row col =
      centeredResidue (planeDot A B row col k mem) modulus := by
  have hstart : (⟨mem, fun _ _ => 0⟩ : TeamState ι).mem = mem := rfl
  have hview := exec_ringStep_view hA hB m n k modulus (team.events m (ringRowActions n k))
    (congrFun hstart A.buf) (congrFun hstart B.buf)
  have hholds := (team.ringInterleaves A B C m n k modulus mem).rowHolds hm hm' hld
    (TeamState.view C ⟨mem, fun _ _ => 0⟩) hrow col hcol
  rw [← hview] at hholds
  simp only [TeamState.view] at hholds
  rw [PlanePtr.read, PlanePtr.addr, Nat.add_assoc]
  refine hholds.trans ?_
  simp only [RingCall.dot, RingCall.term, RingCall.onPlanes, planeDot, PlanePtr.read, PlanePtr.addr,
    Nat.add_assoc]

end Rns8
