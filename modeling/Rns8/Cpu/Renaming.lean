import Rns8.Cpu.GemmRns

/-!
# The names of the buffers

The plane loop reads and writes its buffers through their names only. Renaming them along an
injection commutes with the loop (`kernelLoop_rename`), so that the result of a GEMM depends on what
its operands hold and not on which handle they have (`kernelLoop_of_eq`).
-/

namespace Rns8

variable {ι κ : Type} [DecidableEq ι] [DecidableEq κ]

/-- The memory seen through renamed buffers. -/
def Planes.pull (f : ι → κ) (mem : Planes κ) : Planes ι := fun i => mem (f i)

/-- The state seen through renamed buffers. -/
def TeamState.pull (f : ι → κ) (s : TeamState κ) : TeamState ι := ⟨s.mem.pull f, s.acc⟩

/-- The pointer into the renamed buffer. -/
def PlanePtr.rename (f : ι → κ) (P : PlanePtr ι) : PlanePtr κ := ⟨f P.buf, P.base, P.ld⟩

/-- The operands in the renamed buffers. -/
def GemmArgs.rename (f : ι → κ) (g : GemmArgs ι) : GemmArgs κ where
  A := ⟨f g.A.buf, g.A.rows, g.A.cols⟩
  B := ⟨f g.B.buf, g.B.rows, g.B.cols⟩
  C := ⟨f g.C.buf, g.C.rows, g.C.cols⟩
  k := g.k
  modulus := g.modulus

section Rename

variable {f : ι → κ} (hf : Function.Injective f)
include hf

theorem storeRow_rename (P : PlanePtr ι) (row n : ℕ) (v : ℕ → Int8) (mem : Planes κ) :
    (storeRow (P.rename f) row n v mem).pull f = storeRow P row n v (mem.pull f) := by
  funext i o
  exact if_congr (and_congr_left' hf.eq_iff) rfl rfl

theorem ringStep_rename (A B C : PlanePtr ι) (n modulus : ℕ) (s : TeamState κ) (e : ℕ × RingAction) :
    (ringStep (A.rename f) (B.rename f) (C.rename f) n modulus s e).pull f =
      ringStep A B C n modulus (s.pull f) e := by
  obtain ⟨w, a⟩ := e
  cases a with
  | clearRow row =>
    exact congrArg (fun mem => TeamState.mk mem s.acc) (storeRow_rename hf C row n (fun _ => 0) s.mem)
  | clearAcc => rfl
  | accumulate row kk col => rfl
  | reduce row col =>
    refine congrArg (fun mem => TeamState.mk mem s.acc) (funext fun i => funext fun o => ?_)
    exact if_congr (and_congr_left' hf.eq_iff) rfl rfl

theorem ringGemmModulus_rename (team : RowTeam RingAction) (A B C : PlanePtr ι) (m n k modulus : ℕ)
    (mem : Planes κ) :
    (ringGemmModulus team (A.rename f) (B.rename f) (C.rename f) m n k modulus mem).pull f =
      ringGemmModulus team A B C m n k modulus (mem.pull f) := by
  have hexec : ∀ (evs : List (ℕ × RingAction)) (s : TeamState κ),
      (LabelledRun.exec (ringStep (A.rename f) (B.rename f) (C.rename f) n modulus) s evs).pull f =
        LabelledRun.exec (ringStep A B C n modulus) (s.pull f) evs := by
    intro evs
    induction evs with
    | nil => exact fun s => rfl
    | cons e evs ih =>
      intro s
      rw [LabelledRun.exec_cons, ih, ringStep_rename hf, LabelledRun.exec_cons]
  exact congrArg TeamState.mem (hexec (team.events m (ringRowActions n k)) ⟨mem, fun _ _ => 0⟩)

theorem fillTileModulus_rename (C : PlanePtr ι) (m n : ℕ) (value : Int8) (mem : Planes κ) :
    (fillTileModulus (C.rename f) m n value mem).pull f =
      fillTileModulus C m n value (mem.pull f) := by
  unfold fillTileModulus
  generalize List.range m = rows
  induction rows generalizing mem with
  | nil => rfl
  | cons row rows ih => rw [List.foldl_cons, ih, storeRow_rename hf, List.foldl_cons]

theorem kernelCall_rename (g : GemmArgs ι) (team : RowTeam RingAction) (call : KernelCall)
    (mem : Planes κ) :
    (kernelCall (g.rename f) team call mem).pull f = kernelCall g team call (mem.pull f) := by
  unfold kernelCall
  split
  · exact fillTileModulus_rename hf (g.cPtr call) _ _ _ mem
  · exact ringGemmModulus_rename hf team (g.aPtr call) (g.bPtr call) (g.cPtr call) _ _ _ _ mem

/-- **The plane loop commutes with a renaming of its buffers.** -/
theorem kernelLoop_rename (g : GemmArgs ι) (env : CpuEnv) (i : ℕ) (calls : List KernelCall)
    (mem : Planes κ) :
    (kernelLoop (g.rename f) env i calls mem).1 = (kernelLoop g env i calls (mem.pull f)).1 ∧
      (kernelLoop (g.rename f) env i calls mem).2.pull f =
        (kernelLoop g env i calls (mem.pull f)).2 := by
  induction calls generalizing i mem with
  | nil => exact ⟨rfl, rfl⟩
  | cons call calls ih =>
    simp only [kernelLoop]
    split
    · exact ⟨rfl, rfl⟩
    · rw [← kernelCall_rename hf]
      exact ih (i + 1) _

end Rename

/-! ### The handle of the left operand -/

section Handles

variable (b c : Handle)

/-- The buffers of a GEMM whose left operand is none of the others. -/
abbrev GemmBuffer := Option { h : Handle // h = b ∨ h = c }

variable {b c}

/-- The handles of the buffers when the left operand lives behind `a`. -/
def GemmBuffer.handle (a : Handle) (x : GemmBuffer b c) : Handle := x.elim a Subtype.val

theorem GemmBuffer.handle_injective {a : Handle} (hb : a ≠ b) (hc : a ≠ c) :
    Function.Injective (fun x : GemmBuffer b c => x.handle a) := by
  intro x y hxy
  cases x with
  | none =>
    cases y with
    | none => rfl
    | some y =>
      obtain ⟨h, rfl | rfl⟩ := y
      · exact absurd hxy hb
      · exact absurd hxy hc
  | some x =>
    cases y with
    | none =>
      obtain ⟨h, rfl | rfl⟩ := x
      · exact absurd hxy.symm hb
      · exact absurd hxy.symm hc
    | some y => exact congrArg some (Subtype.ext hxy)

/-- **A GEMM does not depend on the handle of its left operand.** -/
theorem kernelLoop_left_handle {a a' : Handle} (hb : a ≠ b) (hc : a ≠ c) (hb' : a' ≠ b)
    (hc' : a' ≠ c) {mem mem' : Planes Handle} (hA : mem a = mem' a') (hB : mem b = mem' b)
    (hC : mem c = mem' c) (plan : Plan) (A B C : RnsMatrix) (modulus : ℕ → ℕ) (env : CpuEnv) (i : ℕ)
    (calls : List KernelCall) :
    (kernelLoop (gemmArgs plan a b c A B C modulus) env i calls mem).1 =
        (kernelLoop (gemmArgs plan a' b c A B C modulus) env i calls mem').1 ∧
      (kernelLoop (gemmArgs plan a b c A B C modulus) env i calls mem).2 c =
        (kernelLoop (gemmArgs plan a' b c A B C modulus) env i calls mem').2 c := by
  let out : GemmBuffer b c := some ⟨c, Or.inr rfl⟩
  let g : GemmArgs (GemmBuffer b c) :=
    ⟨⟨none, A.desc.rows, A.desc.cols⟩, ⟨some ⟨b, Or.inl rfl⟩, B.desc.rows, B.desc.cols⟩,
      ⟨out, C.desc.rows, C.desc.cols⟩, plan.desc.k, modulus⟩
  have hmem : mem.pull (fun x : GemmBuffer b c => x.handle a) =
      mem'.pull (fun x => x.handle a') := by
    funext x
    obtain _ | ⟨h, rfl | rfl⟩ := x
    · exact hA
    · exact hB
    · exact hC
  obtain ⟨h1, h2⟩ := kernelLoop_rename (GemmBuffer.handle_injective hb hc) g env i calls mem
  obtain ⟨h1', h2'⟩ := kernelLoop_rename (GemmBuffer.handle_injective hb' hc') g env i calls mem'
  rw [← hmem] at h1' h2'
  exact ⟨h1.trans h1'.symm, congrFun (h2.trans h2'.symm) out⟩

end Handles

end Rns8
