import Rns8.Cpu.RingMachine

/-!
# The blocked residue GEMM is exact

The claims of `RingMachine` for one call put together: the accumulators, the written cells, the cells
that are left alone.
-/

namespace Rns8

open Finset LabelledRun

/-- **The blocked residue GEMM is exact.** In every run of a call, whatever the output and the
accumulators hold, however the rows are split and interleaved: no accumulator leaves `int32_t`, every
output cell ends as the centered residue of its full dot product, and no other byte is written. -/
theorem ringGemm_exact {W : Type} [DecidableEq W] (g : RingCall) (hm : 0 < g.modulus)
    (hm' : g.modulus ≤ 256) (hld : g.n ≤ g.ldc) (split : WorkSplit W g.m)
    (evs : List (W × RingAction)) (h : g.Interleaves split evs) (s : RingState W) :
    Meets g.step g.AccFits s evs ∧
      (∀ row < g.m, ∀ col < g.n, (exec g.step s evs).C (row * g.ldc + col) =
        centeredResidue (∑ kk ∈ range g.k, (g.A (row * g.lda + kk)).toInt *
          (g.B (kk * g.ldb + col)).toInt) g.modulus) ∧
      ∀ o, (∀ row < g.m, ∀ col < g.n, o ≠ row * g.ldc + col) → (exec g.step s evs).C o = s.C o :=
  ⟨h.accFits hm hm' hld s, fun _ hrow => h.rowHolds hm hm' hld s hrow, fun _ ho => h.frame s ho⟩

/-- Two rows of `-128 * -128` modulo 255, in the stride 3. -/
def extremeCall : RingCall where
  A := fun _ => -128
  B := fun _ => -128
  m := 2
  n := 2
  k := 1
  lda := 1
  ldb := 2
  ldc := 3
  modulus := 255

/-- Two workers, a row each. -/
def oneRowEach : WorkSplit Bool 2 where
  rows w := if w then [1] else [0]
  lt := by decide
  covers := by decide
  unique := by
    intro w v row hw hv
    cases w <;> cases v <;> simp_all

/-- The actions of the two workers in turns. -/
def alternating : List (Bool × RingAction) :=
  let row := ringRowActions extremeCall.n extremeCall.k
  (row 0).zip (row 1) |>.flatMap fun p => [(true, p.2), (false, p.1)]

/-- `16384` is `64` modulo 255, and the byte after the first row keeps its value. -/
theorem ringGemm_extreme :
    (exec extremeCall.step ⟨fun _ => 7, fun _ _ => -1⟩ alternating).C 4 = 64 ∧
      (exec extremeCall.step ⟨fun _ => 7, fun _ _ => -1⟩ alternating).C 2 = 7 := by
  have h : extremeCall.Interleaves oneRowEach alternating := by
    intro w
    cases w <;> rfl
  obtain ⟨-, hcell, hframe⟩ := ringGemm_exact extremeCall (by decide) (by decide) (by decide)
    oneRowEach alternating h ⟨fun _ => 7, fun _ _ => -1⟩
  exact ⟨(hcell 1 (by decide) 1 (by decide)).trans (by decide), hframe 2 (by decide)⟩

end Rns8
