import Mathlib.Data.List.Basic

/-!
# Runs of a labelled machine and conditioned invariants

A *labelled machine* is a total function `step : σ → ℓ → σ`: the label carries both the request and
whatever the environment decides while it is served, so a run is determined by its labels. `exec`
folds a list of labels, and `Meets step P s ls` says that every step of the run from `s` along `ls`
is taken from a state and with a label that satisfy `P`.

The rules proved here package the induction over runs once:

* `exec_invariant` — an invariant that every step preserves holds after every run;
* `Meets.invariant` — an invariant preserved by every step that meets `P` holds after every run
  whose steps meet `P`;
* `Meets.at_step` — what the invariant and `P` give at one step holds at *each* step of such a run.
-/

namespace LabelledRun

variable {σ ℓ : Type*}

/-- The state reached from `s` by taking the labels `ls` from left to right. -/
def exec (step : σ → ℓ → σ) (s : σ) (ls : List ℓ) : σ :=
  ls.foldl step s

/-- Every step of the run from `s` along `ls` meets `P` at the state it is taken from. -/
def Meets (step : σ → ℓ → σ) (P : σ → ℓ → Prop) : σ → List ℓ → Prop
  | _, [] => True
  | s, l :: ls => P s l ∧ Meets step P (step s l) ls

variable {step : σ → ℓ → σ} {P Q : σ → ℓ → Prop} {Inv : σ → Prop}

@[simp] theorem exec_nil (s : σ) : exec step s [] = s := rfl

@[simp] theorem exec_cons (s : σ) (l : ℓ) (ls : List ℓ) :
    exec step s (l :: ls) = exec step (step s l) ls := rfl

theorem exec_append (s : σ) (ls ms : List ℓ) :
    exec step s (ls ++ ms) = exec step (exec step s ls) ms := by
  simp [exec]

@[simp] theorem meets_nil (s : σ) : Meets step P s [] := trivial

@[simp] theorem meets_cons (s : σ) (l : ℓ) (ls : List ℓ) :
    Meets step P s (l :: ls) ↔ P s l ∧ Meets step P (step s l) ls := Iff.rfl

theorem meets_append (s : σ) (ls ms : List ℓ) :
    Meets step P s (ls ++ ms) ↔ Meets step P s ls ∧ Meets step P (exec step s ls) ms := by
  induction ls generalizing s with
  | nil => simp
  | cons l ls ih => simp [ih, and_assoc]

/-- **Invariant rule.** A property preserved by every step that meets `P` survives every run whose
steps all meet `P`. -/
theorem Meets.invariant (hstep : ∀ s l, Inv s → P s l → Inv (step s l)) {s : σ} {ls : List ℓ}
    (hrun : Meets step P s ls) (h0 : Inv s) : Inv (exec step s ls) := by
  induction ls generalizing s with
  | nil => exact h0
  | cons l ls ih => exact ih hrun.2 (hstep s l h0 hrun.1)

/-- A property that every step preserves survives every run. -/
theorem exec_invariant (hstep : ∀ s l, Inv s → Inv (step s l)) (ls : List ℓ) {s : σ} (h0 : Inv s) :
    Inv (exec step s ls) := by
  induction ls generalizing s with
  | nil => exact h0
  | cons l ls ih => exact ih (hstep s l h0)

/-- **Step rule.** What the invariant gives at one step that meets `P` holds at every step of a run
whose steps all meet `P`. -/
theorem Meets.at_step (hstep : ∀ s l, Inv s → P s l → Inv (step s l))
    (hpost : ∀ s l, Inv s → P s l → Q s l) {s : σ} {pre post : List ℓ} {l : ℓ}
    (hrun : Meets step P s (pre ++ l :: post)) (h0 : Inv s) : Q (exec step s pre) l := by
  obtain ⟨hpre, hl, -⟩ := (meets_append s pre (l :: post)).1 hrun
  exact hpost _ l (hpre.invariant hstep h0) hl

end LabelledRun
