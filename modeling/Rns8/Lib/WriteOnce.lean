import Mathlib.Data.List.Basic
import Mathlib.Data.Set.Basic
import Mathlib.Logic.Function.Basic

/-!
# Programs that write every cell once

A program is a list of steps over a memory `β → κ → ν` of buffers and offsets. Each step writes a
set of cells and may read any cell, so that steps may read what earlier steps wrote. When the written
sets are disjoint, the program ends with a given target in all written cells exactly when it
`Replays` the target: every step, started with the target already in the cells of the steps before
it, writes the target (`run_eq_target_iff`).
-/

namespace WriteOnce

variable {β κ ν σ : Type*}

/-- The memory with `target` in the cells of `W`. -/
noncomputable def patch (mem : β → κ → ν) (W : β → κ → Prop) (target : β → κ → ν) : β → κ → ν :=
  open Classical in fun b o => if W b o then target b o else mem b o

theorem patch_of_mem {mem target : β → κ → ν} {W : β → κ → Prop} {b : β} {o : κ} (h : W b o) :
    patch mem W target b o = target b o := if_pos h

theorem patch_of_not_mem {mem target : β → κ → ν} {W : β → κ → Prop} {b : β} {o : κ}
    (h : ¬ W b o) : patch mem W target b o = mem b o := if_neg h

variable (step : σ → (β → κ → ν) → β → κ → ν) (W : σ → β → κ → Prop) (target : β → κ → ν)

/-- `P` holds at every stage: of every step, with the memory in which the steps before it have left
the target. -/
def AtStages (P : (β → κ → ν) → σ → Prop) : (β → κ → ν) → List σ → Prop
  | _, [] => True
  | mem, s :: l => P mem s ∧ AtStages P (patch mem (W s) target) l

/-- Every step writes the target when the steps before it have. -/
abbrev Replays : (β → κ → ν) → List σ → Prop :=
  AtStages W target fun mem s => ∀ b o, W s b o → step s mem b o = target b o

/-- No two steps of the program write the same cell. -/
def Disjoint (l : List σ) : Prop := l.Pairwise fun s t => ∀ b o, W s b o → ¬ W t b o

variable {step W target}

theorem AtStages.imp {P Q : (β → κ → ν) → σ → Prop} {l : List σ}
    (hPQ : ∀ mem, ∀ s ∈ l, P mem s → Q mem s) {mem : β → κ → ν} (h : AtStages W target P mem l) :
    AtStages W target Q mem l := by
  induction l generalizing mem with
  | nil => trivial
  | cons s l ih =>
    exact ⟨hPQ mem s List.mem_cons_self h.1, ih (fun m t ht => hPQ m t (List.mem_cons_of_mem _ ht)) h.2⟩

/-- **Invariant rule.** What follows from an invariant that the patches of the target keep holds at
every stage. -/
theorem AtStages.of_invariant {I : (β → κ → ν) → Prop} {P : (β → κ → ν) → σ → Prop} {l : List σ}
    (hinv : ∀ s ∈ l, ∀ mem, I mem → I (patch mem (W s) target))
    (hP : ∀ s ∈ l, ∀ mem, I mem → P mem s) {mem : β → κ → ν} (h : I mem) :
    AtStages W target P mem l := by
  induction l generalizing mem with
  | nil => trivial
  | cons s l ih =>
    exact ⟨hP s List.mem_cons_self mem h, ih (fun t ht => hinv t (List.mem_cons_of_mem _ ht))
      (fun t ht => hP t (List.mem_cons_of_mem _ ht)) (hinv s List.mem_cons_self mem h)⟩

theorem AtStages.forall {ξ : Type*} {P : ξ → (β → κ → ν) → σ → Prop} {mem : β → κ → ν} {l : List σ}
    (h : ∀ x, AtStages W target (P x) mem l) :
    AtStages W target (fun mem s => ∀ x, P x mem s) mem l := by
  induction l generalizing mem with
  | nil => trivial
  | cons s l ih => exact ⟨fun x => (h x).1, ih fun x => (h x).2⟩

/-- A cell that no step writes keeps its value. -/
theorem run_of_not_mem (hframe : ∀ s mem b o, ¬ W s b o → step s mem b o = mem b o) {l : List σ}
    (mem : β → κ → ν) {b : β} {o : κ} (h : ∀ s ∈ l, ¬ W s b o) :
    l.foldl (fun mem s => step s mem) mem b o = mem b o := by
  induction l generalizing mem with
  | nil => rfl
  | cons s l ih =>
    rw [List.foldl_cons, ih _ fun t ht => h t (List.mem_cons_of_mem _ ht)]
    exact hframe s mem b o (h s List.mem_cons_self)

/-- A step that writes the target is a patch. -/
theorem step_eq_patch (hframe : ∀ s mem b o, ¬ W s b o → step s mem b o = mem b o) {s : σ}
    {mem : β → κ → ν} (h : ∀ b o, W s b o → step s mem b o = target b o) :
    step s mem = patch mem (W s) target := by
  funext b o
  by_cases hw : W s b o
  · rw [h b o hw, patch_of_mem hw]
  · rw [hframe s mem b o hw, patch_of_not_mem hw]

/-- **Replay.** A program of disjoint writes ends with the target in every written cell if and only
if it replays the target. -/
theorem run_eq_target_iff (hframe : ∀ s mem b o, ¬ W s b o → step s mem b o = mem b o)
    {l : List σ} (hdisj : Disjoint W l) (mem : β → κ → ν) :
    (∀ s ∈ l, ∀ b o, W s b o → l.foldl (fun mem s => step s mem) mem b o = target b o) ↔
      Replays step W target mem l := by
  induction l generalizing mem with
  | nil => simp [AtStages]
  | cons s l ih =>
    obtain ⟨hs, hl⟩ := List.pairwise_cons.1 hdisj
    -- no later step writes the cells of `s`
    have hkeep : ∀ mem' b o, W s b o → l.foldl (fun mem s => step s mem) mem' b o = mem' b o :=
      fun mem' b o hw => run_of_not_mem hframe mem' fun t ht => hs t ht b o hw
    constructor
    · intro h
      have hhead : ∀ b o, W s b o → step s mem b o = target b o := by
        intro b o hw
        rw [← hkeep (step s mem) b o hw]
        exact h s List.mem_cons_self b o hw
      refine ⟨hhead, (ih hl _).1 fun t ht b o hw => ?_⟩
      rw [← step_eq_patch hframe hhead]
      exact h t (List.mem_cons_of_mem _ ht) b o hw
    · rintro ⟨hhead, htail⟩ t ht b o hw
      rw [List.foldl_cons, step_eq_patch hframe hhead]
      rcases List.mem_cons.1 ht with rfl | ht
      · rw [hkeep _ b o hw, patch_of_mem hw]
      · exact (ih hl _).2 htail t ht b o hw

end WriteOnce
