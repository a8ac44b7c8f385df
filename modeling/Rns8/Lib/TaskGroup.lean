import Rns8.Lib.LoopFold
import Mathlib.Data.List.Perm.Basic
import Mathlib.Logic.Function.Basic

/-!
# Groups of tasks over shared buffers

A *task group* is a family of tasks that rewrite buffers of one memory. A task works in rounds, and
in each round it replaces the contents of its output buffer by a function of the whole memory. The
group runs one round after the other; inside a round its tasks run in any order.

When no task writes what another task reads or writes (`Independent`), the order does not matter:
every task leaves in its output what it would leave if it ran alone (`runRounds_out`).
-/

namespace TaskGroup

/-- The output buffer of each task, and what a round of it stores there. -/
structure Tasks (τ β ν κ : Type*) where
  out : τ → β
  step : κ → τ → (β → ν) → ν

variable {τ β ν κ : Type*} [DecidableEq β] (T : Tasks τ β ν κ)

/-- One round of one task. -/
def Tasks.runTask (r : κ) (mem : β → ν) (t : τ) : β → ν :=
  Function.update mem (T.out t) (T.step r t mem)

/-- One round of the tasks in the list. -/
def Tasks.runRound (order : κ → List τ) (mem : β → ν) (r : κ) : β → ν :=
  (order r).foldl (T.runTask r) mem

/-- All rounds, each in its own order. -/
def Tasks.runRounds (order : κ → List τ) (rounds : List κ) (mem : β → ν) : β → ν :=
  rounds.foldl (T.runRound order) mem

/-- All rounds of one task. -/
def Tasks.runAlone (t : τ) (rounds : List κ) (mem : β → ν) : β → ν :=
  rounds.foldl (fun mem r => T.runTask r mem t) mem

/-- The memories agree on every buffer that no task of the group but `t` writes. -/
def Tasks.Agree (l : List τ) (t : τ) (mem mem' : β → ν) : Prop :=
  ∀ b, (∀ u ∈ l, u ≠ t → b ≠ T.out u) → mem b = mem' b

/-- No task writes the output of another task, and what a task stores does not depend on what the
others write. -/
structure Tasks.Independent (l : List τ) : Prop where
  out_ne : ∀ t ∈ l, ∀ u ∈ l, u ≠ t → T.out t ≠ T.out u
  step_eq : ∀ r, ∀ t ∈ l, ∀ mem mem', T.Agree l t mem mem' → T.step r t mem = T.step r t mem'

variable {T} {l : List τ}

@[simp] theorem Tasks.runTask_self (r : κ) (mem : β → ν) (t : τ) :
    T.runTask r mem t (T.out t) = T.step r t mem := by simp [Tasks.runTask]

theorem Tasks.runTask_of_ne (r : κ) (mem : β → ν) (t : τ) {b : β} (h : b ≠ T.out t) :
    T.runTask r mem t b = mem b := by simp [Tasks.runTask, h]

/-- Another task of the group keeps the agreement. -/
theorem Tasks.Agree.other {t u : τ} {mem mem' : β → ν} (h : T.Agree l t mem mem') (r : κ)
    (hu : u ∈ l) (hut : u ≠ t) : T.Agree l t (T.runTask r mem u) mem' := by
  intro b hb
  rw [Tasks.runTask_of_ne r mem u (hb u hu hut)]
  exact h b hb

/-- The task itself keeps the agreement when both memories take its step. -/
theorem Tasks.Agree.self (hT : T.Independent l) {t : τ} (ht : t ∈ l) {mem mem' : β → ν}
    (h : T.Agree l t mem mem') (r : κ) : T.Agree l t (T.runTask r mem t) (T.runTask r mem' t) := by
  intro b hb
  by_cases hbt : b = T.out t
  · subst hbt
    rw [Tasks.runTask_self, Tasks.runTask_self, hT.step_eq r t ht mem mem' h]
  · rw [Tasks.runTask_of_ne r mem t hbt, Tasks.runTask_of_ne r mem' t hbt]
    exact h b hb

/-- Tasks other than `t` keep the agreement. -/
theorem Tasks.Agree.foldl_other {t : τ} {mem mem' : β → ν} (h : T.Agree l t mem mem') (r : κ)
    {l' : List τ} (hl' : ∀ u ∈ l', u ∈ l) (ht : t ∉ l') :
    T.Agree l t (l'.foldl (T.runTask r) mem) mem' := by
  induction l' generalizing mem with
  | nil => exact h
  | cons u l' ih =>
    have hut : u ≠ t := fun hu => ht (hu ▸ List.mem_cons_self)
    exact ih (h.other r (hl' u List.mem_cons_self) hut)
      (fun v hv => hl' v (List.mem_cons_of_mem _ hv)) fun hv => ht (List.mem_cons_of_mem _ hv)

/-- A round in any order does to the output of `t` what the task does alone. -/
theorem Tasks.Agree.round (hT : T.Independent l) {t : τ} (ht : t ∈ l) {mem mem' : β → ν}
    (h : T.Agree l t mem mem') (r : κ) {l' : List τ} (hl' : ∀ u ∈ l', u ∈ l) (hnodup : l'.Nodup)
    (hmem : t ∈ l') : T.Agree l t (l'.foldl (T.runTask r) mem) (T.runTask r mem' t) := by
  induction l' generalizing mem with
  | nil => cases hmem
  | cons u l' ih =>
    obtain ⟨hu, hnodup⟩ := List.nodup_cons.1 hnodup
    have hl : ∀ v ∈ l', v ∈ l := fun v hv => hl' v (List.mem_cons_of_mem _ hv)
    by_cases hut : u = t
    · subst hut
      exact (h.self hT ht r).foldl_other r hl hu
    · have htl : t ∈ l' := (List.mem_cons.1 hmem).resolve_left (Ne.symm hut)
      exact ih (h.other r (hl' u List.mem_cons_self) hut) hl hnodup htl

omit [DecidableEq β] in
theorem Tasks.Agree.refl (l : List τ) (t : τ) (mem : β → ν) : T.Agree l t mem mem := fun _ _ => rfl

/-- **Order independence.** Whatever the order of the tasks in each round, a task of an independent
group leaves in its output what it leaves when it runs alone. -/
theorem Tasks.runRounds_out (hT : T.Independent l) (hnodup : l.Nodup) {order : κ → List τ}
    (hperm : ∀ r, (order r).Perm l) {t : τ} (ht : t ∈ l) (rounds : List κ) (mem : β → ν) :
    T.runRounds order rounds mem (T.out t) = T.runAlone t rounds mem (T.out t) := by
  have key : ∀ mem mem', T.Agree l t mem mem' →
      T.Agree l t (T.runRounds order rounds mem) (T.runAlone t rounds mem') := by
    induction rounds with
    | nil => exact fun _ _ h => h
    | cons r rounds ih =>
      intro mem mem' h
      exact ih _ _ (h.round hT ht r (fun u hu => (hperm r).mem_iff.1 hu)
        ((hperm r).nodup_iff.2 hnodup) ((hperm r).mem_iff.2 ht))
  exact key mem mem (Tasks.Agree.refl l t mem) _ fun u hu hut => hT.out_ne t ht u hu hut

/-- A buffer that no task of the group writes keeps its contents. -/
theorem Tasks.runRounds_of_ne {order : κ → List τ} (rounds : List κ) (mem : β → ν) {b : β}
    (hb : ∀ r, ∀ t ∈ order r, b ≠ T.out t) : T.runRounds order rounds mem b = mem b := by
  have hround : ∀ mem r, T.runRound order mem r b = mem b := fun mem r =>
    LoopFold.foldl_read_of_frame (fun mem => mem b)
      (fun mem t ht => Tasks.runTask_of_ne r mem t (hb r t ht)) mem
  exact LoopFold.foldl_read_of_frame (fun mem => mem b) (fun mem r _ => hround mem r) mem

end TaskGroup
