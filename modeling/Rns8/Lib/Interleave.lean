import Rns8.Lib.LabelledRun

/-!
# Interleaved workers

Several workers act on one state; an event is a worker with one of its actions, and a run is a list
of events in any interleaving. When the actions of a worker depend on its own part of the state only
and leave the parts of the others alone (`Local`), a worker sees of the whole run what its own
actions do by themselves: `Local.exec` for the state that is reached, `Local.meets` for what holds at
every step.
-/

namespace Interleave

open LabelledRun

variable {W α σ : Type*} [DecidableEq W]

/-- The actions of a worker, in the order of the run. -/
def own (w : W) (evs : List (W × α)) : List α :=
  (evs.filter fun e => decide (e.1 = w)).map Prod.snd

@[simp] theorem own_nil (w : W) : own w ([] : List (W × α)) = [] := rfl

@[simp] theorem own_cons_self (w : W) (a : α) (evs : List (W × α)) :
    own w ((w, a) :: evs) = a :: own w evs := by
  simp [own]

theorem own_cons_of_ne {w v : W} (h : v ≠ w) (a : α) (evs : List (W × α)) :
    own w ((v, a) :: evs) = own w evs := by
  simp [own, h]

theorem mem_own {w : W} {a : α} {evs : List (W × α)} : a ∈ own w evs ↔ (w, a) ∈ evs := by
  simp [own]

@[simp] theorem own_append (w : W) (evs evs' : List (W × α)) :
    own w (evs ++ evs') = own w evs ++ own w evs' := by
  simp [own]

@[simp] theorem own_map_self (w : W) (as : List α) : own w (as.map (Prod.mk w)) = as := by
  induction as with
  | nil => rfl
  | cons a as ih => rw [List.map_cons, own_cons_self, ih]

theorem own_map_of_ne {w v : W} (h : v ≠ w) (as : List α) : own w (as.map (Prod.mk v)) = [] := by
  induction as with
  | nil => rfl
  | cons a as ih => rw [List.map_cons, own_cons_of_ne h, ih]

/-- Workers that run a segment each, one after the other. -/
theorem own_segments (seg : W → List α) {ws : List W} (hws : ws.Nodup) (w : W) :
    own w (ws.flatMap fun v => (seg v).map (Prod.mk v)) = if w ∈ ws then seg w else [] := by
  induction ws with
  | nil => rfl
  | cons v ws ih =>
    obtain ⟨hv, hws⟩ := List.nodup_cons.1 hws
    rw [List.flatMap_cons, own_append, ih hws]
    by_cases hvw : v = w
    · subst hvw
      rw [own_map_self, if_neg hv, if_pos List.mem_cons_self, List.append_nil]
    · rw [own_map_of_ne hvw, List.nil_append]
      simp [Ne.symm hvw]

variable {step : σ → W × α → σ} {Allowed : W × α → Prop} {Same : W → σ → σ → Prop}

/-- `Same w s t`: the states agree on the part of worker `w`. An allowed action of `w` depends on
that part only, and an allowed action of another worker leaves it alone. -/
structure Local (step : σ → W × α → σ) (Allowed : W × α → Prop) (Same : W → σ → σ → Prop) :
    Prop where
  refl : ∀ w s, Same w s s
  self : ∀ w a s t, Allowed (w, a) → Same w s t → Same w (step s (w, a)) (step t (w, a))
  other : ∀ w v a s t, v ≠ w → Allowed (v, a) → Same w s t → Same w (step s (v, a)) t

/-- A worker's part after an interleaved run is what its own actions make of it. -/
theorem Local.exec_same (h : Local step Allowed Same) {evs : List (W × α)}
    (hevs : ∀ e ∈ evs, Allowed e) {w : W} {s t : σ} (hst : Same w s t) :
    Same w (exec step s evs) (exec (fun s a => step s (w, a)) t (own w evs)) := by
  induction evs generalizing s t with
  | nil => exact hst
  | cons e evs ih =>
    obtain ⟨v, a⟩ := e
    have ha := hevs (v, a) List.mem_cons_self
    have htail : ∀ e ∈ evs, Allowed e := fun e he => hevs e (List.mem_cons_of_mem _ he)
    by_cases hv : v = w
    · subst hv
      rw [own_cons_self]
      exact ih htail (h.self v a s t ha hst)
    · rw [own_cons_of_ne hv]
      exact ih htail (h.other w v a s t hv ha hst)

theorem Local.exec (h : Local step Allowed Same) {evs : List (W × α)}
    (hevs : ∀ e ∈ evs, Allowed e) (w : W) (s : σ) :
    Same w (LabelledRun.exec step s evs)
      (LabelledRun.exec (fun s a => step s (w, a)) s (own w evs)) :=
  h.exec_same hevs (h.refl w s)

/-- What holds at every step of the workers' own runs holds at every step of the interleaved run,
when it is a matter of the worker's part. -/
theorem Local.meets_same (h : Local step Allowed Same) {Q : σ → W × α → Prop}
    (hQ : ∀ w a s t, Same w s t → Q t (w, a) → Q s (w, a)) {evs : List (W × α)}
    (hevs : ∀ e ∈ evs, Allowed e) {s : σ} {t : W → σ} (hst : ∀ w, Same w s (t w))
    (hown : ∀ w, Meets (fun s a => step s (w, a)) (fun s a => Q s (w, a)) (t w) (own w evs)) :
    Meets step Q s evs := by
  induction evs generalizing s t with
  | nil => trivial
  | cons e evs ih =>
    obtain ⟨v, a⟩ := e
    have ha := hevs (v, a) List.mem_cons_self
    have hv := hown v
    rw [own_cons_self] at hv
    refine ⟨hQ v a s (t v) (hst v) hv.1, ?_⟩
    refine ih (fun e he => hevs e (List.mem_cons_of_mem _ he))
      (t := Function.update t v (step (t v) (v, a))) (fun w => ?_) (fun w => ?_)
    · by_cases hw : w = v
      · subst hw
        rw [Function.update_self]
        exact h.self w a s (t w) ha (hst w)
      · rw [Function.update_of_ne hw]
        exact h.other w v a s (t w) (Ne.symm hw) ha (hst w)
    · by_cases hw : w = v
      · subst hw
        rw [Function.update_self]
        exact hv.2
      · rw [Function.update_of_ne hw]
        have := hown w
        rwa [own_cons_of_ne (Ne.symm hw)] at this

theorem Local.meets (h : Local step Allowed Same) {Q : σ → W × α → Prop}
    (hQ : ∀ w a s t, Same w s t → Q t (w, a) → Q s (w, a)) {evs : List (W × α)}
    (hevs : ∀ e ∈ evs, Allowed e) (s : σ)
    (hown : ∀ w, Meets (fun s a => step s (w, a)) (fun s a => Q s (w, a)) s (own w evs)) :
    Meets step Q s evs :=
  h.meets_same hQ hevs (fun w => h.refl w s) hown

end Interleave
