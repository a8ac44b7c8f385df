import Rns8.Lib.Interleave
import Mathlib.Data.List.Induction

/-!
# Rely and guarantee

Workers that do read what the others write. What the others may do to the state between two actions
of worker `w` is its rely `Rely w`, what it does itself its guarantee `Guar w`; the guarantee of a
worker is allowed by the rely of every other one (`Compatible`). `Secures` is the obligation of one
worker by itself: whatever its rely lets happen in between, its actions keep its guarantee and end in
the postcondition. The sequential rules compose obligations (`Triple.append`, the two loop rules),
and `Compatible.exec` puts the workers together: in every interleaving all postconditions hold at
the end.
-/

namespace RelyGuarantee

open LabelledRun Interleave

variable {W α σ : Type*} (step : σ → W × α → σ) (Rely Guar : W → σ → σ → Prop)

/-- The guarantee of a worker is within the rely of the others; a rely is closed under repetition. -/
structure Compatible : Prop where
  refl : ∀ w s, Rely w s s
  trans : ∀ w s t u, Rely w s t → Rely w t u → Rely w s u
  guar : ∀ w v s t, v ≠ w → Guar v s t → Rely w s t

/-- From `s` on, the actions of the worker keep its guarantee and end in `Q`, whatever its rely lets
happen before, between and after them. -/
def Secures (w : W) : List α → (σ → Prop) → σ → Prop
  | [], Q, s => ∀ t, Rely w s t → Q t
  | a :: as, Q, s => ∀ t, Rely w s t →
    Guar w t (step t (w, a)) ∧ Secures w as Q (step t (w, a))

/-- The assertion survives what the rely lets happen. -/
def Stable (w : W) (P : σ → Prop) : Prop := ∀ s t, Rely w s t → P s → P t

/-- From every state with `P`. -/
def Triple (w : W) (P : σ → Prop) (as : List α) (Q : σ → Prop) : Prop :=
  ∀ s, P s → Secures step Rely Guar w as Q s

variable {step Rely Guar} {w : W} {P Q R : σ → Prop} {as bs : List α}

/-! ### Sequential rules -/

theorem Secures.mono (h : Compatible Rely Guar) {s t : σ} (hst : Rely w s t)
    (hs : Secures step Rely Guar w as Q s) : Secures step Rely Guar w as Q t := by
  cases as with
  | nil => exact fun u htu => hs u (h.trans w s t u hst htu)
  | cons a as => exact fun u htu => hs u (h.trans w s t u hst htu)

theorem Secures.imp (hQR : ∀ s, Q s → R s) {s : σ} (h : Secures step Rely Guar w as Q s) :
    Secures step Rely Guar w as R s := by
  induction as generalizing s with
  | nil => exact fun t hst => hQR t (h t hst)
  | cons a as ih => exact fun t hst => ⟨(h t hst).1, ih (h t hst).2⟩

theorem Triple.imp {P' Q' : σ → Prop} (h : Triple step Rely Guar w P as Q) (hP : ∀ s, P' s → P s)
    (hQ : ∀ s, Q s → Q' s) : Triple step Rely Guar w P' as Q' :=
  fun s hs => (h s (hP s hs)).imp hQ

theorem Triple.nil (hstable : Stable Rely w P) (hPQ : ∀ s, P s → Q s) :
    Triple step Rely Guar w P [] Q :=
  fun s hs t hst => hPQ t (hstable s t hst hs)

theorem Triple.cons {a : α} (hstable : Stable Rely w P)
    (hact : ∀ s, P s → Guar w s (step s (w, a)) ∧ R (step s (w, a)))
    (hrest : Triple step Rely Guar w R as Q) : Triple step Rely Guar w P (a :: as) Q := by
  intro s hs t hst
  obtain ⟨hguar, hR⟩ := hact t (hstable s t hst hs)
  exact ⟨hguar, hrest _ hR⟩

theorem Triple.append (h : Compatible Rely Guar) (has : Triple step Rely Guar w P as R)
    (hbs : Triple step Rely Guar w R bs Q) : Triple step Rely Guar w P (as ++ bs) Q := by
  suffices hrun : ∀ (as : List α) (s : σ), Secures step Rely Guar w as R s →
      Secures step Rely Guar w (as ++ bs) Q s from fun s hs => hrun as s (has s hs)
  intro as
  induction as with
  | nil => exact fun s hs => hbs s (hs s (h.refl w s))
  | cons a as ih => exact fun s hs t hst => ⟨(hs t hst).1, ih _ (hs t hst).2⟩

/-- **Loop rule.** A loop whose passes carry `I j` to `I (j + 1)`. -/
theorem Triple.range_flatMap (h : Compatible Rely Guar) {I : ℕ → σ → Prop} {f : ℕ → List α} (n : ℕ)
    (hstable : Stable Rely w (I 0))
    (hpass : ∀ j < n, Triple step Rely Guar w (I j) (f j) (I (j + 1))) :
    Triple step Rely Guar w (I 0) ((List.range n).flatMap f) (I n) := by
  induction n with
  | zero => exact Triple.nil hstable fun _ hs => hs
  | succ n ih =>
    rw [List.range_succ, List.flatMap_append, List.flatMap_singleton]
    exact (ih fun j hj => hpass j (by omega)).append h (hpass n (by omega))

variable (step) in
/-- A loop of single actions. -/
theorem Triple.range_map (h : Compatible Rely Guar) {I : ℕ → σ → Prop} {f : ℕ → α} (n : ℕ)
    (hstable : ∀ j ≤ n, Stable Rely w (I j))
    (hpass : ∀ j < n, ∀ s, I j s → Guar w s (step s (w, f j)) ∧ I (j + 1) (step s (w, f j))) :
    Triple step Rely Guar w (I 0) ((List.range n).map f) (I n) := by
  rw [List.map_eq_flatMap]
  refine Triple.range_flatMap h n (hstable 0 (by omega)) fun j hj => ?_
  exact Triple.cons (hstable j (by omega)) (hpass j hj) (Triple.nil (hstable (j + 1) hj) fun _ hs => hs)

variable (step) in
/-- A loop over a list, whose invariant names what is done. -/
theorem Triple.flatMap (h : Compatible Rely Guar) {β : Type*} {I : List β → σ → Prop}
    {f : β → List α} (l : List β) (hstable : Stable Rely w (I []))
    (hpass : ∀ done x rest, l = done ++ x :: rest →
      Triple step Rely Guar w (I done) (f x) (I (done ++ [x]))) :
    Triple step Rely Guar w (I []) (l.flatMap f) (I l) := by
  induction l using List.reverseRecOn with
  | nil => exact Triple.nil hstable fun _ hs => hs
  | append_singleton l x ih =>
    rw [List.flatMap_append, List.flatMap_singleton]
    refine (ih fun done y rest hl => hpass done y (rest ++ [x]) ?_).append h (hpass l x [] rfl)
    rw [hl, List.append_assoc, List.cons_append]

/-! ### All workers -/

variable (step) in
/-- **Parallel rule.** When every worker meets its obligation for the actions it has in the run, every
postcondition holds after the run, in whatever order the actions were interleaved. -/
theorem Compatible.exec [DecidableEq W] (h : Compatible Rely Guar) {Q : W → σ → Prop}
    (evs : List (W × α)) {s : σ} (hown : ∀ w, Secures step Rely Guar w (own w evs) (Q w) s) (w : W) :
    Q w (LabelledRun.exec step s evs) := by
  induction evs generalizing s with
  | nil => exact hown w s (h.refl w s)
  | cons e evs ih =>
    obtain ⟨v, a⟩ := e
    have hv := hown v
    rw [own_cons_self] at hv
    obtain ⟨hguar, hrest⟩ := hv s (h.refl v s)
    refine ih fun u => ?_
    by_cases hu : u = v
    · subst hu
      exact hrest
    · -- the action of `v` is allowed by the rely of `u`
      have hother := hown u
      rw [own_cons_of_ne (Ne.symm hu)] at hother
      exact hother.mono h (h.guar u v s _ (Ne.symm hu) hguar)

end RelyGuarantee
