import Mathlib.Algebra.BigOperators.Group.Finset.Basic
import Mathlib.Data.List.Basic

/-!
# Loops that write one observed cell

A loop over a list is `l.foldl step s`. These rules follow one observation `read` of the state
through it: an observation that no pass changes keeps its value, and an observation that some pass
sets, every pass either setting it to the same value or leaving it alone, ends with that value. An
invariant of the loop may be assumed at every pass.
-/

namespace LoopFold

variable {σ α β : Type*} {step : σ → α → σ} {I : σ → Prop} {l : List α}

/-- An invariant of every pass holds after the loop. -/
theorem foldl_invariant (hinv : ∀ s, ∀ a ∈ l, I s → I (step s a)) {s : σ} (h : I s) :
    I (l.foldl step s) := by
  induction l generalizing s with
  | nil => exact h
  | cons a l ih =>
    exact ih (fun s b hb => hinv s b (List.mem_cons_of_mem _ hb)) (hinv s a List.mem_cons_self h)

/-- An observation that no pass changes keeps its value. -/
theorem foldl_read_of_frame (read : σ → β) (hframe : ∀ s, ∀ a ∈ l, read (step s a) = read s)
    (s : σ) : read (l.foldl step s) = read s :=
  foldl_invariant (I := fun t => read t = read s)
    (fun t a ha ht => (hframe t a ha).trans ht) rfl

/-- An observation that some pass touches ends with `v`, when every pass that touches it sets it to
`v` and every other pass leaves it alone. -/
theorem foldl_read_of_touched (read : σ → β) (touches : α → Prop) {v : β}
    (hinv : ∀ s, ∀ a ∈ l, I s → I (step s a))
    (hwrite : ∀ s, ∀ a ∈ l, I s → touches a → read (step s a) = v)
    (hframe : ∀ s, ∀ a ∈ l, I s → ¬ touches a → read (step s a) = read s)
    (hex : ∃ a ∈ l, touches a) {s : σ} (hs : I s) : read (l.foldl step s) = v := by
  induction l generalizing s with
  | nil => obtain ⟨a, ha, -⟩ := hex; cases ha
  | cons a l ih =>
    have htail : ∀ {t}, I t → read t = v ∨ (∃ b ∈ l, touches b) →
        read (l.foldl step t) = v := by
      intro t ht hor
      by_cases hb : ∃ b ∈ l, touches b
      · exact ih (fun s b hb => hinv s b (List.mem_cons_of_mem _ hb))
          (fun s b hb => hwrite s b (List.mem_cons_of_mem _ hb))
          (fun s b hb => hframe s b (List.mem_cons_of_mem _ hb)) hb ht
      · have hkeep : read (l.foldl step t) = read t := by
          have hrest : I (l.foldl step t) ∧ read (l.foldl step t) = read t :=
            foldl_invariant (I := fun u => I u ∧ read u = read t)
            (fun u b hbl hu => ⟨hinv u b (List.mem_cons_of_mem _ hbl) hu.1,
              (hframe u b (List.mem_cons_of_mem _ hbl) hu.1 fun htb => hb ⟨b, hbl, htb⟩).trans
                hu.2⟩) ⟨ht, rfl⟩
          exact hrest.2
        rw [hkeep]
        exact hor.resolve_right hb
    refine htail (hinv s a List.mem_cons_self hs) ?_
    obtain ⟨b, hb, htb⟩ := hex
    rcases List.mem_cons.1 hb with rfl | hb
    · exact Or.inl (hwrite s b List.mem_cons_self hs htb)
    · exact Or.inr ⟨b, hb, htb⟩

/-- An observation to which every pass adds something ends with the sum. -/
theorem foldl_range_read_add {β : Type*} [AddCommMonoid β] {step : σ → ℕ → σ} (read : σ → β)
    (f : ℕ → β) (len : ℕ) (hstep : ∀ s, ∀ i < len, read (step s i) = read s + f i) (s : σ) :
    read ((List.range len).foldl step s) = read s + ∑ i ∈ Finset.range len, f i := by
  induction len with
  | zero => simp
  | succ len ih =>
    rw [List.range_succ, List.foldl_append, List.foldl_cons, List.foldl_nil, Finset.sum_range_succ,
      hstep _ len (Nat.lt_succ_self len), ih fun s i hi => hstep s i (Nat.lt_succ_of_lt hi), add_assoc]

/-- A sum over a list of places. -/
theorem sum_map_range {β : Type*} [AddCommMonoid β] (f : ℕ → β) (len : ℕ) :
    ((List.range len).map f).sum = ∑ i ∈ Finset.range len, f i := by
  rw [← Multiset.sum_coe]
  rfl

/-- A loop over the first places that rewrites each place from its own value. -/
theorem foldl_range_update (f : ℕ → σ → σ) (len : ℕ) (mem : ℕ → σ) (i : ℕ) :
    (List.range len).foldl (fun mem i => Function.update mem i (f i (mem i))) mem i =
      if i < len then f i (mem i) else mem i := by
  induction len with
  | zero => simp
  | succ len ih =>
    rw [List.range_succ, List.foldl_append, List.foldl_cons, List.foldl_nil]
    by_cases heq : i = len
    · subst heq
      rw [Function.update_self, ih, if_neg (by omega), if_pos (by omega)]
    · rw [Function.update_of_ne heq, ih]
      exact if_congr (by omega) rfl rfl

/-! ### Loops of stores -/

variable {κ ν : Type*} {f : (κ → ν) → α → κ → ν} {W : α → κ → Prop} {v : κ → ν}

/-- `g` gives the places in `P` the values of `v` and leaves the others alone. -/
def Stores (g : (κ → ν) → κ → ν) (P : κ → Prop) (v : κ → ν) : Prop :=
  ∀ dst o, (P o → g dst o = v o) ∧ (¬ P o → g dst o = dst o)

/-- The stores of a loop determine it. -/
theorem Stores.unique {g g' : (κ → ν) → κ → ν} {P : κ → Prop} (h : Stores g P v)
    (h' : Stores g' P v) : g = g' := by
  funext dst o
  by_cases ho : P o
  · rw [(h dst o).1 ho, (h' dst o).1 ho]
  · rw [(h dst o).2 ho, (h' dst o).2 ho]

theorem Stores.congr {g : (κ → ν) → κ → ν} {P Q : κ → Prop} (h : Stores g P v)
    (hPQ : ∀ o, P o ↔ Q o) : Stores g Q v :=
  fun dst o => ⟨fun ho => (h dst o).1 ((hPQ o).2 ho), fun ho => (h dst o).2 fun hP => ho ((hPQ o).1 hP)⟩

/-- One store. -/
theorem stores_update [DecidableEq κ] (p : κ) (x : ν) (hv : v p = x) :
    Stores (fun dst => Function.update dst p x) (fun o => o = p) v := by
  intro dst o
  refine ⟨?_, fun hne => Function.update_of_ne hne _ _⟩
  rintro rfl
  exact (Function.update_self _ _ _).trans hv.symm

/-- **A loop of stores** writes the places that some pass writes. -/
theorem Stores.foldl (hstep : ∀ a ∈ l, Stores (fun dst => f dst a) (W a) v) :
    Stores (fun dst => l.foldl f dst) (fun o => ∃ a ∈ l, W a o) v :=
  fun dst o => ⟨fun hex => foldl_read_of_touched (I := fun _ => True) (fun dst => dst o)
      (fun a => W a o) (fun _ _ _ _ => trivial) (fun dst a ha _ hW => (hstep a ha dst o).1 hW)
      (fun dst a ha _ hW => (hstep a ha dst o).2 hW) hex trivial,
    fun hno => foldl_read_of_frame (fun dst => dst o)
      (fun dst a ha => (hstep a ha dst o).2 fun hW => hno ⟨a, ha, hW⟩) dst⟩

end LoopFold
