import Mathlib.Tactic
import Mathlib.Algebra.BigOperators.Group.Finset.Basic
import Mathlib.Algebra.BigOperators.Intervals
import Mathlib.Algebra.Order.BigOperators.Group.Finset

/-!
# Sums split over threads and merged in a tree

A cooperative sum of `k` terms on `T` threads: thread `t` adds the terms `t`, `t + T`, `t + 2 T`, …,
the partial sums go to shared slots, and passes of halving stride merge slot `t + stride` into slot
`t`. The addition is exact only below a bound, as on fixed-width words, so that every fact here
carries a budget: the sum of the absolute values of the terms.
-/

namespace TreeReduction

open Finset

variable {σ : Type*}

/-! ### The loops -/

/-- The indices of `for (kk = thread; kk < k; kk += threads)`. -/
def stridedIndices (threads k thread : ℕ) : List ℕ :=
  List.range' thread ((k - thread + threads - 1) / threads) threads

/-- One thread of a merge pass. -/
def mergeSlot (combine : σ → σ → σ) (stride : ℕ) (slots : ℕ → σ) (thread : ℕ) : ℕ → σ :=
  if thread < stride then
    Function.update slots thread (combine (slots thread) (slots (thread + stride)))
  else slots

/-- A merge pass: the threads run in the given order between two barriers. -/
def mergePass (combine : σ → σ → σ) (order : List ℕ) (stride : ℕ) (slots : ℕ → σ) : ℕ → σ :=
  order.foldl (mergeSlot combine stride) slots

/-- The strides of `for (stride = threads / 2; stride > 0; stride >>= 1)`, from the first. -/
def stridesFrom (stride : ℕ) : List ℕ :=
  if h : 0 < stride then stride :: stridesFrom (stride / 2) else []
termination_by stride
decreasing_by omega

/-- The tree reduction; `order stride` is the order of the threads in that pass. -/
def treeReduce (combine : σ → σ → σ) (threads : ℕ) (order : ℕ → List ℕ) (slots : ℕ → σ) : ℕ → σ :=
  (stridesFrom (threads / 2)).foldl (fun slots stride => mergePass combine (order stride) stride slots)
    slots

theorem stridesFrom_two_pow (j : ℕ) : stridesFrom (2 ^ (j + 1) / 2) = 2 ^ j :: stridesFrom (2 ^ j / 2) := by
  rw [pow_succ, Nat.mul_div_cancel _ (by norm_num), stridesFrom, dif_pos (by positivity)]

/-- **A pass does not depend on the order of its threads**: no thread reads a slot that another
thread of the pass writes. -/
theorem mergePass_apply (combine : σ → σ → σ) {order : List ℕ} (hnodup : order.Nodup) (stride : ℕ)
    (slots : ℕ → σ) (t : ℕ) : mergePass combine order stride slots t =
      if t ∈ order ∧ t < stride then combine (slots t) (slots (t + stride)) else slots t := by
  induction order generalizing slots with
  | nil => simp [mergePass]
  | cons u l ih =>
    obtain ⟨hu, hl⟩ := List.nodup_cons.1 hnodup
    have hstep : mergePass combine (u :: l) stride slots =
        mergePass combine l stride (mergeSlot combine stride slots u) := rfl
    -- a merge writes its own slot only
    have hread : ∀ v, v ≠ u → mergeSlot combine stride slots u v = slots v := by
      intro v hv
      unfold mergeSlot
      split
      · exact Function.update_of_ne hv _ _
      · rfl
    rw [hstep, ih hl]
    -- the slot is merged once, by its own thread
    by_cases htu : t = u
    · subst htu
      rw [if_neg fun h => hu h.1]
      unfold mergeSlot
      by_cases hts : t < stride
      · simp [hts]
      · simp [hts]
    · rw [hread t htu]
      by_cases hts : t < stride
      · by_cases hfar : t + stride = u
        · -- the merged slot belongs to an idle thread
          have hidle : mergeSlot combine stride slots u = slots := if_neg (by omega)
          simp [htu, hts, hidle]
        · rw [hread _ hfar]
          simp [htu, hts]
      · simp [hts]

/-- A reduction seen through a projection that the merges respect. -/
theorem treeReduce_map {τ : Type*} {combine : σ → σ → σ} {combine' : τ → τ → τ} (proj : τ → σ)
    (hproj : ∀ x y, proj (combine' x y) = combine (proj x) (proj y)) (threads : ℕ)
    (order : ℕ → List ℕ) (slots : ℕ → τ) (t : ℕ) :
    proj (treeReduce combine' threads order slots t) =
      treeReduce combine threads order (fun t => proj (slots t)) t := by
  have hslot : ∀ stride (slots : ℕ → τ) thread, (fun t => proj (mergeSlot combine' stride slots thread t)) =
      mergeSlot combine stride (fun t => proj (slots t)) thread := by
    intro stride slots thread
    funext t
    unfold mergeSlot
    split
    · by_cases ht : t = thread
      · subst ht
        simp [hproj]
      · simp [ht]
    · rfl
  have hpass : ∀ stride (l : List ℕ) (slots : ℕ → τ), (fun t => proj (mergePass combine' l stride slots t)) =
      mergePass combine l stride (fun t => proj (slots t)) := by
    intro stride l
    induction l with
    | nil => exact fun _ => rfl
    | cons thread l ih =>
      intro slots
      exact (ih _).trans (by rw [hslot]; rfl)
  unfold treeReduce
  generalize stridesFrom (threads / 2) = strides
  induction strides generalizing slots with
  | nil => rfl
  | cons stride strides ih => rw [List.foldl_cons, List.foldl_cons, ih, hpass]

/-! ### Exact sums -/

section Exact

variable {val : σ → ℤ} (bound : ℤ) {combine : σ → σ → σ}

/-- **Tree reduction.** With `2 ^ j` threads, slot `0` ends with the sum of all slots, when the sum
of their budgets is below the bound. -/
theorem treeReduce_val
    (hcombine : ∀ x y, |val x| + |val y| < bound → val (combine x y) = val x + val y)
    {order : ℕ → List ℕ} (j : ℕ)
    (horder : ∀ i < j, (order (2 ^ i)).Nodup ∧ ∀ t < 2 ^ i, t ∈ order (2 ^ i))
    (slots : ℕ → σ) (budget : ℕ → ℤ) (hbudget : ∀ t < 2 ^ j, |val (slots t)| ≤ budget t)
    (hbound : ∑ t ∈ range (2 ^ j), budget t < bound) :
    val (treeReduce combine (2 ^ j) order slots 0) = ∑ t ∈ range (2 ^ j), val (slots t) := by
  induction j generalizing slots budget with
  | zero => simp [treeReduce, stridesFrom]
  | succ j ih =>
    obtain ⟨hnodup, hmem⟩ := horder j (Nat.lt_succ_self j)
    have hrun : treeReduce combine (2 ^ (j + 1)) order slots = treeReduce combine (2 ^ j) order
        (mergePass combine (order (2 ^ j)) (2 ^ j) slots) := by
      unfold treeReduce
      rw [stridesFrom_two_pow, List.foldl_cons]
    have hdouble : 2 ^ (j + 1) = 2 ^ j + 2 ^ j := by ring
    rw [hdouble, sum_range_add] at hbound
    have hnonneg : ∀ t < 2 ^ (j + 1), 0 ≤ budget t := fun t ht => (abs_nonneg _).trans (hbudget t ht)
    -- one merged slot
    have hslot : ∀ t < 2 ^ j, val (mergePass combine (order (2 ^ j)) (2 ^ j) slots t) =
        val (slots t) + val (slots (2 ^ j + t)) := by
      intro t ht
      rw [mergePass_apply combine hnodup, if_pos ⟨hmem t ht, ht⟩, Nat.add_comm t]
      refine hcombine _ _ ?_
      have hlow : budget t ≤ ∑ t ∈ range (2 ^ j), budget t :=
        single_le_sum (fun u hu => hnonneg u (by rw [mem_range] at hu; omega)) (mem_range.2 ht)
      have hhigh : budget (2 ^ j + t) ≤ ∑ t ∈ range (2 ^ j), budget (2 ^ j + t) :=
        single_le_sum (f := fun t => budget (2 ^ j + t))
          (fun u hu => hnonneg _ (by rw [mem_range] at hu; omega)) (mem_range.2 ht)
      have h1 := hbudget t (by omega)
      have h2 := hbudget (2 ^ j + t) (by omega)
      omega
    rw [hrun, ih (fun i hi => horder i (by omega)) _ (fun t => budget t + budget (2 ^ j + t)), hdouble,
      sum_range_add, ← sum_add_distrib]
    · exact sum_congr rfl fun t ht => hslot t (mem_range.1 ht)
    · intro t ht
      rw [hslot t ht]
      exact (abs_add_le _ _).trans
        (add_le_add (hbudget t (by omega)) (hbudget (2 ^ j + t) (by omega)))
    · rwa [sum_add_distrib]

/-- A loop of exact additions. -/
theorem foldl_val {α : Type*} {step : σ → α → σ} (term : α → ℤ)
    (hstep : ∀ x a, |val x| + |term a| < bound → val (step x a) = val x + term a) (l : List α)
    (x : σ) (hbound : |val x| + (l.map fun a => |term a|).sum < bound) :
    val (l.foldl step x) = val x + (l.map term).sum := by
  induction l generalizing x with
  | nil => simp
  | cons a l ih =>
    simp only [List.map_cons, List.sum_cons] at hbound ⊢
    have hrest : 0 ≤ (l.map fun a => |term a|).sum :=
      List.sum_nonneg fun y hy => by
        obtain ⟨b, -, rfl⟩ := List.mem_map.1 hy
        exact abs_nonneg _
    have hval := hstep x a (by omega)
    have habs := abs_add_le (val x) (term a)
    rw [List.foldl_cons, ih _ (by rw [hval]; omega), hval]
    ring

end Exact

/-! ### Strided threads -/

/-- The terms of a thread, as a sum over its passes. -/
theorem sum_stridedIndices (threads k t : ℕ) (f : ℕ → ℤ) :
    ((stridedIndices threads k t).map f).sum =
      ∑ i ∈ range ((k - t + threads - 1) / threads), f (t + threads * i) := by
  unfold stridedIndices
  generalize (k - t + threads - 1) / threads = len
  induction len with
  | zero => simp
  | succ len ih =>
    rw [List.range'_concat, List.map_append, List.sum_append, ih, sum_range_succ]
    simp

theorem lt_passes_iff {threads k t i : ℕ} (ht : t < threads) :
    i < (k - t + threads - 1) / threads ↔ t + threads * i < k := by
  rw [Nat.lt_iff_add_one_le, Nat.le_div_iff_mul_le (by omega), Nat.add_mul, one_mul,
    Nat.mul_comm i]
  constructor
  · intro h
    by_cases hk : t ≤ k
    · omega
    · have : threads * i + threads ≤ threads - 1 := by omega
      omega
  · intro h
    omega

/-- **The threads partition the terms.** -/
theorem sum_threads {threads : ℕ} (hthreads : 0 < threads) (k : ℕ) (f : ℕ → ℤ) :
    ∑ t ∈ range threads, ((stridedIndices threads k t).map f).sum = ∑ kk ∈ range k, f kk := by
  simp only [sum_stridedIndices]
  rw [sum_sigma']
  refine sum_nbij' (fun x => x.1 + threads * x.2) (fun kk => ⟨kk % threads, kk / threads⟩) ?_ ?_ ?_ ?_ ?_
  · rintro ⟨t, i⟩ h
    simp only [mem_sigma, mem_range] at h ⊢
    exact (lt_passes_iff h.1).1 h.2
  · intro kk h
    simp only [mem_sigma, mem_range] at h ⊢
    have hmod := Nat.mod_lt kk hthreads
    exact ⟨hmod, (lt_passes_iff hmod).2 (by rwa [Nat.mod_add_div])⟩
  · rintro ⟨t, i⟩ h
    simp only [mem_sigma, mem_range] at h
    simp [Nat.add_mul_mod_self_left, Nat.mod_eq_of_lt h.1, Nat.add_mul_div_left _ _ hthreads,
      Nat.div_eq_of_lt h.1]
  · intro kk _
    exact Nat.mod_add_div kk threads
  · intro _ _
    rfl

end TreeReduction
