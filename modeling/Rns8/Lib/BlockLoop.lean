import Mathlib.Data.List.Perm.Basic
import Rns8.Lib.LoopFold
import Rns8.Lib.TreeReduction

/-!
# Loops that the threads of a block share

Between two barriers the threads of a block rewrite an array together: thread `t` takes the cells
`t`, `t + threads`, … . Every cell has one owner, so that the array after the loop does not depend
on the order of the threads (`sweep_apply`).
-/

namespace BlockLoop

open LoopFold TreeReduction

variable {ν : Type*} {threads cells : ℕ} {order : List ℕ}

/-- `for (cell = t; cell < cells; cell += threads) array[cell] = f(cell, array[cell])`, for the threads
in the given order. -/
def sweep (threads cells : ℕ) (order : List ℕ) (f : ℕ → ν → ν) (array : ℕ → ν) : ℕ → ν :=
  order.foldl (fun array t => (stridedIndices threads cells t).foldl
    (fun array cell => Function.update array cell (f cell (array cell))) array) array

theorem mem_stridedIndices {t cell : ℕ} (ht : t < threads) :
    cell ∈ stridedIndices threads cells t ↔ cell < cells ∧ cell % threads = t := by
  rw [stridedIndices, List.mem_range']
  constructor
  · rintro ⟨i, hi, rfl⟩
    exact ⟨(lt_passes_iff ht).1 hi, by rw [Nat.add_mul_mod_self_left, Nat.mod_eq_of_lt ht]⟩
  · rintro ⟨hcell, rfl⟩
    have hsplit := Nat.mod_add_div cell threads
    exact ⟨cell / threads, (lt_passes_iff ht).2 (by rwa [hsplit]), hsplit.symm⟩

theorem stridedIndices_nodup (hthreads : 0 < threads) (t : ℕ) :
    (stridedIndices threads cells t).Nodup := List.nodup_range' _ hthreads

/-- A loop over distinct cells rewrites each from its own value. -/
theorem foldl_update_apply {l : List ℕ} (hl : l.Nodup) (f : ℕ → ν → ν) (array : ℕ → ν) (cell : ℕ) :
    l.foldl (fun array cell => Function.update array cell (f cell (array cell))) array cell =
      if cell ∈ l then f cell (array cell) else array cell := by
  induction l generalizing array with
  | nil => simp
  | cons c l ih =>
    obtain ⟨hc, hl⟩ := List.nodup_cons.1 hl
    rw [List.foldl_cons, ih hl]
    by_cases heq : cell = c
    · subst heq
      rw [if_neg hc, if_pos List.mem_cons_self, Function.update_self]
    · rw [Function.update_of_ne heq]
      simp [heq]

/-- **The owners rewrite each cell once**, in any order of the threads. -/
theorem sweep_apply (hthreads : 0 < threads) (horder : order.Perm (List.range threads))
    (f : ℕ → ν → ν) (array : ℕ → ν) (cell : ℕ) :
    sweep threads cells order f array cell =
      if cell < cells then f cell (array cell) else array cell := by
  have hlt : ∀ t ∈ order, t < threads := fun t ht => List.mem_range.1 (horder.mem_iff.1 ht)
  have hflat : sweep threads cells order f array =
      (order.flatMap (stridedIndices threads cells)).foldl
        (fun array cell => Function.update array cell (f cell (array cell))) array := by
    rw [sweep, List.foldl_flatMap]
  have hnodup : (order.flatMap (stridedIndices threads cells)).Nodup := by
    refine List.nodup_flatMap.2 ⟨fun t _ => stridedIndices_nodup hthreads t, ?_⟩
    refine List.Pairwise.imp_of_mem ?_ (horder.nodup_iff.2 List.nodup_range)
    intro t u ht hu hne c hc hc'
    exact hne (((mem_stridedIndices (hlt t ht)).1 hc).2.symm.trans
      ((mem_stridedIndices (hlt u hu)).1 hc').2)
  have hmem : cell ∈ order.flatMap (stridedIndices threads cells) ↔ cell < cells := by
    rw [List.mem_flatMap]
    constructor
    · rintro ⟨t, ht, hc⟩
      exact ((mem_stridedIndices (hlt t ht)).1 hc).1
    · intro hc
      have hmod := Nat.mod_lt cell hthreads
      exact ⟨cell % threads, horder.mem_iff.2 (List.mem_range.2 hmod),
        (mem_stridedIndices hmod).2 ⟨hc, rfl⟩⟩
  rw [hflat, foldl_update_apply hnodup]
  exact if_congr hmem rfl rfl

/-- A tile that the threads fill together holds its values. -/
theorem sweep_const (hthreads : 0 < threads) (horder : order.Perm (List.range threads))
    (value : ℕ → ν) (array : ℕ → ν) {cell : ℕ} (hcell : cell < cells) :
    sweep threads cells order (fun cell _ => value cell) array cell = value cell := by
  rw [sweep_apply hthreads horder, if_pos hcell]

/-- The same loop on the `cells` places of an array from `base` on. -/
def sweepAt (base threads cells : ℕ) (order : List ℕ) (f : ℕ → ν → ν) (array : ℕ → ν) : ℕ → ν :=
  order.foldl (fun array t => (stridedIndices threads cells t).foldl (fun array cell =>
    Function.update array (base + cell) (f cell (array (base + cell)))) array) array

theorem sweepAt_eq (base threads cells : ℕ) (order : List ℕ) (f : ℕ → ν → ν) (array : ℕ → ν)
    (i : ℕ) : sweepAt base threads cells order f array i =
      if base ≤ i then sweep threads cells order f (fun c => array (base + c)) (i - base)
      else array i := by
  -- one thread: its updates are those of the sweep, moved up by `base`
  have hloop : ∀ (l : List ℕ) (array : ℕ → ν),
      (∀ c, l.foldl (fun array cell =>
        Function.update array (base + cell) (f cell (array (base + cell)))) array (base + c) =
        l.foldl (fun array cell => Function.update array cell (f cell (array cell)))
          (fun c => array (base + c)) c) ∧
      ∀ i < base, l.foldl (fun array cell =>
        Function.update array (base + cell) (f cell (array (base + cell)))) array i = array i := by
    intro l
    induction l with
    | nil => exact fun _ => ⟨fun _ => rfl, fun _ _ => rfl⟩
    | cons cell l ih =>
      intro array
      obtain ⟨hin, hout⟩ := ih (Function.update array (base + cell) (f cell (array (base + cell))))
      constructor
      · intro c
        have hview : (fun c => Function.update array (base + cell) (f cell (array (base + cell)))
            (base + c)) = Function.update (fun c => array (base + c)) cell
              (f cell (array (base + cell))) := by
          funext c'
          by_cases h : c' = cell
          · subst h
            rw [Function.update_self, Function.update_self]
          · rw [Function.update_of_ne h, Function.update_of_ne (by omega)]
        rw [List.foldl_cons, List.foldl_cons, hin, hview]
      · intro i hi
        rw [List.foldl_cons, hout i hi, Function.update_of_ne (by omega)]
  -- then all threads, in their order
  have hthreads : ∀ (order : List ℕ) (array : ℕ → ν),
      (∀ c, sweepAt base threads cells order f array (base + c) =
        sweep threads cells order f (fun c => array (base + c)) c) ∧
      ∀ i < base, sweepAt base threads cells order f array i = array i := by
    intro order
    induction order with
    | nil => exact fun _ => ⟨fun _ => rfl, fun _ _ => rfl⟩
    | cons t order ih =>
      intro array
      obtain ⟨hin, hout⟩ := hloop (stridedIndices threads cells t) array
      obtain ⟨hin', hout'⟩ := ih ((stridedIndices threads cells t).foldl (fun array cell =>
        Function.update array (base + cell) (f cell (array (base + cell)))) array)
      exact ⟨fun c => (hin' c).trans (congrArg (fun array => sweep threads cells order f array c)
        (funext hin)), fun i hi => (hout' i hi).trans (hout i hi)⟩
  split
  · next h =>
    rw [← (hthreads order array).1, Nat.add_sub_cancel' h]
  · next h => exact (hthreads order array).2 i (by omega)

/-- The owners rewrite each of the places once. -/
theorem sweepAt_apply (hthreads : 0 < threads) (horder : order.Perm (List.range threads))
    (f : ℕ → ν → ν) (array : ℕ → ν) (base i : ℕ) :
    sweepAt base threads cells order f array i =
      if base ≤ i ∧ i < base + cells then f (i - base) (array i) else array i := by
  rw [sweepAt_eq]
  by_cases h : base ≤ i
  · rw [if_pos h, sweep_apply hthreads horder, Nat.add_sub_cancel' h]
    by_cases hlt : i < base + cells
    · rw [if_pos (by omega), if_pos ⟨h, hlt⟩]
    · rw [if_neg (by omega), if_neg fun hc => hlt hc.2]
  · rw [if_neg h, if_neg fun hc => h hc.1]

end BlockLoop
