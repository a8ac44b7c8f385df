import Mathlib.Data.List.Basic
import Mathlib.Data.List.Nodup
import Mathlib.Data.List.Perm.Basic
import Mathlib.Data.List.ProdSigma
import Mathlib.Tactic.NormNum
import Rns8.Lib.RowMajor

/-!
# Stores of threads at indices

Threads run in some order and each stores, at a list of indices, the value that a fixed function
gives there. When every index determines its thread, and together the threads have each index of a
range once, the launch stores every index of the range exactly once and nothing else, whatever the
order of the threads.
-/

namespace IndexedStores

variable {τ ν : Type*} {threads order : List τ} {indices : τ → List ℕ} {total : ℕ}

/-- The stores of a launch. -/
def run (indices : τ → List ℕ) (value : ℕ → ν) (order : List τ) : List (ℕ × ν) :=
  order.flatMap fun t => (indices t).map fun i => (i, value i)

/-- The threads of a launch share out the indices below `total`. -/
structure Partitions (threads : List τ) (indices : τ → List ℕ) (total : ℕ) : Prop where
  threads_nodup : threads.Nodup
  nodup : ∀ t ∈ threads, (indices t).Nodup
  owner : ∀ t ∈ threads, ∀ u ∈ threads, ∀ i : ℕ, i ∈ indices t → i ∈ indices u → t = u
  mem : ∀ i : ℕ, (∃ t ∈ threads, i ∈ indices t) ↔ i < total

theorem Partitions.indices_nodup (h : Partitions threads indices total) :
    (threads.flatMap indices).Nodup := by
  refine List.nodup_flatMap.2 ⟨h.nodup, ?_⟩
  refine List.Pairwise.imp_of_mem ?_ h.threads_nodup
  intro t u ht hu hne i hi hi'
  exact hne (h.owner t ht u hu i hi hi')

/-- **Every index is stored once.** -/
theorem Partitions.filter_run (h : Partitions threads indices total) (horder : order.Perm threads)
    (value : ℕ → ν) {i : ℕ} (hi : i < total) :
    (run indices value order).filter (fun s => decide (s.1 = i)) = [(i, value i)] := by
  have hperm : (order.flatMap indices).Perm (threads.flatMap indices) := horder.flatMap_right _
  have hnodup : (order.flatMap indices).Nodup := hperm.nodup_iff.2 h.indices_nodup
  have hmem : i ∈ order.flatMap indices := by
    obtain ⟨t, ht, hit⟩ := (h.mem i).2 hi
    exact List.mem_flatMap.2 ⟨t, horder.mem_iff.2 ht, hit⟩
  have hrun : run indices value order = (order.flatMap indices).map fun i => (i, value i) := by
    rw [run, List.map_flatMap]
  have hfilter : (order.flatMap indices).filter (fun j => decide (j = i)) = [i] := by
    have hcount := List.count_eq_one_of_mem hnodup hmem
    have hrep := List.filter_eq (l := order.flatMap indices) i
    rw [hcount] at hrep
    exact (List.filter_congr fun j _ => by simp [eq_comm]).trans hrep
  rw [hrun, List.filter_map]
  change ((order.flatMap indices).filter fun j => decide (j = i)).map _ = _
  rw [hfilter]
  rfl

/-- **Nothing else is stored.** -/
theorem Partitions.lt_of_mem_run (h : Partitions threads indices total) (horder : order.Perm threads)
    (value : ℕ → ν) {s : ℕ × ν} (hs : s ∈ run indices value order) : s.1 < total := by
  obtain ⟨t, ht, hs⟩ := List.mem_flatMap.1 hs
  obtain ⟨i, hi, rfl⟩ := List.mem_map.1 hs
  exact (h.mem i).1 ⟨t, horder.mem_iff.1 ht, hi⟩

theorem Partitions.congr {indices' : τ → List ℕ} (h : Partitions threads indices total)
    (heq : ∀ t ∈ threads, indices' t = indices t) : Partitions threads indices' total where
  threads_nodup := h.threads_nodup
  nodup := fun t ht => heq t ht ▸ h.nodup t ht
  owner := fun t ht u hu i hi hi' => h.owner t ht u hu i (heq t ht ▸ hi) (heq u hu ▸ hi')
  mem := by
    intro i
    rw [← h.mem i]
    constructor
    · rintro ⟨t, ht, hi⟩
      exact ⟨t, ht, heq t ht ▸ hi⟩
    · rintro ⟨t, ht, hi⟩
      exact ⟨t, ht, heq t ht ▸ hi⟩

/-- What stores leave at a place depends on the stores to it alone. -/
theorem foldl_update_filter (stores : List (ℕ × ν)) (memory : ℕ → ν) (i : ℕ) :
    stores.foldl (fun memory s => Function.update memory s.1 s.2) memory i =
      (stores.filter fun s => decide (s.1 = i)).foldl
        (fun memory s => Function.update memory s.1 s.2) memory i := by
  have hcongr : ∀ (stores : List (ℕ × ν)) (memory memory' : ℕ → ν), memory i = memory' i →
      stores.foldl (fun memory s => Function.update memory s.1 s.2) memory i =
        (stores.filter fun s => decide (s.1 = i)).foldl
          (fun memory s => Function.update memory s.1 s.2) memory' i := by
    intro stores
    induction stores with
    | nil => exact fun memory memory' h => h
    | cons s stores ih =>
      intro memory memory' h
      by_cases hs : s.1 = i
      · rw [List.filter_cons_of_pos (by simpa using hs)]
        exact ih _ _ (by simp [← hs])
      · rw [List.filter_cons_of_neg (by simpa using hs)]
        exact ih _ _ ((Function.update_of_ne (Ne.symm hs) _ _).trans h)
  exact hcongr stores memory memory rfl

/-- **The memory after the stores** holds the values at the indices below `total`. -/
theorem Partitions.foldl_run (h : Partitions threads indices total) (horder : order.Perm threads)
    (value : ℕ → ν) (memory : ℕ → ν) (i : ℕ) :
    (run indices value order).foldl (fun memory s => Function.update memory s.1 s.2) memory i =
      if i < total then value i else memory i := by
  rw [foldl_update_filter]
  split
  · next hi =>
    rw [h.filter_run horder value hi, List.foldl_cons, List.foldl_nil, Function.update_self]
  · next hi =>
    have hnone : (run indices value order).filter (fun s => decide (s.1 = i)) = [] := by
      refine List.filter_eq_nil_iff.2 fun s hs => ?_
      have hlt := h.lt_of_mem_run horder value hs
      simp only [decide_eq_true_eq]
      omega
    rw [hnone, List.foldl_nil]

/-- Indices of `width` places each. -/
def expand (width : ℕ) (indices : τ → List ℕ) (t : τ) : List ℕ :=
  (indices t).flatMap fun i => (List.range width).map fun l => i * width + l

theorem mem_expand {width : ℕ} {t : τ} {j : ℕ} (hw : 0 < width) :
    j ∈ expand width indices t ↔ j / width ∈ indices t := by
  rw [expand, List.mem_flatMap]
  constructor
  · rintro ⟨i, hi, hj⟩
    obtain ⟨l, hl, rfl⟩ := List.mem_map.1 hj
    rw [(RowMajor.offset_parts i (List.mem_range.1 hl)).1]
    exact hi
  · intro hi
    refine ⟨j / width, hi, List.mem_map.2 ⟨j % width, List.mem_range.2 (Nat.mod_lt j hw), ?_⟩⟩
    rw [Nat.mul_comm]
    exact Nat.div_add_mod j width

/-- Threads that share out the indices share out their places. -/
theorem Partitions.expand (h : Partitions threads indices total) {width : ℕ} (hw : 0 < width) :
    Partitions threads (IndexedStores.expand width indices) (total * width) where
  threads_nodup := h.threads_nodup
  nodup := by
    intro t ht
    refine List.nodup_flatMap.2
      ⟨fun i _ => List.nodup_range.map fun _ _ h => Nat.add_left_cancel h, ?_⟩
    refine List.Pairwise.imp_of_mem ?_ (h.nodup t ht)
    intro i i' _ _ hne j hj hj'
    obtain ⟨l, hl, rfl⟩ := List.mem_map.1 hj
    obtain ⟨l', hl', heq⟩ := List.mem_map.1 hj'
    exact hne (RowMajor.eq_of_offset_eq (List.mem_range.1 hl') (List.mem_range.1 hl) heq).1.symm
  owner := fun t ht u hu j hj hj' =>
    h.owner t ht u hu (j / width) ((mem_expand hw).1 hj) ((mem_expand hw).1 hj')
  mem := by
    intro j
    rw [← Nat.div_lt_iff_lt_mul hw, ← h.mem]
    exact exists_congr fun t => and_congr_right fun _ => mem_expand hw

/-! ### Consecutive indices -/

/-- The `width` indices from `g * width` on, cut at `total`. -/
def chunk (width total g : ℕ) : List ℕ :=
  (List.range (min width (total - g * width))).map fun c => g * width + c

theorem mem_chunk {width total g i : ℕ} :
    i ∈ chunk width total g ↔ g * width ≤ i ∧ i < g * width + width ∧ i < total := by
  constructor
  · intro h
    obtain ⟨c, hc, rfl⟩ := List.mem_map.1 h
    have hc := List.mem_range.1 hc
    omega
  · rintro ⟨h0, h1, h2⟩
    exact List.mem_map.2 ⟨i - g * width, List.mem_range.2 (by omega), by omega⟩

theorem chunk_nodup (width total g : ℕ) : (chunk width total g).Nodup :=
  List.nodup_range.map fun _ _ h => Nat.add_left_cancel h

theorem chunk_of_le {width total g : ℕ} (h : total ≤ g * width) : chunk width total g = [] := by
  rw [chunk, Nat.sub_eq_zero_of_le h, Nat.min_zero, List.range_zero, List.map_nil]

theorem chunk_one (total g : ℕ) : chunk 1 total g = if total ≤ g then [] else [g] := by
  split
  · next h => exact chunk_of_le (by rw [Nat.mul_one]; exact h)
  · next h =>
    have hmin : min 1 (total - g * 1) = 1 := by omega
    rw [chunk, hmin]
    simp

/-- Offsets guarded one by one are the offsets up to the bound. -/
theorem filter_range_add (width total base : ℕ) :
    ((List.range width).filter fun c => decide (base + c < total)) =
      List.range (min width (total - base)) := by
  induction width with
  | zero => simp
  | succ width ih =>
    rw [List.range_succ, List.filter_append, ih]
    by_cases h : base + width < total
    · have hmin : min width (total - base) = width := by omega
      have hmin' : min (width + 1) (total - base) = width + 1 := by omega
      rw [hmin, hmin', List.range_succ]
      simp [h]
    · have hmin : min (width + 1) (total - base) = min width (total - base) := by omega
      rw [hmin]
      simp [h]

/-- A loop that stops at the bound runs over the offsets up to it. -/
theorem takeWhile_range_add (width total base : ℕ) :
    ((List.range width).takeWhile fun c => decide (base + c < total)) =
      List.range (min width (total - base)) := by
  induction width with
  | zero => simp
  | succ width ih =>
    rw [List.range_succ, List.takeWhile_append, ih, List.length_range, List.length_range]
    split
    · next h =>
      by_cases hlt : base + width < total
      · have hmin' : min (width + 1) (total - base) = width + 1 := by omega
        rw [hmin', List.range_succ]
        simp [hlt]
      · have hmin' : min (width + 1) (total - base) = width := by omega
        rw [hmin']
        simp [hlt]
    · next h =>
      have hmin : min (width + 1) (total - base) = min width (total - base) := by omega
      rw [hmin]

/-- Threads that are numbered without gaps share out consecutive indices. -/
theorem partitions_chunk {number : τ → ℕ} {width : ℕ} (hnodup : threads.Nodup)
    (hinj : ∀ t ∈ threads, ∀ u ∈ threads, number t = number u → t = u)
    (hcover : ∀ g : ℕ, g * width < total → ∃ t ∈ threads, number t = g) (hw : 0 < width) :
    Partitions threads (fun t => chunk width total (number t)) total where
  threads_nodup := hnodup
  nodup := fun t _ => chunk_nodup _ _ _
  owner := by
    intro t ht u hu i hi hi'
    refine hinj t ht u hu ?_
    have h := mem_chunk.1 hi
    have h' := mem_chunk.1 hi'
    have ht := Nat.div_eq_of_lt_le h.1 (by rw [Nat.succ_mul]; exact h.2.1)
    have hu := Nat.div_eq_of_lt_le h'.1 (by rw [Nat.succ_mul]; exact h'.2.1)
    exact ht.symm.trans hu
  mem := by
    intro i
    constructor
    · rintro ⟨t, -, hi⟩
      exact (mem_chunk.1 hi).2.2
    · intro hi
      have hlo := Nat.div_mul_le_self i width
      have hhi := Nat.lt_div_mul_add hw (a := i)
      obtain ⟨t, ht, hnum⟩ := hcover (i / width) (lt_of_le_of_lt hlo hi)
      exact ⟨t, ht, mem_chunk.2 ⟨by rw [hnum]; exact hlo, by rw [hnum]; exact hhi, hi⟩⟩

/-- Blocks of a loop, one after another. -/
theorem flatMap_chunk (width total blocks : ℕ) :
    (List.range blocks).flatMap (chunk width total) = List.range (min (blocks * width) total) := by
  induction blocks with
  | zero => simp
  | succ blocks ih =>
    rw [List.range_succ, List.flatMap_append, ih, List.flatMap_singleton, chunk, Nat.succ_mul]
    rcases Nat.le_total total (blocks * width) with h | h
    · have hsum : min (blocks * width + width) total = total := by omega
      rw [Nat.sub_eq_zero_of_le h, Nat.min_eq_right h, hsum]
      simp
    · rw [Nat.min_eq_left h]
      have hsum : min (blocks * width + width) total =
          blocks * width + min width (total - blocks * width) := by omega
      rw [hsum, List.range_add]

/-- Threads in rows of `n` indices, each with `width` of them. -/
theorem partitions_rows {row group : τ → ℕ} {m n width : ℕ} (hnodup : threads.Nodup)
    (hinj : ∀ t ∈ threads, ∀ u ∈ threads, row t = row u → group t = group u → t = u)
    (hcover : ∀ r < m, ∀ g, g * width < n → ∃ t ∈ threads, row t = r ∧ group t = g) (hw : 0 < width) :
    Partitions threads (fun t => if row t < m then
      (chunk width n (group t)).map fun c => row t * n + c else []) (m * n) where
  threads_nodup := hnodup
  nodup := by
    intro t _
    split
    · exact (chunk_nodup _ _ _).map fun _ _ h => Nat.add_left_cancel h
    · exact List.nodup_nil
  owner := by
    intro t ht u hu i hi hi'
    split at hi
    swap
    · cases hi
    split at hi'
    swap
    · cases hi'
    obtain ⟨c, hc, rfl⟩ := List.mem_map.1 hi
    obtain ⟨c', hc', heq⟩ := List.mem_map.1 hi'
    have hc := mem_chunk.1 hc
    have hc' := mem_chunk.1 hc'
    -- equal offsets are equal rows and columns, and the column determines the group
    obtain ⟨hrow, hcol⟩ := RowMajor.eq_of_offset_eq hc'.2.2 hc.2.2 heq
    refine hinj t ht u hu hrow.symm ?_
    have ht := Nat.div_eq_of_lt_le hc.1 (by rw [Nat.succ_mul]; exact hc.2.1)
    have hu := Nat.div_eq_of_lt_le hc'.1 (by rw [Nat.succ_mul]; exact hc'.2.1)
    rw [← ht, ← hu, hcol]
  mem := by
    intro i
    constructor
    · rintro ⟨t, -, hi⟩
      split at hi
      swap
      · cases hi
      next hrow =>
      obtain ⟨c, hc, rfl⟩ := List.mem_map.1 hi
      exact RowMajor.offset_lt (mem_chunk.1 hc).2.2 hrow
    · intro hi
      have hn : 0 < n := Nat.pos_of_mul_pos_left (lt_of_le_of_lt (Nat.zero_le i) hi)
      have hrow : i / n < m := (Nat.div_lt_iff_lt_mul hn).2 hi
      have hlo := Nat.div_mul_le_self (i % n) width
      have hhi := Nat.lt_div_mul_add hw (a := i % n)
      -- the thread of the row and of the group of the column
      obtain ⟨t, ht, hr, hg⟩ := hcover (i / n) hrow (i % n / width)
        (lt_of_le_of_lt hlo (Nat.mod_lt i hn))
      refine ⟨t, ht, ?_⟩
      rw [if_pos (by rw [hr]; exact hrow), hr, hg]
      refine List.mem_map.2 ⟨i % n, mem_chunk.2 ⟨hlo, hhi, Nat.mod_lt i hn⟩, ?_⟩
      rw [Nat.mul_comm]
      exact Nat.div_add_mod i n

/-! ### Planes -/

/-- The indices of a thread, repeated in every plane of `cells` indices. -/
def inPlanes (planes cells : ℕ) (indices : τ → List ℕ) (t : τ) : List ℕ :=
  (List.range planes).flatMap fun p => (indices t).map fun i => p * cells + i

theorem Partitions.lt (h : Partitions threads indices total) {t : τ} (ht : t ∈ threads) {i : ℕ}
    (hi : i ∈ indices t) : i < total := (h.mem i).1 ⟨t, ht, hi⟩

/-- Threads that repeat their cells in every plane share out the planes. -/
theorem Partitions.inPlanes {cells : ℕ} (h : Partitions threads indices cells) (planes : ℕ) :
    Partitions threads (IndexedStores.inPlanes planes cells indices) (planes * cells) where
  threads_nodup := h.threads_nodup
  nodup := by
    intro t ht
    refine List.nodup_flatMap.2 ⟨fun p _ => (h.nodup t ht).map fun _ _ h => Nat.add_left_cancel h, ?_⟩
    refine List.Pairwise.imp_of_mem ?_ List.nodup_range
    intro p q _ _ hne i hi hi'
    obtain ⟨c, hc, rfl⟩ := List.mem_map.1 hi
    obtain ⟨c', hc', heq⟩ := List.mem_map.1 hi'
    exact hne (RowMajor.eq_of_offset_eq (h.lt ht hc') (h.lt ht hc) heq).1.symm
  owner := by
    intro t ht u hu i hi hi'
    obtain ⟨p, -, hi⟩ := List.mem_flatMap.1 hi
    obtain ⟨q, -, hi'⟩ := List.mem_flatMap.1 hi'
    obtain ⟨c, hc, rfl⟩ := List.mem_map.1 hi
    obtain ⟨c', hc', heq⟩ := List.mem_map.1 hi'
    -- the plane is determined by the index, so the two cells are one
    have hcc := (RowMajor.eq_of_offset_eq (h.lt hu hc') (h.lt ht hc) heq).2
    exact h.owner t ht u hu c hc (hcc ▸ hc')
  mem := by
    intro i
    constructor
    · rintro ⟨t, ht, hi⟩
      obtain ⟨p, hp, hi⟩ := List.mem_flatMap.1 hi
      obtain ⟨c, hc, rfl⟩ := List.mem_map.1 hi
      exact RowMajor.offset_lt (h.lt ht hc) (List.mem_range.1 hp)
    · intro hi
      have hcells : 0 < cells := Nat.pos_of_mul_pos_left (lt_of_le_of_lt (Nat.zero_le i) hi)
      obtain ⟨t, ht, hit⟩ := (h.mem (i % cells)).2 (Nat.mod_lt i hcells)
      refine ⟨t, ht, List.mem_flatMap.2 ⟨i / cells, ?_, List.mem_map.2 ⟨i % cells, hit, ?_⟩⟩⟩
      · exact List.mem_range.2 ((Nat.div_lt_iff_lt_mul hcells).2 hi)
      · rw [Nat.mul_comm]
        exact Nat.div_add_mod i cells

/-- A launch per plane shares out the planes. -/
theorem Partitions.perPlane {cells : ℕ} (h : Partitions threads indices cells) (planes : ℕ) :
    Partitions ((List.range planes).product threads)
      (fun t => (indices t.2).map fun i => t.1 * cells + i) (planes * cells) where
  threads_nodup := List.nodup_range.product h.threads_nodup
  nodup := fun t ht =>
    (h.nodup t.2 (List.mem_product.1 ht).2).map fun _ _ h => Nat.add_left_cancel h
  owner := by
    rintro ⟨p, t⟩ hpt ⟨q, u⟩ hqu i hi hi'
    have ht := (List.mem_product.1 hpt).2
    have hu := (List.mem_product.1 hqu).2
    obtain ⟨c, hc, rfl⟩ := List.mem_map.1 hi
    obtain ⟨c', hc', heq⟩ := List.mem_map.1 hi'
    obtain ⟨hp, hcc⟩ := RowMajor.eq_of_offset_eq (h.lt hu hc') (h.lt ht hc) heq
    -- the plane and the cell of an index are determined, and so is the thread
    have htu := h.owner t ht u hu c hc (hcc ▸ hc')
    change q = p at hp
    rw [htu, hp]
  mem := by
    intro i
    constructor
    · rintro ⟨⟨p, t⟩, hpt, hi⟩
      have hpt := List.mem_product.1 hpt
      obtain ⟨c, hc, rfl⟩ := List.mem_map.1 hi
      exact RowMajor.offset_lt (h.lt hpt.2 hc) (List.mem_range.1 hpt.1)
    · intro hi
      have hcells : 0 < cells := Nat.pos_of_mul_pos_left (lt_of_le_of_lt (Nat.zero_le i) hi)
      obtain ⟨t, ht, hit⟩ := (h.mem (i % cells)).2 (Nat.mod_lt i hcells)
      refine ⟨(i / cells, t), List.mem_product.2 ⟨?_, ht⟩, List.mem_map.2 ⟨i % cells, hit, ?_⟩⟩
      · exact List.mem_range.2 ((Nat.div_lt_iff_lt_mul hcells).2 hi)
      · change i / cells * cells + i % cells = i
        rw [Nat.mul_comm]
        exact Nat.div_add_mod i cells

/-- A single launch shares out what its threads do. -/
theorem Partitions.once (h : Partitions threads indices total) :
    Partitions ((List.range 1).product threads) (fun t => indices t.2) total := by
  have hplane := h.perPlane 1
  rw [Nat.one_mul] at hplane
  refine hplane.congr fun t ht => ?_
  have hzero : t.1 = 0 := by
    have := List.mem_range.1 (List.mem_product.1 ht).1
    omega
  simp [hzero]

end IndexedStores
