import Rns8.Core.Residue
import Rns8.Lib.Interleave

/-!
# The teams that run the row loops of the CPU kernels

`ring_gemm_modulus` and `cpu_gemm_wrap_u64` run one row program for each output row: on the calling
thread in a serial build and below the work threshold, else on the threads of an OpenMP team. Here
are the memory accesses of the two row programs, and the teams: which worker runs which rows, and how
the accesses of the workers interleave. Nothing orders the accesses of two workers.

The fill of an output row is one step. It stores one value, and a cell of the output is summed over
one column of the right operand, so it meets at most one cell of a row that another worker fills.
-/

namespace Rns8

/-! ### Row programs -/

/-- The memory accesses of `ring_gemm_row`. -/
inductive RingAction
  /-- `std::fill(c_row, c_row + n, int8_t{0})` -/
  | clearRow (row : ℕ)
  /-- `std::fill(block_acc.begin(), block_acc.end(), 0)` -/
  | clearAcc
  /-- `block_acc[col] += av * b_row[col]`, at the position `kk` of the inner dimension -/
  | accumulate (row kk col : ℕ)
  /-- `c_row[col] = reduce_to_centered(c_row[col] + block_acc[col], modulus)` -/
  | reduce (row col : ℕ)

/-- The actions of the `while (offset < k)` loop; every pass advances `offset`, so `k` passes are
enough. -/
def ringBlockActions (n k row : ℕ) : ℕ → ℕ → List RingAction
  | 0, _ => []
  | fuel + 1, offset =>
    if offset < k then
      let block := min safeInt32KBlock (k - offset)
      .clearAcc ::
        ((List.range block).flatMap fun kk => (List.range n).map (.accumulate row (offset + kk))) ++
        (List.range n).map (.reduce row) ++
        ringBlockActions n k row fuel (offset + block)
    else []

/-- The actions of `ring_gemm_row`. -/
def ringRowActions (n k row : ℕ) : List RingAction := .clearRow row :: ringBlockActions n k row k 0

/-- The action belongs to a row, and stores in its first `n` columns only. -/
def RingAction.OnRow (n row : ℕ) : RingAction → Prop
  | .clearRow r => r = row
  | .clearAcc => True
  | .accumulate r _ _ => r = row
  | .reduce r col => r = row ∧ col < n

theorem onRow_of_mem_ringBlockActions {n k row fuel offset : ℕ} :
    ∀ a ∈ ringBlockActions n k row fuel offset, a.OnRow n row := by
  induction fuel generalizing offset with
  | zero => intro a ha; cases ha
  | succ fuel ih =>
    intro a ha
    unfold ringBlockActions at ha
    split at ha
    swap
    · cases ha
    simp only [List.cons_append, List.mem_cons, List.mem_append, List.mem_flatMap, List.mem_map,
      List.mem_range] at ha
    rcases ha with rfl | (⟨kk, -, col, -, rfl⟩ | ⟨col, hcol, rfl⟩) | ha
    · trivial
    · rfl
    · exact ⟨rfl, hcol⟩
    · exact ih a ha

theorem onRow_of_mem_ringRowActions {n k row : ℕ} :
    ∀ a ∈ ringRowActions n k row, a.OnRow n row := by
  intro a ha
  rcases List.mem_cons.1 ha with rfl | ha
  · rfl
  · exact onRow_of_mem_ringBlockActions a ha

/-- The memory accesses of `compute_row` in `cpu_gemm_wrap_u64`. -/
inductive WrapAction
  /-- `std::fill(row_acc.begin(), row_acc.end(), 0)` -/
  | clearAcc
  /-- `row_acc[col] += a_value * load_wrap_compact_u64_limbs(..)` -/
  | accumulate (row kk col : ℕ)
  /-- one store of `set_wrap_u64_matrix_cell`: byte `i` of the row is limb `i % 8` of column `i / 8` -/
  | store (row i : ℕ)

/-- The actions of `compute_row` up to the store of byte `i`: the row is accumulated first and stored
then. -/
def wrapRowPrefix (n k row i : ℕ) : List WrapAction :=
  .clearAcc ::
    ((List.range k).flatMap fun kk => (List.range n).map (.accumulate row kk)) ++
    (List.range i).map (.store row)

/-- The actions of `compute_row`. -/
def wrapRowActions (n k row : ℕ) : List WrapAction := wrapRowPrefix n k row (n * 8)

/-- The action belongs to a row, and stores in its first `8 * n` bytes only. -/
def WrapAction.OnRow (n row : ℕ) : WrapAction → Prop
  | .clearAcc => True
  | .accumulate r _ _ => r = row
  | .store r i => r = row ∧ i < n * 8

theorem onRow_of_mem_wrapRowActions {n k row : ℕ} :
    ∀ a ∈ wrapRowActions n k row, a.OnRow n row := by
  intro a ha
  simp only [wrapRowActions, wrapRowPrefix, List.mem_append, List.mem_cons, List.mem_flatMap,
    List.mem_map, List.mem_range] at ha
  rcases ha with (rfl | ⟨kk, -, col, -, rfl⟩) | ⟨i, hi, rfl⟩
  · trivial
  · rfl
  · exact ⟨rfl, hi⟩

/-! ### Teams -/

/-- The rows of a call split between workers: every row to one of them. -/
structure WorkSplit (W : Type) (m : ℕ) where
  rows : W → List ℕ
  lt : ∀ w, ∀ row ∈ rows w, row < m
  covers : ∀ row < m, ∃ w, row ∈ rows w
  unique : ∀ w v row, row ∈ rows w → row ∈ rows v → w = v

/-- A team: for a loop over `m` rows, the rows of each worker, and the order in which the actions of
the workers are done, each worker running the programs of its rows one after the other. -/
structure RowTeam (α : Type) where
  split : ∀ m, WorkSplit ℕ m
  nodup : ∀ m w, ((split m).rows w).Nodup
  events : ℕ → (ℕ → List α) → List (ℕ × α)
  interleaves : ∀ m program w,
    Interleave.own w (events m program) = ((split m).rows w).flatMap program

/-- One row on one worker. -/
def oneRow (w row v : ℕ) : List ℕ := if v = w then [row] else []

theorem mem_oneRow {w row v r : ℕ} : r ∈ oneRow w row v ↔ v = w ∧ r = row := by
  unfold oneRow
  split
  · next h => simp [h]
  · next h => simp [h]

theorem oneRow_unique (w row : ℕ) :
    ∀ v u r, r ∈ oneRow w row v → r ∈ oneRow w row u → v = u :=
  fun _ _ _ hv hu => (mem_oneRow.1 hv).1.trans (mem_oneRow.1 hu).1.symm

/-- A worker's actions for one row are the run of that row. -/
theorem own_oneRow {α : Type} (program : ℕ → List α) (w row v : ℕ) :
    Interleave.own v ((program row).map (Prod.mk w)) = (oneRow w row v).flatMap program := by
  unfold oneRow
  split
  · next h =>
    subst h
    rw [Interleave.own_map_self, List.flatMap_singleton]
  · next h =>
    rw [Interleave.own_map_of_ne (Ne.symm h)]
    rfl

/-- One worker with all rows in ascending order. -/
def serialSplit (m : ℕ) : WorkSplit ℕ m where
  rows w := if w = 0 then List.range m else []
  lt w row h := by
    split at h
    · exact List.mem_range.1 h
    · cases h
  covers row h := ⟨0, List.mem_range.2 h⟩
  unique w v row hw hv := by
    split at hw
    · next h0 =>
      split at hv
      · next h0' => exact h0.trans h0'.symm
      · cases hv
    · cases hw

/-- The calling thread by itself. -/
def serialTeam {α : Type} : RowTeam α where
  split := serialSplit
  nodup m w := by
    simp only [serialSplit]
    split
    · exact List.nodup_range
    · exact List.nodup_nil
  events m program := ((List.range m).flatMap program).map (Prod.mk 0)
  interleaves m program w := by
    simp only [serialSplit]
    split
    · next h =>
      subst h
      rw [Interleave.own_map_self]
    · next h =>
      rw [Interleave.own_map_of_ne (Ne.symm h)]
      rfl

/-- The order in which the rows of a loop are processed whose rows read nothing that another row
writes. -/
structure RowSchedule where
  order : ℕ → List ℕ
  perm : ∀ m, (order m).Perm (List.range m)

/-- Ascending rows. -/
def serialRows : RowSchedule := ⟨List.range, fun _ => List.Perm.refl _⟩

/-- Every row on a worker of its own. -/
def ownRowSplit (m : ℕ) : WorkSplit ℕ m where
  rows w := if w < m then [w] else []
  lt w row h := by
    split at h
    · next hw => rwa [List.mem_singleton.1 h]
    · cases h
  covers row h := ⟨row, by rw [if_pos h]; exact List.mem_singleton_self row⟩
  unique w v row hw hv := by
    split at hw
    · split at hv
      · exact (List.mem_singleton.1 hw).symm.trans (List.mem_singleton.1 hv)
      · cases hv
    · cases hw

/-- A team with a worker for every row, in two phases: first each row runs its first `cut row`
actions, then, in the given order of the rows, the rest. -/
def phasedTeam {α : Type} (cut : ℕ → ℕ) (order : RowSchedule) : RowTeam α where
  split := ownRowSplit
  nodup m w := by
    simp only [ownRowSplit]
    split
    · exact List.nodup_singleton w
    · exact List.nodup_nil
  events m program :=
    ((List.range m).flatMap fun row => ((program row).take (cut row)).map (Prod.mk row)) ++
      (order.order m).flatMap fun row => ((program row).drop (cut row)).map (Prod.mk row)
  interleaves m program w := by
    have hmem : w ∈ order.order m ↔ w ∈ List.range m := (order.perm m).mem_iff
    rw [Interleave.own_append, Interleave.own_segments _ List.nodup_range,
      Interleave.own_segments _ ((order.perm m).nodup_iff.2 List.nodup_range)]
    simp only [ownRowSplit, hmem, List.mem_range]
    split
    · rw [List.take_append_drop, List.flatMap_singleton]
    · rfl

/-- The given rows first, the others after them. -/
def rowsFirst (first : List ℕ) (hfirst : first.Nodup) : RowSchedule where
  order m := first.filter (· < m) ++ (List.range m).filter (· ∉ first)
  perm m := by
    refine (List.perm_ext_iff_of_nodup ?_ List.nodup_range).2 fun row => ?_
    · refine (hfirst.filter _).append (List.nodup_range.filter _) ?_
      intro row h h'
      simp only [List.mem_filter, decide_eq_true_eq] at h h'
      exact h'.2 h.1
    · simp only [List.mem_append, List.mem_filter, List.mem_range, decide_eq_true_eq]
      tauto

end Rns8
