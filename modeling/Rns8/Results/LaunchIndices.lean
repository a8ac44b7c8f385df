import Rns8.Hip.GroupedGemm
import Rns8.Hip.ScheduleExact
import Rns8.Accel.PackExact

/-!
# The index arithmetic of accepted GEMM launches

The host guards bound each dimension of a launch by `INT_MAX` and its planes by the 64-bit range,
whereas the kernels multiply rows by leading dimensions in `int`. Only the grouped tasks are launched
under a bound on the element counts of their matrices, and only the kernel for small outputs and the
kernel that zeroes tiles continue in 64 bits. Every value that an accepted launch computes in `int` is
the mathematical one exactly when the largest of them are at most `INT_MAX`
(`GemmLaunch.exact_iff`).
-/

namespace Rns8

open IndexArith

/-! ### Launches -/

/-- A GEMM launch of the direct HIP, CK or rocWMMA backend. A launch of CK or rocWMMA for a tile of a
schedule has the shape of the tile. -/
inductive GemmLaunch where
  /-- A kernel with one output a thread. -/
  | tile (kernel : TileKernel) (shape : GemmShape)
  /-- A kernel with two output columns a thread. -/
  | colPair (kernel : ColPairKernel) (shape : GemmShape)
  /-- `hip_direct_gemm_rns_device`. -/
  | rns (shape : GemmShape) (rnsPrefix : ℕ)
  /-- `launch_rns_grouped_task_prefix_gemm` on validated groups, whose matrices are compact. -/
  | tasks (m n k taskCount rnsPrefix : ℕ)
  /-- `hip_direct_gemm_rns_region_device`. -/
  | region (shape : GemmShape) (rowOffset colOffset rows cols : ℕ)
  /-- `launch_resident_rns_prefix_gemv_n1` and `launch_resident_rns_prefix_gemv_small_n`. -/
  | gemv (shape : GemmShape)
  /-- `hip_direct_gemm_rns_tiled_device_schedule`. -/
  | schedule (shape : GemmShape) (schedule : ScheduleLaunch)
  /-- `run_ck_tile_modulus_impl`, for a build with the given `kRns8CkShapeAlignment`. -/
  | ck (alignment : ℕ) (shape : GemmShape)
  /-- `launch_pack_and_gemm`. -/
  | rocwmma (shape : GemmShape)
  /-- `prepack_b_rns_prefix` and `prepack_b_native_rns_prefix`. -/
  | rocwmmaPrepackB (shape : GemmShape)
  /-- `launch_pack_a_and_gemm_prepacked_b`. -/
  | rocwmmaPrepackedB (shape : GemmShape)

/-- `use_persistent_small`. -/
def usePersistentSmall (s : GemmShape) : Bool :=
  decide (s.m * s.n ≤ 64) && decide (s.lda = s.k) && decide (s.ldb = s.n) && decide (s.ldc = s.n)

/-- The shape of a task: the leading dimensions are those of compact matrices. -/
def taskShape (m n k : ℕ) : GemmShape where
  m := m
  n := n
  k := k
  lda := k
  ldb := n
  ldc := n

/-- The zero-output tiles are stored by a kernel, unless every tile is one and all have one prefix:
such an output is cleared by a `memset`. -/
def ScheduleLaunch.zeroKernelRuns (l : ScheduleLaunch) : Bool :=
  l.entries.any (·.flags.zeroOutput) &&
    !(l.entries.all (·.flags.zeroOutput) &&
      l.entries.all fun entry => l.entries.all fun other =>
        decide (entry.selectedPrefix = other.selectedPrefix))

/-- The checks of a schedule launch on the extents of the tiles and the number of tiles and blocks. -/
def ScheduleLaunch.accepted (l : ScheduleLaunch) (s : GemmShape) : Bool :=
  !l.entries.isEmpty && decide (l.entries.length ≤ intMax) &&
    l.entries.all (fun entry => decide (0 < entry.rowExtent) && decide (0 < entry.colExtent) &&
      decide (entry.rowOffset + entry.rowExtent ≤ s.m) &&
      decide (entry.colOffset + entry.colExtent ≤ s.n)) &&
    decide (l.maxTileElements ≤ intMax) &&
    (!l.zeroKernelRuns ||
      decide (l.entries.length * ((l.maxTileElements + 255) / 256) ≤ 4294967295))

/-- The host guards of a launch. -/
def GemmLaunch.accepted : GemmLaunch → Bool
  | .tile _ s => s.accepted
  | .colPair _ s => s.accepted
  | .rns s rnsPrefix => s.accepted && decide (0 < rnsPrefix) && decide (rnsPrefix ≤ maxSupportedPrefix) &&
      (usePersistentSmall s || s.planesInInt64 rnsPrefix)
  | .tasks m n k taskCount rnsPrefix => (taskShape m n k).accepted && checkedMatrixElementsI32 m k &&
      checkedMatrixElementsI32 k n && checkedMatrixElementsI32 m n && decide (0 < taskCount) &&
      decide (0 < rnsPrefix) && decide (taskCount ≤ intMax / rnsPrefix)
  | .region s rowOffset colOffset rows cols => s.accepted && decide (0 < rows) && decide (0 < cols) &&
      decide (rowOffset ≤ s.m) && decide (colOffset ≤ s.n) && decide (rows ≤ s.m - rowOffset) &&
      decide (cols ≤ s.n - colOffset)
  | .gemv s => s.accepted && decide (s.n ≤ 8)
  | .schedule s l => s.accepted && l.accepted s
  | .ck alignment s => s.accepted && (decide (alignment = 64) || decide (alignment = 128)) &&
      decide (roundUp s.m alignment ≤ intMax) && decide (roundUp s.n alignment ≤ intMax)
  | .rocwmma s => s.accepted
  | .rocwmmaPrepackB s => s.accepted && decide (s.k ≤ wmmaSafeKBlock)
  | .rocwmmaPrepackedB s => s.accepted && decide (s.k ≤ wmmaSafeKBlock)

/-- **The property.** Every value that the kernels and the launchers of a launch compute in `int`, in
every thread and every pass over K, is the mathematical value. -/
def GemmLaunch.Exact : GemmLaunch → Prop
  | .tile kernel s => kernel.exact s
  | .colPair kernel s => kernel.exact s
  | .rns s _ => if usePersistentSmall s then persistentExact s.m s.n
      else TileKernel.groupedPrefix.exact s
  | .tasks m n k taskCount rnsPrefix => groupedTasksExact (taskShape m n k) taskCount rnsPrefix
  | .region s rowOffset colOffset rows cols => regionExact s rowOffset colOffset rows cols
  | .gemv s => gemvExact s
  | .schedule s l => l.activeExact s ∧ (l.zeroKernelRuns = true → l.zeroExact)
  | .ck alignment s => ckExact alignment s
  | .rocwmma s => wmmaExact s
  | .rocwmmaPrepackB s => wmmaPrepackExact s
  | .rocwmmaPrepackedB s => wmmaPrepackedExact s

/-- The largest values of a launch are at most `INT_MAX`. -/
def GemmLaunch.Fits : GemmLaunch → Prop
  | .tile _ s => s.fits
  | .colPair _ s => s.fits ∧ s.m + 15 ≤ 2147483647 ∧ s.n + 15 ≤ 2147483647
  | .rns s _ => usePersistentSmall s = true ∨ s.fits
  | .tasks _ _ _ _ _ => True
  | .region s rowOffset colOffset rows cols => regionFits s rowOffset colOffset rows cols
  | .gemv s => s.fits
  | .schedule s l => l.activeFits s ∧ (l.zeroKernelRuns = true → l.zeroFits)
  | .ck alignment s => ckFits alignment s
  | .rocwmma s => wmmaFits s
  | .rocwmmaPrepackB s => roundUp s.n 16 ≤ 2147483647
  | .rocwmmaPrepackedB s => wmmaPrepackedFits s

/-! ### Each kind of launch -/

theorem usePersistentSmall_iff {s : GemmShape} : usePersistentSmall s = true ↔
    s.m * s.n ≤ 64 ∧ s.lda = s.k ∧ s.ldb = s.n ∧ s.ldc = s.n := by
  simp only [usePersistentSmall, Bool.and_eq_true, decide_eq_true_eq, and_assoc]

theorem rns_exact_iff {s : GemmShape} (h : s.Valid) (rnsPrefix : ℕ) :
    (GemmLaunch.rns s rnsPrefix).Exact ↔ (GemmLaunch.rns s rnsPrefix).Fits := by
  simp only [GemmLaunch.Exact, GemmLaunch.Fits]
  by_cases hsmall : usePersistentSmall s = true
  · obtain ⟨hmn, -, -, -⟩ := usePersistentSmall_iff.mp hsmall
    rw [if_pos hsmall]
    exact ⟨fun _ => Or.inl hsmall, fun _ => persistentExact_of_small h.m_pos h.n_pos hmn⟩
  · rw [if_neg hsmall, TileKernel.launch_exact_iff _ h]
    exact ⟨Or.inr, fun hf => hf.resolve_left hsmall⟩

/-- The last element of a compact matrix. -/
theorem lastElement_lt {rows cols : ℕ} (hr : 0 < rows) (hc : 0 < cols) :
    (rows - 1) * cols + (cols - 1) < rows * cols := by
  have hmul := Nat.mul_le_mul_right cols (show rows - 1 + 1 ≤ rows by omega)
  rw [Nat.add_mul] at hmul
  omega

/-- **Tasks of a group** are checked for the element counts of their matrices, which is enough. -/
theorem tasks_exact {m n k : ℕ} (h : (taskShape m n k).Valid)
    (hmk : checkedMatrixElementsI32 m k = true) (hkn : checkedMatrixElementsI32 k n = true)
    (hmn : checkedMatrixElementsI32 m n = true) :
    TileKernel.groupedTaskPrefix.exact (taskShape m n k) := by
  obtain ⟨hm, hk, hmkLe⟩ := checkedMatrixElementsI32_le hmk
  obtain ⟨-, hn, hknLe⟩ := checkedMatrixElementsI32_le hkn
  obtain ⟨-, -, hmnLe⟩ := checkedMatrixElementsI32_le hmn
  refine (TileKernel.launch_exact_iff _ h).mpr ⟨?_, ?_, ?_⟩
  · exact (lastElement_lt hm hk).le.trans hmkLe
  · exact (lastElement_lt hk hn).le.trans hknLe
  · exact (lastElement_lt hm hn).le.trans hmnLe

/-- The grid of a group fits, and with it the task and the modulus of a block. -/
theorem groupedTaskIndices_exact {taskCount rnsPrefix blockZ : ℕ}
    (h : taskCount * rnsPrefix ≤ 2147483647) (hz : blockZ < taskCount * rnsPrefix) :
    Exact fun _ => groupedTaskIndices taskCount rnsPrefix blockZ := by
  have htasks : 0 < taskCount := Nat.pos_of_mul_pos_right (Nat.zero_lt_of_lt hz)
  have hprefix : rnsPrefix ≤ 2147483647 := (Nat.le_mul_of_pos_left rnsPrefix htasks).trans h
  have hblock : blockZ ≤ 2147483647 := by omega
  have hquot : ((blockZ : ℤ)).tdiv rnsPrefix = (blockZ / rnsPrefix : ℕ) := Int.ofNat_tdiv _ _
  refine (exact_iff_fits ?_).mpr ?_
  · simp only [groupedTaskIndices, lit_int32, lit_int, quot_int, ← Int32.ofInt_mul,
      ← Int32.ofInt_sub, quot_ofInt (fits_natCast.mpr hblock) (fits_natCast.mpr hprefix),
      List.map_cons, List.map_nil]
  · have hdiv : blockZ / rnsPrefix ≤ blockZ := Nat.div_le_self _ _
    have hmul : blockZ / rnsPrefix * rnsPrefix ≤ blockZ := Nat.div_mul_le_self _ _
    simp only [groupedTaskIndices, lit_int, quot_int, hquot, List.forall_mem_cons, List.not_mem_nil,
      false_imp_iff, implies_true, and_true, ← Nat.cast_mul, ← Nat.cast_sub hmul, fits_natCast]
    omega

theorem ScheduleLaunch.valid_of_accepted {l : ScheduleLaunch} {s : GemmShape}
    (h : l.accepted s = true) : l.Valid s := by
  simp only [ScheduleLaunch.accepted, Bool.and_eq_true, List.all_eq_true, decide_eq_true_eq,
    Bool.not_eq_true', List.isEmpty_eq_false_iff] at h
  obtain ⟨⟨⟨⟨hne, -⟩, htiles⟩, -⟩, -⟩ := h
  exact ⟨hne, fun e he => (htiles e he).1.1.1, fun e he => (htiles e he).1.1.2,
    fun e he => (htiles e he).1.2, fun e he => (htiles e he).2⟩

/-! ### The result -/

/-- **Accepted launches.** Every value that an accepted launch computes in `int` is the mathematical
value exactly when the largest ones are at most `INT_MAX`. -/
theorem GemmLaunch.exact_iff (launch : GemmLaunch) (h : launch.accepted = true) :
    launch.Exact ↔ launch.Fits := by
  cases launch with
  | tile kernel s => exact kernel.launch_exact_iff (GemmShape.valid_of_accepted h)
  | colPair kernel s => exact kernel.launch_exact_iff (GemmShape.valid_of_accepted h)
  | rns s rnsPrefix =>
    simp only [GemmLaunch.accepted, Bool.and_eq_true, and_assoc] at h
    exact rns_exact_iff (GemmShape.valid_of_accepted h.1) rnsPrefix
  | tasks m n k taskCount rnsPrefix =>
    simp only [GemmLaunch.accepted, Bool.and_eq_true, and_assoc] at h
    obtain ⟨hs, hmk, hkn, hmn, -, hprefix, hcount⟩ := h
    have hgrid := (Nat.le_div_iff_mul_le (of_decide_eq_true hprefix)).mp (of_decide_eq_true hcount)
    exact iff_of_true ⟨fun blockZ => groupedTaskIndices_exact hgrid,
      tasks_exact (GemmShape.valid_of_accepted hs) hmk hkn hmn⟩ trivial
  | region s rowOffset colOffset rows cols =>
    simp only [GemmLaunch.accepted, Bool.and_eq_true, decide_eq_true_eq, and_assoc] at h
    obtain ⟨hs, hrows, hcols, -, -, hr, hc⟩ := h
    exact regionExact_iff (GemmShape.valid_of_accepted hs) hrows hcols hr hc
  | gemv s =>
    simp only [GemmLaunch.accepted, Bool.and_eq_true, decide_eq_true_eq] at h
    exact gemvExact_iff (GemmShape.valid_of_accepted h.1) h.2
  | schedule s l =>
    simp only [GemmLaunch.accepted, Bool.and_eq_true] at h
    have hs := GemmShape.valid_of_accepted h.1
    have hl := ScheduleLaunch.valid_of_accepted h.2
    exact and_congr (ScheduleLaunch.activeExact_iff hl hs)
      (imp_congr_right fun _ => ScheduleLaunch.zeroExact_iff hl hs)
  | ck alignment s =>
    simp only [GemmLaunch.accepted, Bool.and_eq_true, Bool.or_eq_true, decide_eq_true_eq,
      and_assoc] at h
    obtain ⟨hs, halign, hm, hn⟩ := h
    exact ckExact_iff (by omega) (GemmShape.valid_of_accepted hs) hm hn
  | rocwmma s => exact wmmaExact_iff (GemmShape.valid_of_accepted h)
  | rocwmmaPrepackB s =>
    simp only [GemmLaunch.accepted, Bool.and_eq_true, decide_eq_true_eq] at h
    exact wmmaPrepackExact_iff h.2
  | rocwmmaPrepackedB s =>
    simp only [GemmLaunch.accepted, Bool.and_eq_true, decide_eq_true_eq] at h
    exact wmmaPrepackedExact_iff (GemmShape.valid_of_accepted h.1) h.2

/-- A `2 × 2` output of a padded `A`. -/
theorem GemmLaunch.exact_iff_padded :
    (GemmLaunch.rns ⟨2, 2, 3, 4, 2, 2⟩ 9).Exact ↔ (GemmLaunch.rns ⟨2, 2, 3, 4, 2, 2⟩ 9).Fits :=
  GemmLaunch.exact_iff _ (by decide)

/-- The shape of a plane with more than `2^31` elements. -/
def widePlane : GemmShape where
  m := 46341
  n := 46341
  k := 1
  lda := 1
  ldb := 46341
  ldc := 46341

/-- The last block of the first launch over a wide plane, at its last row and column. -/
def widePlaneSite : TileSite where
  blockX := 2896
  blockY := 2896
  tileStep := 0
  localRow := 4
  localCol := 4
  localK := 0

/-- **A wide plane.** The launch is accepted, and the thread of the last cell writes at a negative
offset. -/
theorem widePlane_inexact :
    (GemmLaunch.rns widePlane 1).accepted = true ∧ ¬ (GemmLaunch.rns widePlane 1).Exact := by
  refine ⟨by decide, fun h => ?_⟩
  have hexact := (h 0 (by decide)).2 widePlaneSite ⟨by decide, by decide⟩
    ⟨by decide, by decide, by decide, by decide +kernel⟩
  exact absurd hexact (by decide +kernel)

end Rns8
