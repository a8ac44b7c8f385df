import Rns8.Core.Types
import Mathlib.Tactic

/-!
# Shape and size checks of the device backends

The checks of `hip_backend_runtime_launch_helpers.inc` and `wrap64_hip.cpp` on shapes and byte
counts. A byte count is computed in `std::size_t`, modulo `2^64`; a check that is passed bounds the
mathematical value, so that the computed one is exact.
-/

namespace Rns8

/-- A product of two sizes in `std::size_t`. -/
def sizeMul (a b : ℕ) : ℕ := a * b % (sizeMax + 1)

theorem sizeMul_eq {a b : ℕ} (h : a * b ≤ sizeMax) : sizeMul a b = a * b :=
  Nat.mod_eq_of_lt (by omega)

theorem sizeMul_eq_iff {a b : ℕ} : sizeMul a b = a * b ↔ a * b ≤ sizeMax := by
  refine ⟨fun h => ?_, sizeMul_eq⟩
  have hlt := Nat.mod_lt (a * b) (show 0 < sizeMax + 1 by omega)
  unfold sizeMul at h
  omega

/-- `a * b * c` in `std::size_t`. -/
theorem sizeMul_sizeMul (a b c : ℕ) : sizeMul (sizeMul a b) c = a * b * c % (sizeMax + 1) := by
  unfold sizeMul
  rw [Nat.mod_mul_mod]

theorem sizeMul_sizeMul_eq_iff {a b c : ℕ} :
    sizeMul (sizeMul a b) c = a * b * c ↔ a * b * c ≤ sizeMax := by
  rw [sizeMul_sizeMul]
  exact sizeMul_eq_iff

/-! ### Shapes -/

/-- `RNS8_DEFAULT_MODULUS_COUNT`. -/
def defaultModulusCount : ℕ := 28

/-- `checked_i32_shape` of the direct HIP backend. -/
def checkedI32Shape (rows cols ld rnsPrefix : ℕ) : Bool :=
  decide (0 < rows) && decide (0 < cols) && decide (cols ≤ ld) && decide (rnsPrefix ≠ 0) &&
    decide (rnsPrefix ≤ defaultModulusCount) && decide (rows ≤ intMax) && decide (cols ≤ intMax) &&
    decide (ld ≤ intMax) && decide (rnsPrefix ≤ intMax)

/-- `checked_pack_elements`. -/
def checkedPackElements (rows cols rnsPrefix : ℕ) : Bool :=
  decide (rows ≤ intMax * 256 / cols / rnsPrefix)

/-- `checked_matrix_elements_i32`. -/
def checkedMatrixElementsI32 (rows cols : ℕ) : Bool :=
  !(decide (rows = 0) || decide (cols = 0) || decide (intMax < rows) || decide (intMax < cols)) &&
    decide (rows ≤ intMax / cols)

/-- `checked_output_bytes`, on an `element_size` computed in `std::size_t`. -/
def checkedOutputBytes (rows cols elementSize : ℕ) : Bool :=
  decide (0 < rows) && decide (0 < cols) && decide (elementSize ≠ 0) &&
    decide (rows ≤ sizeMax / elementSize / cols)

/-- `checked_limb_export_pitch`. -/
def checkedLimbExportPitch (ld limbCount : ℕ) : Bool :=
  decide (0 < ld) && decide (limbCount ≠ 0) && decide (ld ≤ sizeMax / 8 / limbCount)

/-- `checked_u64_row_pitch_bytes` and `checked_u64_compact_bytes`. -/
def checkedU64Bytes (rows ld : ℕ) : Bool :=
  decide (0 < rows) && decide (0 < ld) && decide (rows ≤ sizeMax / 8 / ld)

/-- `checked_limb_bytes`, the check of `checked_compact_byte_limb_layout`. -/
def checkedLimbBytes (rows cols : ℕ) : Bool :=
  decide (0 < rows) && decide (0 < cols) && decide (rows ≤ sizeMax / cols / 8)

/-- `checked_native_input_bytes`. -/
def checkedNativeInputBytes (rows ld elementSize : ℕ) : Bool :=
  decide (0 < rows) && decide (0 < ld) && decide (elementSize ≠ 0) &&
    decide (rows ≤ sizeMax / elementSize / ld)

/-! ### What the checks bound -/

theorem checkedMatrixElementsI32_le {rows cols : ℕ} (h : checkedMatrixElementsI32 rows cols = true) :
    0 < rows ∧ 0 < cols ∧ rows * cols ≤ 2147483647 := by
  simp only [checkedMatrixElementsI32, Bool.and_eq_true, Bool.not_eq_true', Bool.or_eq_false_iff,
    decide_eq_true_eq, decide_eq_false_iff_not, and_assoc] at h
  obtain ⟨hr, hc, -, -, hle⟩ := h
  have hmul := (Nat.le_div_iff_mul_le (Nat.pos_of_ne_zero hc)).mp hle
  unfold intMax at hmul
  exact ⟨Nat.pos_of_ne_zero hr, Nat.pos_of_ne_zero hc, hmul⟩

/-- A bound by two quotients is a bound on the product of three factors. -/
theorem mul_mul_le_of_le_div_div {rows cols elem limit : ℕ} (hc : 0 < cols) (he : 0 < elem)
    (h : rows ≤ limit / elem / cols) : rows * cols * elem ≤ limit := by
  have h1 := (Nat.le_div_iff_mul_le hc).mp h
  exact (Nat.le_div_iff_mul_le he).mp h1

theorem checkedOutputBytes_le {rows cols elementSize : ℕ}
    (h : checkedOutputBytes rows cols elementSize = true) :
    0 < rows ∧ 0 < cols ∧ 0 < elementSize ∧ rows * cols * elementSize ≤ sizeMax := by
  simp only [checkedOutputBytes, Bool.and_eq_true, decide_eq_true_eq, and_assoc] at h
  obtain ⟨hr, hc, he, hle⟩ := h
  exact ⟨hr, hc, Nat.pos_of_ne_zero he, mul_mul_le_of_le_div_div hc (Nat.pos_of_ne_zero he) hle⟩

theorem checkedNativeInputBytes_le {rows ld elementSize : ℕ}
    (h : checkedNativeInputBytes rows ld elementSize = true) :
    rows * ld * elementSize ≤ sizeMax := by
  simp only [checkedNativeInputBytes, Bool.and_eq_true, decide_eq_true_eq, and_assoc] at h
  exact mul_mul_le_of_le_div_div h.2.1 (Nat.pos_of_ne_zero h.2.2.1) h.2.2.2

end Rns8
