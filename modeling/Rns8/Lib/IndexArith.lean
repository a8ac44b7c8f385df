import Mathlib.Tactic

/-!
# Index arithmetic in 32-bit integers

A kernel computes its row, column and offset expressions in 32-bit signed integers. Such an
expression is written once, over any type with the operations it uses, and read twice: over `Int32`
it is what the kernel computes, over `ℤ` it is the mathematical value. An expression built from sums,
differences and products reduces modulo `2^32` whatever its parts do, so the two readings agree
exactly when the mathematical value is an `int` (`exact_iff_fits`). Comparisons and quotients are
the exception: they need their operands in range, which is where the guards of a kernel come in.
-/

namespace IndexArith

/-- A mathematical value that an `int` holds. -/
def Fits (z : ℤ) : Prop := -2147483648 ≤ z ∧ z ≤ 2147483647

instance (z : ℤ) : Decidable (Fits z) := inferInstanceAs (Decidable (_ ∧ _))

theorem fits_of_nonneg {z : ℤ} (h0 : 0 ≤ z) (h : z ≤ 2147483647) : Fits z := ⟨by omega, h⟩

theorem fits_natCast {n : ℕ} : Fits n ↔ n ≤ 2147483647 := by
  unfold Fits
  omega

/-- The operations of index expressions besides sum, difference and product. -/
class Ops (α : Type) where
  /-- A literal, or the conversion of a wider integer. -/
  lit : ℤ → α
  /-- Division, rounding towards zero. -/
  quot : α → α → α
  /-- The remainder of `quot`. -/
  rem : α → α → α
  less : α → α → Bool

instance : Ops ℤ where
  lit := id
  quot := Int.tdiv
  rem := Int.tmod
  less a b := decide (a < b)

instance : Ops Int32 where
  lit := Int32.ofInt
  quot a b := a / b
  rem a b := a % b
  less a b := decide (a < b)

export Ops (lit quot rem less)

@[simp] theorem lit_int (z : ℤ) : (lit z : ℤ) = z := (rfl)

@[simp] theorem quot_int (a b : ℤ) : quot a b = a.tdiv b := (rfl)

@[simp] theorem rem_int (a b : ℤ) : rem a b = a.tmod b := (rfl)

@[simp] theorem less_int (a b : ℤ) : less a b = decide (a < b) := (rfl)

@[simp] theorem lit_int32 (z : ℤ) : (lit z : Int32) = Int32.ofInt z := (rfl)

/-- Conversion to `int` keeps the values that fit and no others. -/
theorem toInt_ofInt_iff {z : ℤ} : (Int32.ofInt z).toInt = z ↔ Fits z := by
  constructor
  · intro h
    have h1 := (Int32.ofInt z).toInt_lt
    have h2 := (Int32.ofInt z).le_toInt
    rw [h] at h1 h2
    exact ⟨by omega, by omega⟩
  · rintro ⟨h1, h2⟩
    exact Int32.toInt_ofInt_of_le (by omega) (by omega)

/-- A comparison of values in range reads the mathematical order. -/
theorem less_ofInt {a b : ℤ} (ha : Fits a) (hb : Fits b) :
    less (Int32.ofInt a) (Int32.ofInt b) = decide (a < b) := by
  change decide (Int32.ofInt a < Int32.ofInt b) = _
  rw [decide_eq_decide, Int32.lt_iff_toInt_lt, toInt_ofInt_iff.mpr ha, toInt_ofInt_iff.mpr hb]

/-- A quotient of values in range is the mathematical one. -/
theorem quot_ofInt {a b : ℤ} (ha : Fits a) (hb : Fits b) :
    quot (Int32.ofInt a) (Int32.ofInt b) = Int32.ofInt (a.tdiv b) := by
  change Int32.ofInt a / Int32.ofInt b = _
  refine (Int32.ofInt_tdiv ?_ ?_ ?_ ?_).symm
  · exact ha.1
  · exact ha.2
  · exact hb.1
  · exact hb.2

/-! ### Natural numbers in `int` -/

theorem ofInt_add_nat (a b : ℕ) :
    Int32.ofInt a + Int32.ofInt b = Int32.ofInt ((a + b : ℕ) : ℤ) := by
  rw [← Int32.ofInt_add, Nat.cast_add]

theorem ofInt_mul_nat (a b : ℕ) :
    Int32.ofInt a * Int32.ofInt b = Int32.ofInt ((a * b : ℕ) : ℤ) := by
  rw [← Int32.ofInt_mul, Nat.cast_mul]

/-- The index of a thread in a grid of 256 threads a block. -/
theorem ofInt_thread (a b : ℕ) :
    Int32.ofInt a * Int32.ofInt 256 + Int32.ofInt b = Int32.ofInt ((a * 256 + b : ℕ) : ℤ) := by
  rw [← Int32.ofInt_mul, ← Int32.ofInt_add]
  push_cast
  rfl

/-- The remainder as the kernels compute it. -/
theorem sub_div_mul (a b : ℕ) : (a : ℤ) - ((a / b : ℕ) : ℤ) * b = ((a % b : ℕ) : ℤ) := by
  have h := Nat.div_add_mod' a b
  zify at h ⊢
  omega

theorem ofInt_sub_div_mul (a b : ℕ) :
    Int32.ofInt a - Int32.ofInt ((a / b * b : ℕ) : ℤ) = Int32.ofInt ((a % b : ℕ) : ℤ) := by
  rw [← Int32.ofInt_sub, Nat.cast_mul, sub_div_mul]

theorem quot_ofInt_nat {a b : ℕ} (ha : a ≤ 2147483647) (hb : b ≤ 2147483647) :
    quot (Int32.ofInt a) (Int32.ofInt b) = Int32.ofInt ((a / b : ℕ) : ℤ) :=
  quot_ofInt (fits_natCast.mpr ha) (fits_natCast.mpr hb)

theorem rem_ofInt_nat {a b : ℕ} (ha : a ≤ 2147483647) (hb : b ≤ 2147483647) :
    rem (Int32.ofInt a) (Int32.ofInt b) = Int32.ofInt ((a % b : ℕ) : ℤ) := by
  change Int32.ofInt a % Int32.ofInt b = Int32.ofInt ((a : ℤ).tmod b)
  have ha' := fits_natCast.mpr ha
  have hb' := fits_natCast.mpr hb
  exact (Int32.ofInt_tmod ha'.1 ha'.2 hb'.1 hb'.2).symm

theorem less_ofInt_nat {a b : ℕ} (ha : a ≤ 2147483647) (hb : b ≤ 2147483647) :
    less (Int32.ofInt a) (Int32.ofInt b) = decide (a < b) := by
  rw [less_ofInt (fits_natCast.mpr ha) (fits_natCast.mpr hb), decide_eq_decide, Nat.cast_lt]

/-- Index expressions: the list of the values that a thread computes, over any type of integers. -/
abbrev Indices : Type 1 := ∀ (α : Type) [Add α] [Sub α] [Mul α] [Ops α], List α

/-- **Exactness.** Every value computed in `int` is the mathematical one. -/
def Exact (f : Indices) : Prop := (f Int32).map Int32.toInt = f ℤ

instance (f : Indices) : Decidable (Exact f) := inferInstanceAs (Decidable (_ = _))

/-- The values of an exact computation fit. -/
theorem Exact.fits {f : Indices} (h : Exact f) : ∀ z ∈ f ℤ, Fits z := by
  intro z hz
  rw [← h] at hz
  obtain ⟨x, -, rfl⟩ := List.mem_map.mp hz
  have h1 := x.toInt_lt
  have h2 := x.le_toInt
  exact ⟨by omega, by omega⟩

/-- **Exactness is a bound on the mathematical values**, for expressions whose reading in `int` is
the reduction of the mathematical one. -/
theorem exact_iff_fits {f : Indices} (h : f Int32 = (f ℤ).map Int32.ofInt) :
    Exact f ↔ ∀ z ∈ f ℤ, Fits z := by
  refine ⟨Exact.fits, fun hf => ?_⟩
  unfold Exact
  rw [h, List.map_map]
  exact (List.map_congr_left fun z hz => toInt_ofInt_iff.mpr (hf z hz)).trans (List.map_id _)

/-! ### Guards -/

/-- Values computed under a guard. -/
def guarded {α : Type} (guard : Bool) (values : List α) : List α := bif guard then values else []

@[simp] theorem mem_guarded {α : Type} {guard : Bool} {values : List α} {x : α} :
    x ∈ guarded guard values ↔ guard = true ∧ x ∈ values := by
  cases guard <;> simp [guarded]

@[simp] theorem map_guarded {α β : Type} (f : α → β) (guard : Bool) (values : List α) :
    (guarded guard values).map f = guarded guard (values.map f) := by
  cases guard <;> rfl

/-- A selection between two values that fit. -/
theorem cond_ofInt (b : Bool) (x y : ℤ) :
    (bif b then Int32.ofInt x else Int32.ofInt y) = Int32.ofInt (bif b then x else y) := by
  cases b <;> rfl

/-! ### Loop counters -/

section Counters

variable {α : Type} [Add α] [Sub α] [Mul α] [Ops α]

/-- `for (i = 0; …; i += step)`: the counter before the pass `i`. -/
def counter (step : α) : ℕ → α
  | 0 => lit 0
  | i + 1 => counter step i + step

/-- A loop over `[0, k)` in blocks: `k - offset > safe ? safe : k - offset`. -/
def blockAt (k safe offset : α) : α := bif less safe (k - offset) then safe else k - offset

/-- `offset += block`: the offset before the pass `i`. -/
def blockOffset (k safe : α) : ℕ → α
  | 0 => lit 0
  | i + 1 => blockOffset k safe i + blockAt k safe (blockOffset k safe i)

end Counters

theorem counter_int (step : ℤ) (i : ℕ) : counter step i = i * step := by
  induction i with
  | zero => simp [counter]
  | succ i ih =>
    rw [counter, ih]
    push_cast
    ring

theorem counter_ofInt (step : ℤ) (i : ℕ) :
    counter (Int32.ofInt step) i = Int32.ofInt (counter step i) := by
  induction i with
  | zero => rfl
  | succ i ih => rw [counter, counter, ih, Int32.ofInt_add]

theorem blockAt_int (k safe offset : ℤ) : blockAt k safe offset = min safe (k - offset) := by
  rw [blockAt, less_int, Bool.cond_decide]
  split <;> omega

theorem blockOffset_int {k safe : ℤ} (hk : 0 ≤ k) (hs : 0 ≤ safe) (i : ℕ) :
    blockOffset k safe i = min (i * safe) k := by
  induction i with
  | zero => simp [blockOffset, hk]
  | succ i ih =>
    have hi : ((i + 1 : ℕ) : ℤ) * safe = i * safe + safe := by
      push_cast
      ring
    rw [blockOffset, ih, hi, blockAt_int]
    omega

/-- The offsets of a loop in blocks never leave the range of its bound. -/
theorem blockOffset_ofInt {k safe : ℤ} (hk : 0 ≤ k) (hkf : Fits k) (hs : 0 ≤ safe) (hsf : Fits safe)
    (i : ℕ) : blockOffset (Int32.ofInt k) (Int32.ofInt safe) i =
      Int32.ofInt (blockOffset k safe i) ∧
    blockAt (Int32.ofInt k) (Int32.ofInt safe) (Int32.ofInt (blockOffset k safe i)) =
      Int32.ofInt (blockAt k safe (blockOffset k safe i)) := by
  have hblock : ∀ i, blockAt (Int32.ofInt k) (Int32.ofInt safe)
      (Int32.ofInt (blockOffset k safe i)) = Int32.ofInt (blockAt k safe (blockOffset k safe i)) := by
    intro i
    have hfit : Fits (k - blockOffset k safe i) := by
      rw [blockOffset_int hk hs]
      have hmul : 0 ≤ (i : ℤ) * safe := by positivity
      exact fits_of_nonneg (by omega) (by have := hkf.2; omega)
    unfold blockAt
    rw [← Int32.ofInt_sub, less_ofInt hsf hfit, less_int, cond_ofInt]
  refine ⟨?_, hblock i⟩
  induction i with
  | zero => rfl
  | succ i ih => rw [blockOffset, blockOffset, ih, hblock i, Int32.ofInt_add]

/-! ### Row-major offsets -/

/-- The offset of a position is at most the offset of the last one. -/
theorem offset_le {q r ld Q R : ℤ} (hq : q ≤ Q) (hr : r ≤ R) (hld : 0 ≤ ld) :
    q * ld + r ≤ Q * ld + R := by
  have := mul_le_mul_of_nonneg_right hq hld
  omega

end IndexArith
