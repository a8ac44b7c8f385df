import Mathlib.Algebra.BigOperators.Intervals
import Mathlib.Algebra.Order.BigOperators.Group.Finset
import Mathlib.Data.Nat.Digits.Lemmas
import Mathlib.Tactic

/-!
# Products by columns of digit products

The product of two numbers modulo `base ^ len` needs only the digit products below the diagonal:
column `d` collects the products of digits whose positions add up to `d` (`columns_modEq`). Column
sums are larger than a digit, and a carry chain turns them into digits of the same number
(`sum_carried`). Both hold of sums of products as well, as columns of summands add up.
-/

namespace DigitColumns

open Finset

/-- Digit `i` of a number. -/
def digit (base x i : ℕ) : ℕ := x / base ^ i % base

/-- Column `d` of the digit products of two numbers. -/
def column (base x y d : ℕ) : ℕ :=
  ∑ i ∈ range (d + 1), digit base x i * digit base y (d - i)

/-- The carry into column `d`. -/
def carry (base : ℕ) (columns : ℕ → ℕ) : ℕ → ℕ
  | 0 => 0
  | d + 1 => (columns d + carry base columns d) / base

/-- The digit that a carry chain leaves of column `d`. -/
def carried (base : ℕ) (columns : ℕ → ℕ) (d : ℕ) : ℕ := (columns d + carry base columns d) % base

variable {base len x y d : ℕ} {columns : ℕ → ℕ}

private theorem sum_modEq {n : ℕ} {s : Finset ℕ} {f g : ℕ → ℕ}
    (h : ∀ i ∈ s, f i ≡ g i [MOD n]) : ∑ i ∈ s, f i ≡ ∑ i ∈ s, g i [MOD n] := by
  induction s using Finset.induction_on with
  | empty => exact Nat.ModEq.rfl
  | insert i s hi ih =>
    rw [sum_insert hi, sum_insert hi]
    exact (h i (mem_insert_self i s)).add (ih fun j hj => h j (mem_insert_of_mem hj))

theorem digit_lt (hbase : 0 < base) (x i : ℕ) : digit base x i < base := Nat.mod_lt _ hbase

/-- A number is made of its digits. -/
theorem sum_digit (base len x : ℕ) :
    ∑ i ∈ range len, digit base x i * base ^ i = x % base ^ len := by
  induction len with
  | zero => simp [Nat.mod_one]
  | succ len ih =>
    rw [sum_range_succ, ih, digit, Nat.pow_succ, Nat.mod_mul, Nat.mul_comm]

/-- The products of digits at or above the diagonal do not count. -/
theorem sum_digit_mul (base len x y : ℕ) :
    ∑ d ∈ range len, column base x y d * base ^ d ≡
      (∑ i ∈ range len, digit base x i * base ^ i) * ∑ j ∈ range len, digit base y j * base ^ j
        [MOD base ^ len] := by
  have hcolumns : ∑ d ∈ range len, column base x y d * base ^ d =
      ∑ i ∈ range len, ∑ j ∈ range (len - i),
        digit base x i * base ^ i * (digit base y j * base ^ j) := by
    rw [← sum_range_diag_flip len fun i j => digit base x i * base ^ i * (digit base y j * base ^ j)]
    refine sum_congr rfl fun d _ => ?_
    rw [column, sum_mul]
    refine sum_congr rfl fun i hi => ?_
    have hi := mem_range.1 hi
    have hpow : base ^ d = base ^ i * base ^ (d - i) := by
      rw [← pow_add, Nat.add_sub_cancel' (by omega)]
    rw [hpow]
    ring
  rw [hcolumns, sum_mul]
  refine sum_modEq fun i hi => ?_
  have hi := mem_range.1 hi
  rw [mul_sum, ← sum_range_add_sum_Ico _ (Nat.sub_le len i)]
  refine (Nat.ModEq.add_left _ ((Nat.modEq_zero_iff_dvd).2 (dvd_sum fun j hj => ?_))).symm
  have hj := (mem_Ico.1 hj).1
  have hdvd : base ^ len ∣ base ^ i * base ^ j := by
    rw [← pow_add]
    exact pow_dvd_pow base (by omega)
  rw [mul_mul_mul_comm]
  exact Dvd.dvd.mul_left hdvd _

/-- **The columns below `len` give the product** modulo `base ^ len`. -/
theorem columns_modEq (base len x y : ℕ) :
    ∑ d ∈ range len, column base x y d * base ^ d ≡ x * y [MOD base ^ len] := by
  refine (sum_digit_mul base len x y).trans ?_
  rw [sum_digit, sum_digit]
  exact (Nat.mod_modEq x _).mul (Nat.mod_modEq y _)

/-- The columns of a sum of products. -/
theorem sum_columns_modEq (base len k : ℕ) (u v : ℕ → ℕ) :
    ∑ d ∈ range len, (∑ kk ∈ range k, column base (u kk) (v kk) d) * base ^ d ≡
      ∑ kk ∈ range k, u kk * v kk [MOD base ^ len] := by
  simp only [sum_mul]
  rw [sum_comm]
  exact sum_modEq fun kk _ => columns_modEq base len (u kk) (v kk)

/-- A column of `len` digits has at most `len` products. -/
theorem column_le (hbase : 0 < base) (hd : d < len) (x y : ℕ) :
    column base x y d ≤ len * ((base - 1) * (base - 1)) := by
  calc column base x y d ≤ ∑ _i ∈ range (d + 1), (base - 1) * (base - 1) :=
        sum_le_sum fun i _ => Nat.mul_le_mul (Nat.le_sub_one_of_lt (digit_lt hbase x i))
          (Nat.le_sub_one_of_lt (digit_lt hbase y (d - i)))
    _ = (d + 1) * ((base - 1) * (base - 1)) := by rw [sum_const, card_range, smul_eq_mul]
    _ ≤ len * ((base - 1) * (base - 1)) := Nat.mul_le_mul_right _ hd

theorem sum_column_le (hbase : 0 < base) (hd : d < len) (k : ℕ) (u v : ℕ → ℕ) :
    ∑ kk ∈ range k, column base (u kk) (v kk) d ≤ k * (len * ((base - 1) * (base - 1))) := by
  calc ∑ kk ∈ range k, column base (u kk) (v kk) d
      ≤ ∑ _kk ∈ range k, len * ((base - 1) * (base - 1)) :=
        sum_le_sum fun kk _ => column_le hbase hd (u kk) (v kk)
    _ = k * (len * ((base - 1) * (base - 1))) := by rw [sum_const, card_range, smul_eq_mul]

/-! ### Carries -/

theorem carried_lt (hbase : 0 < base) (columns : ℕ → ℕ) (d : ℕ) : carried base columns d < base :=
  Nat.mod_lt _ hbase

/-- **A carry chain keeps the number**: its digits and its last carry make up the columns. -/
theorem sum_carried (base len : ℕ) (columns : ℕ → ℕ) :
    ∑ d ∈ range len, carried base columns d * base ^ d + carry base columns len * base ^ len =
      ∑ d ∈ range len, columns d * base ^ d := by
  induction len with
  | zero => simp [carry]
  | succ len ih =>
    have hsplit := Nat.mod_add_div (columns len + carry base columns len) base
    rw [sum_range_succ, sum_range_succ, ← ih, carry, carried, pow_succ]
    calc _ = ∑ d ∈ range len, carried base columns d * base ^ d +
          ((columns len + carry base columns len) % base +
            base * ((columns len + carry base columns len) / base)) * base ^ len := by ring
      _ = _ := by rw [hsplit]; ring

/-- Digits make a number below the power of their count. -/
theorem sum_digits_lt {digits : ℕ → ℕ} (hdigits : ∀ d < len, digits d < base) :
    ∑ d ∈ range len, digits d * base ^ d < base ^ len := by
  induction len with
  | zero => simp
  | succ len ih =>
    have hlow := ih fun d hd => hdigits d (by omega)
    have htop : digits len + 1 ≤ base := hdigits len (by omega)
    rw [sum_range_succ, pow_succ]
    calc _ < base ^ len + digits len * base ^ len := Nat.add_lt_add_right hlow _
      _ = (digits len + 1) * base ^ len := by ring
      _ ≤ base * base ^ len := Nat.mul_le_mul_right _ htop
      _ = base ^ len * base := Nat.mul_comm _ _

/-- **The digits of a carry chain** are those of the columns modulo `base ^ len`. -/
theorem sum_carried_eq (hbase : 0 < base) (len : ℕ) (columns : ℕ → ℕ) :
    ∑ d ∈ range len, carried base columns d * base ^ d =
      (∑ d ∈ range len, columns d * base ^ d) % base ^ len := by
  rw [← sum_carried base len columns, Nat.add_mul_mod_self_right, Nat.mod_eq_of_lt]
  exact sum_digits_lt fun d _ => carried_lt hbase columns d

/-- A digit that a carry chain leaves is a digit of the number. -/
theorem carried_eq_digit (hbase : 0 < base) {z : ℕ} (hd : d < len)
    (h : ∑ d ∈ range len, columns d * base ^ d ≡ z [MOD base ^ len]) :
    carried base columns d = digit base z d := by
  have hpow : 0 < base ^ d := Nat.pow_pos hbase
  have hshort : ∑ e ∈ range (d + 1), carried base columns e * base ^ e = z % base ^ (d + 1) := by
    rw [sum_carried_eq hbase]
    have hrest : ∑ e ∈ range (d + 1), columns e * base ^ e ≡ ∑ e ∈ range len, columns e * base ^ e
        [MOD base ^ (d + 1)] := by
      rw [← sum_range_add_sum_Ico _ (Nat.succ_le_of_lt hd)]
      refine (Nat.ModEq.add_left _ ((Nat.modEq_zero_iff_dvd).2 (dvd_sum fun e he => ?_))).symm
      exact Dvd.dvd.mul_left (pow_dvd_pow base (mem_Ico.1 he).1) _
    exact hrest.trans (h.of_dvd (pow_dvd_pow base hd))
  have hlow : ∑ e ∈ range d, carried base columns e * base ^ e < base ^ d :=
    sum_digits_lt fun e _ => carried_lt hbase columns e
  rw [sum_range_succ] at hshort
  have hdigit : digit base z d = z % base ^ (d + 1) / base ^ d := by
    rw [digit, pow_succ, Nat.mod_mul_right_div_self]
  rw [hdigit, ← hshort, Nat.add_mul_div_right _ _ hpow, Nat.div_eq_of_lt hlow, Nat.zero_add]

/-- The carry into a column is bounded by what the columns can send. -/
theorem carry_le {bound : ℕ} (hbase : 2 ≤ base) (hcolumns : ∀ e < d, columns e ≤ bound) :
    carry base columns d ≤ bound := by
  induction d with
  | zero => exact Nat.zero_le _
  | succ d ih =>
    have hprev := ih fun e he => hcolumns e (by omega)
    have hcol := hcolumns d (by omega)
    rw [carry]
    calc (columns d + carry base columns d) / base ≤ (columns d + carry base columns d) / 2 :=
          Nat.div_le_div_left hbase (by decide)
      _ ≤ bound := by omega

end DigitColumns
