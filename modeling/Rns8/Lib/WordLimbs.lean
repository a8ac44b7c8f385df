import Mathlib.Data.Int.ModEq
import Mathlib.Tactic

/-!
# Integers as words

The little-endian words of an integer of any size: `word w x i` is word `i` of the two's complement
form of `x`, whatever the number of words. `value` and `signed` read `n` words back as an unsigned or
a two's complement number.
-/

namespace WordLimbs

variable {w n : ℕ} {x : ℤ}

/-- Word `i` of width `w` of the two's complement form of an integer. -/
def word (w : ℕ) (x : ℤ) (i : ℕ) : ℤ := x / 2 ^ (w * i) % 2 ^ w

/-- The unsigned number that `n` words hold, low word first. -/
def value (w : ℕ) (words : ℕ → ℤ) : ℕ → ℤ
  | 0 => 0
  | n + 1 => value w words n + words n * 2 ^ (w * n)

/-- The two's complement number that `n` words hold. -/
def signed (w : ℕ) (words : ℕ → ℤ) (n : ℕ) : ℤ :=
  if 2 * value w words n < 2 ^ (w * n) then value w words n else value w words n - 2 ^ (w * n)

theorem value_congr {f g : ℕ → ℤ} (h : ∀ i < n, f i = g i) : value w f n = value w g n := by
  induction n with
  | zero => rfl
  | succ n ih =>
    rw [value, value, ih fun i hi => h i (by omega), h n (by omega)]

theorem signed_congr {f g : ℕ → ℤ} (h : ∀ i < n, f i = g i) : signed w f n = signed w g n := by
  unfold signed
  rw [value_congr h]

/-- A digit more of a mixed quotient and remainder. -/
private theorem emod_mul_pow (x a b : ℤ) (ha : 0 < a) (hb : 0 < b) :
    x % (a * b) = x % a + x / a % b * a := by
  have h1 := Int.emod_add_mul_ediv x a
  have h2 := Int.emod_add_mul_ediv (x / a) b
  have h3 := Int.emod_nonneg x ha.ne'
  have h4 := Int.emod_lt_of_pos x ha
  have h5 := Int.emod_nonneg (x / a) hb.ne'
  have h6 := Int.emod_lt_of_pos (x / a) hb
  have heq : x = (x % a + x / a % b * a) + a * b * (x / a / b) := by
    calc x = x % a + a * (x / a) := h1.symm
      _ = x % a + a * (x / a % b + b * (x / a / b)) := by rw [h2]
      _ = (x % a + x / a % b * a) + a * b * (x / a / b) := by ring
  have hhi : x / a % b * a ≤ (b - 1) * a := Int.mul_le_mul_of_nonneg_right (by omega) ha.le
  have hexp : (b - 1) * a = a * b - a := by ring
  conv_lhs => rw [heq]
  rw [Int.add_mul_emod_self_left, Int.emod_eq_of_lt]
  · exact add_nonneg h3 (Int.mul_nonneg h5 ha.le)
  · omega

/-- **The words of an integer hold its remainder.** -/
theorem value_word (w : ℕ) (x : ℤ) (n : ℕ) : value w (word w x) n = x % 2 ^ (w * n) := by
  induction n with
  | zero => simp [value]
  | succ n ih =>
    rw [value, ih, word, Nat.mul_succ, pow_add, emod_mul_pow x _ _ (by positivity) (by positivity)]

/-- An integer in the unsigned range is held by its words. -/
theorem value_word_of_fits (h0 : 0 ≤ x) (h : x < 2 ^ (w * n)) : value w (word w x) n = x := by
  rw [value_word, Int.emod_eq_of_lt h0 h]

private theorem two_mul_half (hpos : 0 < w * n) : (2 : ℤ) * 2 ^ (w * n - 1) = 2 ^ (w * n) := by
  obtain ⟨k, hk⟩ := Nat.exists_eq_succ_of_ne_zero hpos.ne'
  rw [hk, Nat.succ_sub_one, pow_succ]
  ring

/-- **An integer in the two's complement range is held by its words.** -/
theorem signed_word_of_fits (hpos : 0 < w * n) (hlo : -2 ^ (w * n - 1) ≤ x)
    (hhi : x < 2 ^ (w * n - 1)) : signed w (word w x) n = x := by
  have hhalf := two_mul_half hpos
  unfold signed
  rw [value_word]
  rcases lt_or_ge x 0 with hneg | hneg
  · have hmod : x % 2 ^ (w * n) = x + 2 ^ (w * n) := by
      rw [← Int.add_emod_right, Int.emod_eq_of_lt (by omega) (by omega)]
    rw [hmod, if_neg (by omega)]
    omega
  · rw [Int.emod_eq_of_lt hneg (by omega), if_pos (by omega)]

/-- Adding the wrap leaves the words. -/
theorem word_add_pow {i : ℕ} (hi : i < n) (x : ℤ) : word w (x + 2 ^ (w * n)) i = word w x i := by
  obtain ⟨k, rfl⟩ : ∃ k, n = i + 1 + k := ⟨n - (i + 1), by omega⟩
  have hsplit : (2 : ℤ) ^ (w * (i + 1 + k)) = 2 ^ (w * i) * (2 ^ w * 2 ^ (w * k)) := by
    rw [← pow_add, ← pow_add]
    congr 1
    ring
  unfold word
  rw [hsplit, Int.add_mul_ediv_left _ _ (by positivity), Int.add_mul_emod_self_left]

/-- **Sign extension.** Above the words that hold an integer, all words are its sign. -/
theorem word_of_fits (hpos : 0 < w * n) (hlo : -2 ^ (w * n - 1) ≤ x) (hhi : x < 2 ^ (w * n - 1))
    {i : ℕ} (hi : n ≤ i) : word w x i = if x < 0 then 2 ^ w - 1 else 0 := by
  have hhalf := two_mul_half hpos
  have hle : (2 : ℤ) ^ (w * n) ≤ 2 ^ (w * i) :=
    pow_le_pow_right₀ (by norm_num) (Nat.mul_le_mul_left w hi)
  have hword : (1 : ℤ) ≤ 2 ^ w := one_le_pow₀ (by norm_num)
  unfold word
  split
  · next hneg =>
    have hdiv : x / 2 ^ (w * i) = -1 := Int.ediv_eq_neg_one_of_neg_of_le hneg (by omega)
    rw [hdiv, ← Int.add_emod_right, Int.emod_eq_of_lt (by omega) (by omega)]
    omega
  · next hneg =>
    rw [Int.ediv_eq_zero_of_lt (by omega) (by omega), Int.zero_emod]

/-- **Zero extension.** Above the words that hold a natural number, all words are zero. -/
theorem word_eq_zero (h0 : 0 ≤ x) (h : x < 2 ^ (w * n)) {i : ℕ} (hi : n ≤ i) : word w x i = 0 := by
  have hle : (2 : ℤ) ^ (w * n) ≤ 2 ^ (w * i) :=
    pow_le_pow_right₀ (by norm_num) (Nat.mul_le_mul_left w hi)
  unfold word
  rw [Int.ediv_eq_zero_of_lt h0 (by omega), Int.zero_emod]

end WordLimbs
