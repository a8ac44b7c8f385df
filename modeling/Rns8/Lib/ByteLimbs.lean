import Mathlib.Algebra.BigOperators.Group.Finset.Basic
import Mathlib.Tactic

/-!
# Little-endian byte limbs of 64-bit words

`limb v l` is byte `l` of the word `v` and `load` reassembles a word from eight bytes, both with the
shifts and masks of the machine. They are inverse to each other (`load_limb`, `limb_load`).
-/

namespace ByteLimbs

/-- Byte `l` of the word. -/
def limb (v : UInt64) (l : ℕ) : UInt8 := ((v >>> UInt64.ofNat (8 * l)) &&& 0xff).toUInt8

/-- The word made of the first `n` bytes. -/
def loadFirst (limbs : ℕ → UInt8) : ℕ → UInt64
  | 0 => 0
  | n + 1 => loadFirst limbs n ||| ((limbs n).toUInt64 <<< UInt64.ofNat (8 * n))

/-- The word made of eight bytes. -/
def load (limbs : ℕ → UInt8) : UInt64 := loadFirst limbs 8

/-- A word depends on its eight bytes only. -/
theorem load_congr {f f' : ℕ → UInt8} (h : ∀ l < 8, f l = f' l) : load f = load f' := by
  simp only [load, loadFirst, h 0 (by omega), h 1 (by omega), h 2 (by omega), h 3 (by omega),
    h 4 (by omega), h 5 (by omega), h 6 (by omega), h 7 (by omega)]

theorem limb_toNat (v : UInt64) {l : ℕ} (hl : l < 8) :
    (limb v l).toNat = v.toNat / 2 ^ (8 * l) % 256 := by
  have hshift : 8 * l % 2 ^ 64 % 64 = 8 * l := by omega
  have hmask : (255 : UInt64).toNat = 2 ^ 8 - 1 := rfl
  simp only [limb, UInt64.toNat_toUInt8, UInt64.toNat_and, UInt64.toNat_shiftRight,
    UInt64.toNat_ofNat', hshift, Nat.shiftRight_eq_div_pow]
  rw [hmask, Nat.and_two_pow_sub_one_eq_mod]
  omega

private theorem two_pow_succ_limb (n : ℕ) : 2 ^ (8 * (n + 1)) = 256 * 2 ^ (8 * n) := by
  rw [Nat.mul_succ, pow_add]; ring

/-- Each byte goes on top of the bytes below it. -/
theorem loadFirst_succ_toNat (limbs : ℕ → UInt8) {n : ℕ} (hn : n < 8)
    (hlow : (loadFirst limbs n).toNat < 2 ^ (8 * n)) :
    (loadFirst limbs (n + 1)).toNat =
      (limbs n).toNat * 2 ^ (8 * n) + (loadFirst limbs n).toNat := by
  have hshift : 8 * n % 2 ^ 64 % 64 = 8 * n := by omega
  have hbyte : (limbs n).toNat < 256 := (limbs n).toNat_lt
  have htop : (limbs n).toNat * 2 ^ (8 * n) < 2 ^ 64 := by
    calc (limbs n).toNat * 2 ^ (8 * n) < 256 * 2 ^ (8 * n) :=
          Nat.mul_lt_mul_of_pos_right hbyte (by positivity)
      _ = 2 ^ (8 * (n + 1)) := (two_pow_succ_limb n).symm
      _ ≤ 2 ^ 64 := Nat.pow_le_pow_right (by norm_num) (by omega)
  simp only [loadFirst, UInt64.toNat_or, UInt64.toNat_shiftLeft, UInt64.toNat_ofNat', hshift,
    UInt8.toNat_toUInt64, Nat.shiftLeft_eq, Nat.mod_eq_of_lt htop]
  rw [Nat.or_comm, ← Nat.shiftLeft_eq, Nat.shiftLeft_add_eq_or_of_lt hlow]

theorem loadFirst_lt (limbs : ℕ → UInt8) {n : ℕ} (hn : n ≤ 8) :
    (loadFirst limbs n).toNat < 2 ^ (8 * n) := by
  induction n with
  | zero => simp [loadFirst]
  | succ n ih =>
    have hlow := ih (by omega)
    have hbyte : (limbs n).toNat < 256 := (limbs n).toNat_lt
    rw [loadFirst_succ_toNat limbs (by omega) hlow, two_pow_succ_limb]
    nlinarith

/-- The bytes of a word are its digits. -/
theorem loadFirst_toNat (limbs : ℕ → UInt8) {n : ℕ} (hn : n ≤ 8) :
    (loadFirst limbs n).toNat = ∑ l ∈ Finset.range n, (limbs l).toNat * 256 ^ l := by
  induction n with
  | zero => simp [loadFirst]
  | succ n ih =>
    rw [loadFirst_succ_toNat limbs (by omega) (loadFirst_lt limbs (by omega)), ih (by omega),
      Finset.sum_range_succ, pow_mul, Nat.add_comm]
    norm_num

/-- The low bytes of a word make its low part. -/
theorem loadFirst_limb_toNat (v : UInt64) {n : ℕ} (hn : n ≤ 8) :
    (loadFirst (limb v) n).toNat = v.toNat % 2 ^ (8 * n) := by
  induction n with
  | zero => simp [loadFirst, Nat.mod_one]
  | succ n ih =>
    rw [loadFirst_succ_toNat _ (by omega) (loadFirst_lt _ (by omega)), ih (by omega),
      limb_toNat v (by omega), two_pow_succ_limb, Nat.mul_comm 256, Nat.mod_mul]
    ring

/-- **Round trip.** The bytes of a word make the word. -/
theorem load_limb (v : UInt64) : load (limb v) = v := by
  have h := loadFirst_limb_toNat v (le_refl 8)
  rw [Nat.mod_eq_of_lt (by simpa using v.toNat_lt)] at h
  exact UInt64.toNat_inj.1 h

theorem loadFirst_digit (limbs : ℕ → UInt8) {n l : ℕ} (hn : n ≤ 8) (hl : l < n) :
    (loadFirst limbs n).toNat / 2 ^ (8 * l) % 256 = (limbs l).toNat := by
  induction n with
  | zero => omega
  | succ n ih =>
    have hlow := loadFirst_lt limbs (n := n) (by omega)
    rw [loadFirst_succ_toNat _ (by omega) hlow]
    rcases Nat.lt_or_ge l n with hln | hge
    · obtain ⟨d, rfl⟩ : ∃ d, n = l + 1 + d := ⟨n - (l + 1), by omega⟩
      rw [← ih (by omega) hln]
      have hsplit : 2 ^ (8 * (l + 1 + d)) = 2 ^ (8 * l) * (256 * 2 ^ (8 * d)) := by
        rw [Nat.mul_add, pow_add, two_pow_succ_limb]; ring
      rw [hsplit, Nat.mul_left_comm, Nat.mul_add_div (by positivity), Nat.mul_left_comm,
        Nat.mul_add_mod]
    · obtain rfl : l = n := by omega
      rw [Nat.mul_comm, Nat.mul_add_div (by positivity), Nat.div_eq_of_lt hlow, Nat.add_zero,
        Nat.mod_eq_of_lt (limbs l).toNat_lt]

/-- **Round trip.** The word made of eight bytes has these bytes. -/
theorem limb_load (limbs : ℕ → UInt8) {l : ℕ} (hl : l < 8) : limb (load limbs) l = limbs l :=
  UInt8.toNat_inj.1 ((limb_toNat _ hl).trans (loadFirst_digit limbs (le_refl 8) hl))

end ByteLimbs
