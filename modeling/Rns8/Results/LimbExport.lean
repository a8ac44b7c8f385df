import Rns8.Reconstruct.Limbs

/-!
# Limb export is exact two's complement

The two exact-wide exports as functions of the integer that the residues stand for. `LimbExport` says
what an export is: it succeeds exactly on the integers that the limbs hold, its words decode to the
integer, more limbs extend the words, and nothing else is written.
-/

namespace Rns8

open WordLimbs

/-- The export `run` of the integer `x` into a buffer: `fits` is its range, `decode` reads the limbs
back and `extension` is the word above the integer. -/
structure LimbExport (run : (ℕ → UInt64) → ℕ → Status × (ℕ → UInt64)) (fits : ℕ → Prop)
    (decode : (ℕ → ℤ) → ℕ → ℤ) (extension : UInt64) (x : ℤ) : Prop where
  success_iff : ∀ out limbCount, 0 < limbCount → limbCount ≤ 32 →
    ((run out limbCount).1 = .success ↔ fits limbCount)
  decodes : ∀ out limbCount, (run out limbCount).1 = .success →
    decode (fun i => ((run out limbCount).2 i).toNat) limbCount = x
  extends_success : ∀ out limbCount out' more, (run out limbCount).1 = .success →
    limbCount ≤ more → more ≤ 32 → (run out' more).1 = .success
  low_words : ∀ out limbCount out' more, (run out limbCount).1 = .success →
    (run out' more).1 = .success → ∀ i < limbCount, i < more →
      (run out' more).2 i = (run out limbCount).2 i
  high_words : ∀ out limbCount out' more, (run out limbCount).1 = .success →
    (run out' more).1 = .success → ∀ i, limbCount ≤ i → i < more →
      (run out' more).2 i = extension
  outside : ∀ out limbCount i, limbCount ≤ i → (run out limbCount).2 i = out i
  unwritten : ∀ out limbCount, (run out limbCount).1 ≠ .success → (run out limbCount).2 = out

/-! ### One rule for both exports -/

/-- **The rule of a limb export**: a run that stores the words of `x` when `x` fits, and nothing
otherwise, is a limb export of `x`, if what fits decodes and extends. -/
theorem LimbExport.of_words {run : (ℕ → UInt64) → ℕ → Status × (ℕ → UInt64)} {fits : ℕ → Prop}
    {decode : (ℕ → ℤ) → ℕ → ℤ} {extension : UInt64} {x : ℤ}
    (hrun : ∀ out limbCount, ((run out limbCount).1 = .success ∧ 0 < limbCount ∧ limbCount ≤ 32 ∧
        fits limbCount ∧ (∀ i < limbCount, (((run out limbCount).2 i).toNat : ℤ) = word 64 x i) ∧
        ∀ i, limbCount ≤ i → (run out limbCount).2 i = out i) ∨
      ((run out limbCount).1 ≠ .success ∧
        (0 < limbCount → limbCount ≤ 32 → ¬ fits limbCount) ∧ (run out limbCount).2 = out))
    (hcongr : ∀ (f g : ℕ → ℤ) n, (∀ i < n, f i = g i) → decode f n = decode g n)
    (hdecode : ∀ n, 0 < n → fits n → decode (word 64 x) n = x)
    (hmono : ∀ n more, 0 < n → fits n → n ≤ more → fits more)
    (hext : ∀ n i, 0 < n → fits n → n ≤ i → word 64 x i = extension.toNat) :
    LimbExport run fits decode extension x := by
  -- what a success says: the words of `x`, and that they fit
  have hok : ∀ out limbCount, (run out limbCount).1 = .success → 0 < limbCount ∧ fits limbCount ∧
      (∀ i < limbCount, (((run out limbCount).2 i).toNat : ℤ) = word 64 x i) := by
    intro out limbCount h
    rcases hrun out limbCount with ⟨-, hpos, -, hfits, hwords, -⟩ | ⟨hno, -⟩
    · exact ⟨hpos, hfits, hwords⟩
    · exact absurd h hno
  refine ⟨?_, ?_, ?_, ?_, ?_, ?_, ?_⟩
  · intro out limbCount hpos hle
    rcases hrun out limbCount with ⟨hst, -, -, hfits, -⟩ | ⟨hno, hnot, -⟩
    · exact iff_of_true hst hfits
    · exact iff_of_false hno (hnot hpos hle)
  · intro out limbCount h
    obtain ⟨hpos, hfits, hwords⟩ := hok out limbCount h
    rw [hcongr _ _ limbCount hwords, hdecode limbCount hpos hfits]
  · intro out limbCount out' more h hle hmore
    obtain ⟨hpos, hfits, -⟩ := hok out limbCount h
    rcases hrun out' more with ⟨hst, -⟩ | ⟨-, hnot, -⟩
    · exact hst
    · exact absurd (hmono limbCount more hpos hfits hle) (hnot (by omega) hmore)
  · intro out limbCount out' more h h' i hi hi'
    have hword := (hok out limbCount h).2.2 i hi
    rw [← (hok out' more h').2.2 i hi'] at hword
    exact UInt64.toNat_inj.1 (by exact_mod_cast hword.symm)
  · intro out limbCount out' more h h' i hi hi'
    obtain ⟨hpos, hfits, -⟩ := hok out limbCount h
    have hword := (hok out' more h').2.2 i hi'
    rw [hext limbCount i hpos hfits hi] at hword
    exact UInt64.toNat_inj.1 (by exact_mod_cast hword)
  · intro out limbCount i hi
    rcases hrun out limbCount with ⟨-, -, -, -, -, hout⟩ | ⟨-, -, hout⟩
    · exact hout i hi
    · rw [hout]
  · intro out limbCount h
    rcases hrun out limbCount with ⟨hst, -⟩ | ⟨-, -, hout⟩
    · exact absurd hst h
    · exact hout

/-! ### The two exports -/

section Exports

variable {residues : Array Int8} {p : ℕ} {x : ℤ}

/-- A run that stores the words of a cell does what a limb export does, if the cell holds the words of
`x` exactly when they fit. -/
theorem storeWords_run {cell : Except Status (ℕ → UInt64)} {fits : ℕ → Prop} {limbCount : ℕ}
    (hcell : 0 < limbCount ∧ limbCount ≤ 32 →
      (fits limbCount → ∃ words, cell = .ok words ∧
        ∀ i < limbCount, ((words i).toNat : ℤ) = word 64 x i) ∧
      (¬ fits limbCount → cell = .error .rangeError))
    (hargs : ¬ (0 < limbCount ∧ limbCount ≤ 32) → cell = .error .invalidArgument)
    (out : ℕ → UInt64) :
    ((storeWords limbCount out cell).1 = .success ∧ 0 < limbCount ∧ limbCount ≤ 32 ∧
      fits limbCount ∧
      (∀ i < limbCount, (((storeWords limbCount out cell).2 i).toNat : ℤ) = word 64 x i) ∧
      ∀ i, limbCount ≤ i → (storeWords limbCount out cell).2 i = out i) ∨
    ((storeWords limbCount out cell).1 ≠ .success ∧
      (0 < limbCount → limbCount ≤ 32 → ¬ fits limbCount) ∧
      (storeWords limbCount out cell).2 = out) := by
  by_cases hlimbs : 0 < limbCount ∧ limbCount ≤ 32
  · obtain ⟨hyes, hno⟩ := hcell hlimbs
    by_cases hfits : fits limbCount
    · obtain ⟨words, rfl, hwords⟩ := hyes hfits
      refine Or.inl ⟨rfl, hlimbs.1, hlimbs.2, hfits, fun i hi => ?_, fun i hi => if_neg (by omega)⟩
      rw [← hwords i hi]
      exact congrArg (fun w : UInt64 => (w.toNat : ℤ)) (if_pos hi)
    · rw [hno hfits]
      exact Or.inr ⟨nofun, fun _ _ => hfits, rfl⟩
  · rw [hargs hlimbs]
    exact Or.inr ⟨nofun, fun h0 hle => absurd ⟨h0, hle⟩ hlimbs, rfl⟩

theorem exportExactWideUnsignedLimbsInto_limbExport (hp0 : 0 < p) (hp : p ≤ maxSupportedPrefix)
    (hsize : p ≤ residues.size) (hx : CanonicalValue residues p x) :
    LimbExport (exportExactWideUnsignedLimbsInto residues p) (FitsUnsigned x) (value 64) 0 x := by
  refine LimbExport.of_words (fun out limbCount => ?_) (fun f g n h => value_congr h)
    (fun n _ h => value_word_of_fits h.1 h.2)
    (fun n more _ h hle => ⟨h.1, h.2.trans_le
      (pow_le_pow_right₀ (by norm_num) (Nat.mul_le_mul_left 64 hle))⟩)
    (fun n i _ h hi => word_eq_zero h.1 h.2 hi)
  rw [exportExactWideUnsignedLimbsInto_eq_store, if_neg (by omega)]
  refine storeWords_run (fun hlimbs => ?_) (fun hlimbs => if_pos (by omega)) out
  exact exportExactWideUnsignedLimbs_of_value ⟨hp0, hp⟩ hlimbs (hx.eq_reconstruct hp)

theorem exportExactWideSignedLimbsInto_limbExport (hp0 : 0 < p) (hp : p ≤ maxSupportedPrefix)
    (hsize : p ≤ residues.size) (hx : CenteredValue residues p x) :
    LimbExport (exportExactWideSignedLimbsInto residues p) (FitsSigned x) (signed 64)
      (if x < 0 then 0xffffffffffffffff else 0) x := by
  refine LimbExport.of_words (fun out limbCount => ?_) (fun f g n h => signed_congr h)
    (fun n hn h => signed_word_of_fits (by omega) h.1 h.2) (fun n more hn h hle => ?_)
    (fun n i hn h hi => ?_)
  · rw [exportExactWideSignedLimbsInto_eq_store, if_neg (by omega)]
    refine storeWords_run (fun hlimbs => ?_) (fun hlimbs => if_pos (by omega)) out
    exact exportExactWideSignedLimbs_of_value ⟨hp0, hp⟩ hlimbs (hx.eq_reconstruct hp)
  · have hpow : (2 : ℤ) ^ (64 * n - 1) ≤ 2 ^ (64 * more - 1) :=
      pow_le_pow_right₀ (by norm_num) (by omega)
    exact ⟨by have := h.1; omega, by have := h.2; omega⟩
  · rw [word_of_fits (by omega) h.1 h.2 hi]
    split <;> rfl

end Exports

/-- **Limb export is exact two's complement.** The residues of a prefix stand for one centered and one
canonical integer, and the two exports are limb exports of these. Whatever the arguments, a call that
does not succeed writes nothing. -/
theorem exactWideLimbs_twosComplement (residues : Array Int8) (p : ℕ) :
    (0 < p ∧ p ≤ maxSupportedPrefix ∧ p ≤ residues.size →
      (∃! x, CenteredValue residues p x) ∧ (∃! x, CanonicalValue residues p x) ∧
      (∀ x, CenteredValue residues p x →
        LimbExport (exportExactWideSignedLimbsInto residues p) (FitsSigned x) (signed 64)
          (if x < 0 then 0xffffffffffffffff else 0) x) ∧
      ∀ x, CanonicalValue residues p x →
        LimbExport (exportExactWideUnsignedLimbsInto residues p) (FitsUnsigned x) (value 64) 0 x) ∧
    ∀ out limbCount,
      ((exportExactWideSignedLimbsInto residues p out limbCount).1 ≠ .success →
        (exportExactWideSignedLimbsInto residues p out limbCount).2 = out) ∧
      ((exportExactWideUnsignedLimbsInto residues p out limbCount).1 ≠ .success →
        (exportExactWideUnsignedLimbsInto residues p out limbCount).2 = out) := by
  constructor
  · rintro ⟨hp0, hp, hsize⟩
    refine ⟨⟨_, centeredValue_reconstruct residues hp, fun y hy => (hy.eq_reconstruct hp).symm⟩,
      ⟨_, canonicalValue_reconstruct residues hp, fun y hy => (hy.eq_reconstruct hp).symm⟩,
      fun x hx => exportExactWideSignedLimbsInto_limbExport hp0 hp hsize hx,
      fun x hx => exportExactWideUnsignedLimbsInto_limbExport hp0 hp hsize hx⟩
  · intro out limbCount
    constructor
    · rw [exportExactWideSignedLimbsInto_eq_store]
      exact storeWords_of_ne_success
    · rw [exportExactWideUnsignedLimbsInto_eq_store]
      exact storeWords_of_ne_success

end Rns8
