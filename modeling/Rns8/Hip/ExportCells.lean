import Rns8.Hip.Garner

/-!
# Export cells on the device

The per-cell routines of `hip_direct_export_kernels.cuh`, on the memory that an export kernel writes:
the staging buffer and the range status word. Each routine agrees with the host export of the same
residues: it writes the host's words, or raises the range status where the host reports a range
error.
-/

namespace Rns8

/-! ### The memory of an export kernel -/

/-- The memory that an export kernel writes. A null `status` pointer is `none`. -/
structure ExportMemory (β : Type) where
  dst : ℕ → β
  status : Option ℤ

namespace ExportMemory

variable {β : Type}

/-- `dst[index] = value`. -/
def write (mem : ExportMemory β) (index : ℕ) (value : β) : ExportMemory β :=
  { mem with dst := Function.update mem.dst index value }

/-- `if (status) atomicCAS(status, 0, 5)`. -/
def raiseIfPresent (mem : ExportMemory β) : ExportMemory β :=
  { mem with status := mem.status.map fun v => if v = 0 then 5 else v }

/-- `atomicCAS(status, 0, 5)`, a fault (`none`) on a null pointer. -/
def raise (mem : ExportMemory β) : Option (ExportMemory β) :=
  if mem.status.isNone then none else some mem.raiseIfPresent

/-- The words of a cell in a limb buffer. -/
def writeWords (mem : ExportMemory β) (base count : ℕ) (words : ℕ → β) : ExportMemory β :=
  { mem with dst := fun o => if base ≤ o ∧ o < base + count then words (o - base) else mem.dst o }

end ExportMemory

/-! ### Bounded cells -/

/-- `rns8_export_i64_cell_device` on a reconstructed value. -/
def exportI64ValueDevice (cell : ℕ) (x product : U192) (bound : UInt64)
    (mem : ExportMemory Int64) : ExportMemory Int64 :=
  if u192CenteredIsNegative x product then
    let magnitude := u192Sub product x
    let int64MinMagnitude : UInt64 := 0x8000000000000000
    if u192GtU64 magnitude bound || u192GtU64 magnitude int64MinMagnitude then mem.raiseIfPresent
    else if magnitude.limb0 = int64MinMagnitude then mem.write cell Int64.minValue
    else mem.write cell (-magnitude.limb0.toInt64)
  else if u192GtU64 x bound || u192GtU64 x 0x7fffffffffffffff then mem.raiseIfPresent
  else mem.write cell x.limb0.toInt64

/-- `rns8_export_u64_cell_device` on a reconstructed value. -/
def exportU64ValueDevice (cell : ℕ) (x : U192) (bound : UInt64) (mem : ExportMemory UInt64) :
    ExportMemory UInt64 :=
  if u192GtU64 x bound then mem.raiseIfPresent else mem.write cell x.limb0

/-- `rns8_export_i64_cell_device`. -/
def exportI64CellDevice (residues : ℕ → Int8) (cell elements rnsPrefix : ℕ) (bound : UInt64)
    (mem : ExportMemory Int64) : ExportMemory Int64 :=
  let s := reconstructCanonicalWide residues cell elements rnsPrefix
  exportI64ValueDevice cell s.1 s.2 bound mem

/-- `rns8_export_i64_fixed_prefix_cell_device<Prefix>`. -/
def exportI64FixedPrefixCellDevice (rnsPrefix : ℕ) (residues : ℕ → Int8) (cell elements : ℕ)
    (bound : UInt64) (mem : ExportMemory Int64) : ExportMemory Int64 :=
  let s := reconstructCanonicalWideFixedPrefix rnsPrefix residues cell elements
  exportI64ValueDevice cell s.1 s.2 bound mem

/-- `rns8_export_u64_cell_device`. -/
def exportU64CellDevice (residues : ℕ → Int8) (cell elements rnsPrefix : ℕ) (bound : UInt64)
    (mem : ExportMemory UInt64) : ExportMemory UInt64 :=
  exportU64ValueDevice cell (reconstructCanonicalWide residues cell elements rnsPrefix).1 bound mem

/-- `rns8_export_u64_fixed_prefix_cell_device<Prefix>`. -/
def exportU64FixedPrefixCellDevice (rnsPrefix : ℕ) (residues : ℕ → Int8) (cell elements : ℕ)
    (bound : UInt64) (mem : ExportMemory UInt64) : ExportMemory UInt64 :=
  exportU64ValueDevice cell (reconstructCanonicalWideFixedPrefix rnsPrefix residues cell elements).1
    bound mem

/-- The prefixes that `rns8_export_*_bounded_prefix_cell_device` has a specialization for. -/
def boundedFixedPrefix (rnsPrefix : ℕ) : Bool := decide (1 ≤ rnsPrefix) && decide (rnsPrefix ≤ 9)

/-- `rns8_export_i64_bounded_prefix_cell_device`. -/
def exportI64BoundedPrefixCellDevice (residues : ℕ → Int8) (cell elements rnsPrefix : ℕ)
    (bound : UInt64) (mem : ExportMemory Int64) : ExportMemory Int64 :=
  if boundedFixedPrefix rnsPrefix then
    exportI64FixedPrefixCellDevice rnsPrefix residues cell elements bound mem
  else exportI64CellDevice residues cell elements rnsPrefix bound mem

/-- `rns8_export_u64_bounded_prefix_cell_device`. -/
def exportU64BoundedPrefixCellDevice (residues : ℕ → Int8) (cell elements rnsPrefix : ℕ)
    (bound : UInt64) (mem : ExportMemory UInt64) : ExportMemory UInt64 :=
  if boundedFixedPrefix rnsPrefix then
    exportU64FixedPrefixCellDevice rnsPrefix residues cell elements bound mem
  else exportU64CellDevice residues cell elements rnsPrefix bound mem

/-! ### Limb cells -/

/-- `rns8_u192_unsigned_fits_limbs_device`, also with the limb count as a template parameter. -/
def u192UnsignedFitsLimbs (value : U192) (limbCount : ℕ) : Bool :=
  if 3 ≤ limbCount then true
  else if limbCount = 2 then decide (value.limb2 = 0)
  else decide (value.limb2 = 0) && decide (value.limb1 = 0)

/-- `rns8_u192_signed_positive_fits_limbs_device`, also with the limb count as a template
parameter. -/
def u192SignedPositiveFitsLimbs (value : U192) (limbCount : ℕ) : Bool :=
  let signBitLimit : UInt64 := 0x7fffffffffffffff
  if 4 ≤ limbCount then true
  else if limbCount = 3 then decide (value.limb2 ≤ signBitLimit)
  else if limbCount = 2 then decide (value.limb2 = 0) && decide (value.limb1 ≤ signBitLimit)
  else decide (value.limb2 = 0) && decide (value.limb1 = 0) && decide (value.limb0 ≤ signBitLimit)

/-- `rns8_u192_signed_negative_magnitude_fits_limbs_device`, also with the limb count as a template
parameter. -/
def u192SignedNegativeMagnitudeFitsLimbs (magnitude : U192) (limbCount : ℕ) : Bool :=
  let signBit : UInt64 := 0x8000000000000000
  if 4 ≤ limbCount then true
  else
    let signLimb := limbCount - 1
    if (List.range' limbCount (3 - limbCount)).any fun limb => decide (u192Limb magnitude limb ≠ 0)
    then false
    else
      let high := u192Limb magnitude signLimb
      if high < signBit then true
      else if signBit < high then false
      else !(List.range signLimb).any fun limb => decide (u192Limb magnitude limb ≠ 0)

/-- `rns8_store_u192_unsigned_limbs_device`, from the first word `base` of the cell on. -/
def storeU192UnsignedLimbs (mem : ExportMemory UInt64) (base : ℕ) (value : U192) (limbCount : ℕ) :
    ExportMemory UInt64 :=
  (List.range limbCount).foldl (fun mem limb => mem.write (base + limb) (u192Limb value limb)) mem

/-- One pass of `rns8_store_u192_negative_twos_complement_limbs_device` over the carry and the
memory. -/
def storeNegativeLimb (base : ℕ) (magnitude : U192) (s : UInt64 × ExportMemory UInt64) (limb : ℕ) :
    UInt64 × ExportMemory UInt64 :=
  let inverted := ~~~(u192Limb magnitude limb)
  let value := inverted + s.1
  (if value < inverted then 1 else 0, s.2.write (base + limb) value)

/-- `rns8_store_u192_negative_twos_complement_limbs_device`. -/
def storeU192NegativeTwosComplementLimbs (mem : ExportMemory UInt64) (base : ℕ) (magnitude : U192)
    (limbCount : ℕ) : ExportMemory UInt64 :=
  ((List.range limbCount).foldl (storeNegativeLimb base magnitude) (1, mem)).2

/-- `rns8_export_exact_wide_unsigned_limbs_device`, also with the limb count as a template
parameter. -/
def exportExactWideUnsignedLimbsDevice (cell : ℕ) (x : U192) (limbCount : ℕ)
    (mem : ExportMemory UInt64) : Option (ExportMemory UInt64) :=
  if !u192UnsignedFitsLimbs x limbCount then mem.raise
  else some (storeU192UnsignedLimbs mem (cell * limbCount) x limbCount)

/-- `rns8_export_exact_wide_signed_limbs_device`, also with the limb count as a template
parameter. -/
def exportExactWideSignedLimbsDevice (cell : ℕ) (x product : U192) (limbCount : ℕ)
    (mem : ExportMemory UInt64) : Option (ExportMemory UInt64) :=
  if u192CenteredIsNegative x product then
    let magnitude := u192Sub product x
    if !u192SignedNegativeMagnitudeFitsLimbs magnitude limbCount then mem.raise
    else some (storeU192NegativeTwosComplementLimbs mem (cell * limbCount) magnitude limbCount)
  else if !u192SignedPositiveFitsLimbs x limbCount then mem.raise
  else some (storeU192UnsignedLimbs mem (cell * limbCount) x limbCount)

/-! ### The fit checks -/

namespace U192

theorem unsignedFitsLimbs_iff (v : U192) {limbCount : ℕ} (h : 0 < limbCount) :
    u192UnsignedFitsLimbs v limbCount = true ↔ v.toNat < 2 ^ (64 * limbCount) := by
  obtain ⟨v0, v1, v2⟩ := v
  have h0 := v0.toNat_lt; have h1 := v1.toNat_lt; have h2 := v2.toNat_lt
  rcases limbCount with _ | _ | _ | n
  · omega
  · simp [u192UnsignedFitsLimbs, toNat, ← UInt64.toNat_inj]; omega
  · simp [u192UnsignedFitsLimbs, toNat, ← UInt64.toNat_inj]; omega
  · have hbig : (2 : ℕ) ^ 192 ≤ 2 ^ (64 * (n + 3)) := Nat.pow_le_pow_right (by norm_num) (by omega)
    simp [u192UnsignedFitsLimbs, (toNat_lt _).trans_le hbig]

theorem signedPositiveFitsLimbs_iff (v : U192) {limbCount : ℕ} (h : 0 < limbCount) :
    u192SignedPositiveFitsLimbs v limbCount = true ↔ v.toNat < 2 ^ (64 * limbCount - 1) := by
  obtain ⟨v0, v1, v2⟩ := v
  have h0 := v0.toNat_lt; have h1 := v1.toNat_lt; have h2 := v2.toNat_lt
  rcases limbCount with _ | _ | _ | _ | n
  · omega
  · simp [u192SignedPositiveFitsLimbs, toNat, ← UInt64.toNat_inj, UInt64.le_iff_toNat_le]; omega
  · simp [u192SignedPositiveFitsLimbs, toNat, ← UInt64.toNat_inj, UInt64.le_iff_toNat_le]; omega
  · simp [u192SignedPositiveFitsLimbs, toNat, UInt64.le_iff_toNat_le]; omega
  · have hbig : (2 : ℕ) ^ 192 ≤ 2 ^ (64 * (n + 4) - 1) :=
      Nat.pow_le_pow_right (by norm_num) (by omega)
    simp [u192SignedPositiveFitsLimbs, (toNat_lt _).trans_le hbig]

theorem signedNegativeMagnitudeFitsLimbs_iff (v : U192) {limbCount : ℕ} (h : 0 < limbCount) :
    u192SignedNegativeMagnitudeFitsLimbs v limbCount = true ↔
      v.toNat ≤ 2 ^ (64 * limbCount - 1) := by
  obtain ⟨v0, v1, v2⟩ := v
  have h0 := v0.toNat_lt; have h1 := v1.toNat_lt; have h2 := v2.toNat_lt
  rcases limbCount with _ | _ | _ | _ | n
  · omega
  · simp [u192SignedNegativeMagnitudeFitsLimbs, toNat, ← UInt64.toNat_inj, UInt64.lt_iff_toNat_lt,
      List.range', u192Limb]
    omega
  · simp [u192SignedNegativeMagnitudeFitsLimbs, toNat, ← UInt64.toNat_inj, UInt64.lt_iff_toNat_lt,
      u192Limb]
    omega
  · simp [u192SignedNegativeMagnitudeFitsLimbs, toNat, ← UInt64.toNat_inj, UInt64.lt_iff_toNat_lt,
      u192Limb, List.range_succ]
    omega
  · have hbig : (2 : ℕ) ^ 192 ≤ 2 ^ (64 * (n + 4) - 1) :=
      Nat.pow_le_pow_right (by norm_num) (by omega)
    simp [u192SignedNegativeMagnitudeFitsLimbs, ((toNat_lt _).trans_le hbig).le]

end U192

/-! ### The stores -/

/-- Writing the words of a cell one by one writes the cell. -/
theorem foldl_write_words (mem : ExportMemory UInt64) (base count : ℕ) (words : ℕ → UInt64) :
    (List.range count).foldl (fun mem limb => mem.write (base + limb) (words limb)) mem =
      mem.writeWords base count words := by
  induction count with
  | zero =>
    have hnone : ∀ o, ¬ (base ≤ o ∧ o < base + 0) := fun o => by omega
    simp only [List.range_zero, List.foldl_nil, ExportMemory.writeWords, hnone, if_false]
  | succ count ih =>
    rw [List.range_succ, List.foldl_append, ih]
    simp only [List.foldl_cons, List.foldl_nil, ExportMemory.write, ExportMemory.writeWords]
    congr 1
    funext o
    by_cases ho : o = base + count
    · subst ho
      rw [Function.update_self, if_pos (by omega), Nat.add_sub_cancel_left]
    · rw [Function.update_of_ne ho]
      by_cases hin : base ≤ o ∧ o < base + count
      · rw [if_pos hin, if_pos (by omega)]
      · rw [if_neg hin, if_neg (by omega)]

/-- The words of two stores are the same when the words of the cell are. -/
theorem ExportMemory.writeWords_congr {mem : ExportMemory UInt64} {base count : ℕ}
    {words words' : ℕ → UInt64} (h : ∀ i < count, words i = words' i) :
    mem.writeWords base count words = mem.writeWords base count words' := by
  simp only [ExportMemory.writeWords]
  congr 1
  funext o
  split
  · next ho => exact h _ (by omega)
  · rfl

theorem storeU192UnsignedLimbs_eq (mem : ExportMemory UInt64) (base : ℕ) (value : U192)
    (limbCount : ℕ) : storeU192UnsignedLimbs mem base value limbCount =
      mem.writeWords base limbCount (wideLimb value.toNat) := by
  rw [storeU192UnsignedLimbs, foldl_write_words]
  refine ExportMemory.writeWords_congr fun i _ => ?_
  rw [← UInt64.toNat_inj, U192.toNat_limb, wideLimb, UInt64.toNat_ofNat', Int.toNat_natCast,
    Nat.mod_mod]

/-- The carry of the negation is still set when all digits below were zero. -/
def negationCarry (magnitude : U192) (i : ℕ) : UInt64 :=
  if magnitude.toNat % 2 ^ (64 * i) = 0 then 1 else 0

/-- Digit `i` of the negated magnitude. -/
def negatedLimb (magnitude : U192) (i : ℕ) : UInt64 :=
  ~~~(u192Limb magnitude i) + negationCarry magnitude i

/-- One more digit is zero when the digits below and the digit are. -/
theorem mod_pow_succ_eq_zero (v : U192) (i : ℕ) : v.toNat % 2 ^ (64 * (i + 1)) = 0 ↔
    v.toNat % 2 ^ (64 * i) = 0 ∧ (u192Limb v i).toNat = 0 := by
  have hpow : 2 ^ (64 * (i + 1)) = 2 ^ (64 * i) * 2 ^ 64 := by rw [Nat.mul_succ, pow_add]
  have hpos : 0 < 2 ^ (64 * i) := by positivity
  rw [hpow, Nat.mod_mul, U192.toNat_limb]
  constructor
  · intro h
    exact ⟨by omega, by
      have := Nat.eq_zero_of_add_eq_zero_left h
      exact (Nat.mul_eq_zero.1 this).resolve_left hpos.ne'⟩
  · rintro ⟨h1, h2⟩
    rw [h1, h2, Nat.mul_zero]

theorem negationCarry_succ (v : U192) (i : ℕ) :
    (if negatedLimb v i < ~~~(u192Limb v i) then 1 else 0 : UInt64) = negationCarry v (i + 1) := by
  have hlt := (u192Limb v i).toNat_lt
  have hnot : (~~~(u192Limb v i)).toNat = 2 ^ 64 - 1 - (u192Limb v i).toNat := by
    rw [UInt64.toNat_not]; rfl
  have hiff := mod_pow_succ_eq_zero v i
  have hover : negatedLimb v i < ~~~(u192Limb v i) ↔ v.toNat % 2 ^ (64 * (i + 1)) = 0 := by
    rw [hiff, UInt64.lt_iff_toNat_lt, negatedLimb, UInt64.toNat_add, hnot, negationCarry]
    by_cases h0 : v.toNat % 2 ^ (64 * i) = 0
    · rw [if_pos h0, UInt64.toNat_one]
      omega
    · rw [if_neg h0, UInt64.toNat_zero]
      omega
  simp only [hover, negationCarry]

/-- The loop writes the digits of the negation. -/
theorem storeNegativeLimb_foldl (base : ℕ) (magnitude : U192) (mem : ExportMemory UInt64) (n : ℕ) :
    (List.range n).foldl (storeNegativeLimb base magnitude) (1, mem) =
      (negationCarry magnitude n, (List.range n).foldl
        (fun mem limb => mem.write (base + limb) (negatedLimb magnitude limb)) mem) := by
  induction n with
  | zero => simp [negationCarry, Nat.mod_one]
  | succ n ih =>
    rw [List.range_succ, List.foldl_append, List.foldl_append, ih]
    simp only [List.foldl_cons, List.foldl_nil, storeNegativeLimb]
    rw [← negationCarry_succ]
    rfl

/-- The digits of `2 ^ bits - magnitude`. -/
theorem negatedLimb_eq {v : U192} {limbCount i : ℕ} (hi : i < limbCount) (hv : 0 < v.toNat)
    (hfit : v.toNat ≤ 2 ^ (64 * limbCount)) :
    negatedLimb v i = wideLimb (-v.toNat + 2 ^ (64 * limbCount)) i := by
  have hto : ((-v.toNat + 2 ^ (64 * limbCount) : ℤ)).toNat = 2 ^ (64 * limbCount) - v.toNat := by
    have : ((2 ^ (64 * limbCount) : ℕ) : ℤ) = 2 ^ (64 * limbCount) := by push_cast; rfl
    rw [← this]
    omega
  obtain ⟨d, rfl⟩ : ∃ d, limbCount = i + 1 + d := ⟨limbCount - (i + 1), by omega⟩
  have hpow : 2 ^ (64 * (i + 1 + d)) = 2 ^ (64 * i) * (2 ^ 64 * 2 ^ (64 * d)) := by
    rw [show 64 * (i + 1 + d) = 64 * i + (64 + 64 * d) by ring, pow_add, pow_add]
  have hlt := (u192Limb v i).toNat_lt
  -- both sides are limb `i` of the difference: in the kernel the complement with its carry
  have hnot : (~~~(u192Limb v i)).toNat = 2 ^ 64 - 1 - (u192Limb v i).toNat := by
    rw [UInt64.toNat_not]; rfl
  rw [← UInt64.toNat_inj, wideLimb, hto, UInt64.toNat_ofNat', Nat.mod_mod, negatedLimb,
    UInt64.toNat_add, hnot, U192.toNat_limb, negationCarry]
  rw [U192.toNat_limb] at hlt
  rw [hpow] at hfit ⊢
  have hB : 0 < 2 ^ (64 * i) := by positivity
  generalize hBdef : 2 ^ (64 * i) = B at *
  generalize 2 ^ (64 * d) = K at *
  have hdiv := Nat.div_add_mod v.toNat B
  have hlow := Nat.mod_lt v.toNat hB
  generalize hq : v.toNat / B = q at *
  generalize hr : v.toNat % B = r at *
  -- the quotient of the difference, with a borrow unless the low part is zero
  have hquot : (B * (2 ^ 64 * K) - v.toNat) / B =
      2 ^ 64 * K - q - (if r = 0 then 0 else 1) := by
    rw [← hdiv]
    split
    · next h0 =>
      rw [h0, Nat.add_zero, ← Nat.mul_sub, Nat.mul_div_cancel_left _ hB, Nat.sub_zero]
    · next h0 =>
      have hqK : q + 1 ≤ 2 ^ 64 * K := by
        by_contra hlt
        have : B * (2 ^ 64 * K) ≤ B * q := Nat.mul_le_mul_left _ (by omega)
        omega
      have hsub : B * (2 ^ 64 * K) - (B * q + r) = (B - r) + B * (2 ^ 64 * K - q - 1) := by
        rw [Nat.mul_sub, Nat.mul_sub, Nat.mul_one]
        have h1 : B * (q + 1) ≤ B * (2 ^ 64 * K) := Nat.mul_le_mul_left _ hqK
        rw [Nat.mul_succ] at h1
        omega
      rw [hsub, Nat.add_mul_div_left _ _ hB, Nat.div_eq_of_lt (by omega), Nat.zero_add]
  -- the carry out of the low limbs is the borrow
  have hqle : q ≤ 2 ^ 64 * K := by
    rw [← hq]
    exact Nat.div_le_of_le_mul hfit
  have hpos : 0 < q ∨ 0 < r := by
    rcases Nat.eq_zero_or_pos q with rfl | hq0
    · right; rw [Nat.mul_zero, Nat.zero_add] at hdiv; omega
    · exact Or.inl hq0
  rw [hquot]
  split_ifs with h0
  · simp only [UInt64.toNat_one]
    omega
  · simp only [UInt64.toNat_zero]
    have hqK : q + 1 ≤ 2 ^ 64 * K := by
      by_contra hge
      have hqeq : q = 2 ^ 64 * K := by omega
      have : B * q + r ≤ B * q := by rw [hdiv, hqeq]; exact hfit
      omega
    omega

theorem storeU192NegativeTwosComplementLimbs_eq (mem : ExportMemory UInt64) (base : ℕ)
    {magnitude : U192} {limbCount : ℕ} (hv : 0 < magnitude.toNat)
    (hfit : magnitude.toNat ≤ 2 ^ (64 * limbCount)) :
    storeU192NegativeTwosComplementLimbs mem base magnitude limbCount =
      mem.writeWords base limbCount (wideLimb (-magnitude.toNat + 2 ^ (64 * limbCount))) := by
  rw [storeU192NegativeTwosComplementLimbs, storeNegativeLimb_foldl, foldl_write_words]
  exact ExportMemory.writeWords_congr fun i hi => negatedLimb_eq hi hv hfit

/-! ### Agreement with the host export of a cell -/

/-- The device did to its memory what the host export of the cell says: it wrote the value, or it
raised the range status where the host reports a range error. -/
def CellAgrees {γ δ : Type} (host : Except Status γ) (write : γ → δ) (raised device : δ) : Prop :=
  match host with
  | .ok value => device = write value
  | .error status => status = .rangeError ∧ device = raised

theorem toInt64_eq_ofInt (v : UInt64) : v.toInt64 = Int64.ofInt v.toNat := by
  refine Int64.toBitVec_inj.1 ?_
  simp

section Agreement

variable {residues : ℕ → Int8} {cell elements p : ℕ} {x product : U192}

/-- The value behind two 192-bit numbers that hold a reconstruction. -/
theorem Reconstructs.value (hp : p ≤ maxSupportedPrefix)
    (h : Reconstructs residues cell elements p (x, product)) :
    (x.toNat : ℤ) = reconstructCanonical (deviceCellResidues residues cell elements) p ∧
      product.toNat = modulusProduct p ∧ x.toNat < product.toNat := by
  obtain ⟨hx, hprod⟩ := h
  obtain ⟨-, -, hlt, -⟩ := reconstruct_foldl (deviceCellResidues residues cell elements)
    (p := p) (hp.trans (by decide))
  simp only at hx hprod
  refine ⟨hx, hprod, ?_⟩
  change reconstructCanonical _ p < _ at hlt
  rw [← hx, ← hprod] at hlt
  exact_mod_cast hlt

/-- The sign test and the magnitude of the device give the host's centered value. -/
theorem Reconstructs.centered (hp : p ≤ maxSupportedPrefix)
    (h : Reconstructs residues cell elements p (x, product)) :
    centeredFromCanonical (reconstructCanonical (deviceCellResidues residues cell elements) p)
        (modulusProduct p) =
      if u192CenteredIsNegative x product then -((u192Sub product x).toNat : ℤ) else x.toNat := by
  obtain ⟨hx, hprod, hlt⟩ := h.value hp
  rw [← hx, ← hprod, centeredFromCanonical, U192.toNat_sub hlt.le]
  by_cases hneg : u192CenteredIsNegative x product = true
  · have hle := (U192.centeredIsNegative_iff x product).1 hneg
    rw [if_pos hneg, if_pos (by omega)]
    omega
  · have hgt := mt (U192.centeredIsNegative_iff x product).2 hneg
    rw [if_neg hneg, if_neg (by omega)]

/-- The magnitude of a negative value is positive. -/
theorem Reconstructs.magnitude_pos (hp : p ≤ maxSupportedPrefix)
    (h : Reconstructs residues cell elements p (x, product)) :
    0 < (u192Sub product x).toNat := by
  obtain ⟨-, -, hlt⟩ := h.value hp
  rw [U192.toNat_sub hlt.le]
  omega

/-- **Signed bounded cells.** -/
theorem exportI64ValueDevice_agrees (hp0 : 0 < p) (hp : p ≤ maxSupportedPrefix)
    (h : Reconstructs residues cell elements p (x, product)) {bound : UInt64}
    (hb : validateBoundContract .boundedI64 .globalMaxAbs bound.toNat p = .success)
    (mem : ExportMemory Int64) :
    CellAgrees (reconstructSigned (deviceCellResidues residues cell elements) p bound.toNat)
      (mem.write cell) mem.raiseIfPresent (exportI64ValueDevice cell x product bound mem) := by
  -- the host reports a range error for the same value
  have hhost : reconstructSigned (deviceCellResidues residues cell elements) p bound.toNat =
      let value : ℤ :=
        if u192CenteredIsNegative x product then -((u192Sub product x).toNat : ℤ) else x.toNat
      if !fitsInt64 value || decide ((bound.toNat : ℤ) < |value|) then .error .rangeError
      else .ok (Int64.ofInt value) := by
    simp only [reconstructSigned, hp0.ne', not_lt.2 hp, or_self, if_false, hb, ne_eq,
      not_true_eq_false, h.centered hp]
  rw [hhost]
  unfold exportI64ValueDevice
  by_cases hneg : u192CenteredIsNegative x product = true
  -- a negative value is compared by its magnitude, which may be `2 ^ 63`
  · have hmag := h.magnitude_pos hp
    simp only [hneg, if_true]
    generalize u192Sub product x = magnitude at *
    have hlimit : (0x8000000000000000 : UInt64).toNat = 2 ^ 63 := by decide
    have hcond : (u192GtU64 magnitude bound || u192GtU64 magnitude 0x8000000000000000) =
        (!fitsInt64 (-(magnitude.toNat : ℤ)) ||
          decide ((bound.toNat : ℤ) < |(-(magnitude.toNat : ℤ))|)) := by
      rw [Bool.eq_iff_iff, Bool.or_eq_true, U192.gtU64_iff, U192.gtU64_iff, hlimit]
      simp only [fitsInt64, Bool.or_eq_true, Bool.not_eq_true', Bool.and_eq_false_iff,
        decide_eq_false_iff_not, decide_eq_true_eq, abs_neg, Nat.abs_cast]
      omega
    rw [hcond]
    by_cases hfail : (!fitsInt64 (-(magnitude.toNat : ℤ)) ||
        decide ((bound.toNat : ℤ) < |(-(magnitude.toNat : ℤ))|)) = true
    · rw [if_pos hfail, if_pos hfail]
      exact ⟨rfl, rfl⟩
    · rw [if_neg hfail, if_neg hfail]
      rw [← hcond, Bool.or_eq_true, U192.gtU64_iff, U192.gtU64_iff, hlimit] at hfail
      have hlow : magnitude.limb0.toNat = magnitude.toNat := by
        have h0 := magnitude.limb0.toNat_lt
        simp only [U192.toNat] at hfail ⊢
        omega
      have hval : -magnitude.limb0.toInt64 = Int64.ofInt (-(magnitude.toNat : ℤ)) := by
        rw [toInt64_eq_ofInt, hlow, Int64.ofInt_neg]
      simp only [CellAgrees]
      -- the kernel writes the least `int64_t` as a constant
      split
      · next hmin =>
        rw [← hval, hmin]
        rfl
      · rw [hval]
  -- a value that is not negative is compared directly
  · simp only [hneg, Bool.false_eq_true, if_false]
    have hlimit : (0x7fffffffffffffff : UInt64).toNat = 2 ^ 63 - 1 := by decide
    have hcond : (u192GtU64 x bound || u192GtU64 x 0x7fffffffffffffff) =
        (!fitsInt64 (x.toNat : ℤ) || decide ((bound.toNat : ℤ) < |(x.toNat : ℤ)|)) := by
      rw [Bool.eq_iff_iff, Bool.or_eq_true, U192.gtU64_iff, U192.gtU64_iff, hlimit]
      simp only [fitsInt64, Bool.or_eq_true, Bool.not_eq_true', Bool.and_eq_false_iff,
        decide_eq_false_iff_not, decide_eq_true_eq, Nat.abs_cast]
      omega
    rw [hcond]
    by_cases hfail : (!fitsInt64 (x.toNat : ℤ) ||
        decide ((bound.toNat : ℤ) < |(x.toNat : ℤ)|)) = true
    · rw [if_pos hfail, if_pos hfail]
      exact ⟨rfl, rfl⟩
    · rw [if_neg hfail, if_neg hfail]
      rw [← hcond, Bool.or_eq_true, U192.gtU64_iff, U192.gtU64_iff, hlimit] at hfail
      have hlow : x.limb0.toNat = x.toNat := by
        have h0 := x.limb0.toNat_lt
        simp only [U192.toNat] at hfail ⊢
        omega
      simp only [CellAgrees]
      rw [toInt64_eq_ofInt, hlow]

/-- **Unsigned bounded cells.** -/
theorem exportU64ValueDevice_agrees (hp0 : 0 < p) (hp : p ≤ maxSupportedPrefix)
    (h : Reconstructs residues cell elements p (x, product)) {bound : UInt64}
    (hb : validateBoundContract .boundedU64 .globalMaxUnsigned bound.toNat p = .success)
    (mem : ExportMemory UInt64) :
    CellAgrees (reconstructUnsigned (deviceCellResidues residues cell elements) p bound.toNat)
      (mem.write cell) mem.raiseIfPresent (exportU64ValueDevice cell x bound mem) := by
  obtain ⟨hx, -, -⟩ := h.value hp
  have hlt := bound.toNat_lt
  -- the bound is a `uint64_t`, so the comparison covers the range of the type
  have hcond : u192GtU64 x bound =
      (!fitsUint64 (x.toNat : ℤ) || decide ((bound.toNat : ℤ) < x.toNat)) := by
    rw [Bool.eq_iff_iff, U192.gtU64_iff]
    simp only [fitsUint64, Bool.or_eq_true, Bool.not_eq_true', Bool.and_eq_false_iff,
      decide_eq_false_iff_not, decide_eq_true_eq]
    omega
  have hhost : reconstructUnsigned (deviceCellResidues residues cell elements) p bound.toNat =
      if u192GtU64 x bound then .error .rangeError else .ok (UInt64.ofNat x.toNat) := by
    simp only [reconstructUnsigned, hp0.ne', not_lt.2 hp, or_self, if_false, hb, ne_eq,
      not_true_eq_false, ← hx, hcond, Int.toNat_natCast]
  rw [hhost, exportU64ValueDevice]
  by_cases hfail : u192GtU64 x bound = true
  · rw [if_pos hfail, if_pos hfail]
    exact ⟨rfl, rfl⟩
  · rw [if_neg hfail, if_neg hfail]
    rw [U192.gtU64_iff] at hfail
    simp only [CellAgrees]
    congr 1
    rw [← UInt64.toNat_inj, UInt64.toNat_ofNat', Nat.mod_eq_of_lt (by omega)]
    have h0 := x.limb0.toNat_lt
    simp only [U192.toNat] at hfail ⊢
    omega

/-- **Unsigned limb cells.** -/
theorem exportExactWideUnsignedLimbsDevice_agrees (hp0 : 0 < p) (hp : p ≤ maxSupportedPrefix)
    (h : Reconstructs residues cell elements p (x, product)) {limbCount : ℕ} (hl0 : 0 < limbCount)
    (hl : limbCount ≤ 32) (mem : ExportMemory UInt64) :
    CellAgrees
      (exportExactWideUnsignedLimbs (deviceCellResidues residues cell elements) p limbCount)
      (fun words => some (mem.writeWords (cell * limbCount) limbCount words)) mem.raise
      (exportExactWideUnsignedLimbsDevice cell x limbCount mem) := by
  obtain ⟨hx, -, -⟩ := h.value hp
  have hfit := U192.unsignedFitsLimbs_iff x hl0
  have hhost : exportExactWideUnsignedLimbs (deviceCellResidues residues cell elements) p limbCount =
      if !u192UnsignedFitsLimbs x limbCount then .error .rangeError else .ok (wideLimb x.toNat) := by
    have hpow : ((2 ^ (64 * limbCount) : ℕ) : ℤ) = 2 ^ (64 * limbCount) := by push_cast; rfl
    have hcond : ((x.toNat : ℤ) < 0 ∨ (2 : ℤ) ^ (64 * limbCount) ≤ x.toNat) ↔
        (!u192UnsignedFitsLimbs x limbCount) = true := by
      rw [Bool.not_eq_true', ← Bool.not_eq_true, hfit, ← hpow]
      omega
    simp only [exportExactWideUnsignedLimbs, hp0.ne', not_lt.2 hp, hl0.ne', not_lt.2 hl, or_self,
      if_false, ← hx, hcond]
  rw [hhost, exportExactWideUnsignedLimbsDevice]
  by_cases hf : (!u192UnsignedFitsLimbs x limbCount) = true
  · rw [if_pos hf, if_pos hf]
    exact ⟨rfl, rfl⟩
  · rw [if_neg hf, if_neg hf, storeU192UnsignedLimbs_eq]
    rfl

/-- **Signed limb cells.** -/
theorem exportExactWideSignedLimbsDevice_agrees (hp0 : 0 < p) (hp : p ≤ maxSupportedPrefix)
    (h : Reconstructs residues cell elements p (x, product)) {limbCount : ℕ} (hl0 : 0 < limbCount)
    (hl : limbCount ≤ 32) (mem : ExportMemory UInt64) :
    CellAgrees
      (exportExactWideSignedLimbs (deviceCellResidues residues cell elements) p limbCount)
      (fun words => some (mem.writeWords (cell * limbCount) limbCount words)) mem.raise
      (exportExactWideSignedLimbsDevice cell x product limbCount mem) := by
  have hhalf : (2 : ℕ) ^ (64 * limbCount) = 2 * 2 ^ (64 * limbCount - 1) := by
    rw [← pow_succ']
    congr 1
    omega
  have hpow : ((2 ^ (64 * limbCount - 1) : ℕ) : ℤ) = 2 ^ (64 * limbCount - 1) := by push_cast; rfl
  -- the host decides by the same two bounds
  have hhost : exportExactWideSignedLimbs (deviceCellResidues residues cell elements) p limbCount =
      let value : ℤ :=
        if u192CenteredIsNegative x product then -((u192Sub product x).toNat : ℤ) else x.toNat
      if value < -2 ^ (64 * limbCount - 1) ∨ 2 ^ (64 * limbCount - 1) - 1 < value then
        .error .rangeError
      else .ok (wideLimb (if value < 0 then value + 2 ^ (64 * limbCount) else value)) := by
    simp only [exportExactWideSignedLimbs, hp0.ne', not_lt.2 hp, hl0.ne', not_lt.2 hl, or_self,
      if_false, h.centered hp]
  rw [hhost, exportExactWideSignedLimbsDevice]
  by_cases hneg : u192CenteredIsNegative x product = true
  -- negative: the limbs of the complement
  · have hmag := h.magnitude_pos hp
    simp only [hneg, if_true]
    generalize u192Sub product x = magnitude at *
    have hfit := U192.signedNegativeMagnitudeFitsLimbs_iff magnitude hl0
    have hcond : (-(magnitude.toNat : ℤ) < -2 ^ (64 * limbCount - 1) ∨
        2 ^ (64 * limbCount - 1) - 1 < -(magnitude.toNat : ℤ)) ↔
        (!u192SignedNegativeMagnitudeFitsLimbs magnitude limbCount) = true := by
      rw [Bool.not_eq_true', ← Bool.not_eq_true, hfit, ← hpow]
      omega
    simp only [hcond]
    by_cases hf : (!u192SignedNegativeMagnitudeFitsLimbs magnitude limbCount) = true
    · rw [if_pos hf, if_pos hf]
      exact ⟨rfl, rfl⟩
    · rw [if_neg hf, if_neg hf]
      rw [Bool.not_eq_true', Bool.not_eq_false, hfit] at hf
      rw [storeU192NegativeTwosComplementLimbs_eq mem _ hmag (by omega), if_pos (by omega)]
      rfl
  -- not negative: the limbs of the value
  · simp only [hneg, Bool.false_eq_true, if_false]
    have hfit := U192.signedPositiveFitsLimbs_iff x hl0
    have hcond : ((x.toNat : ℤ) < -2 ^ (64 * limbCount - 1) ∨
        2 ^ (64 * limbCount - 1) - 1 < (x.toNat : ℤ)) ↔
        (!u192SignedPositiveFitsLimbs x limbCount) = true := by
      rw [Bool.not_eq_true', ← Bool.not_eq_true, hfit, ← hpow]
      omega
    simp only [hcond]
    by_cases hf : (!u192SignedPositiveFitsLimbs x limbCount) = true
    · rw [if_pos hf, if_pos hf]
      exact ⟨rfl, rfl⟩
    · rw [if_neg hf, if_neg hf, storeU192UnsignedLimbs_eq, if_neg (by omega)]
      rfl

end Agreement

end Rns8
