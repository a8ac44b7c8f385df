import Rns8.Core.Residue
import Rns8.Hip.Reducer

/-!
# Operands of the matrix instructions

The gather helpers of `amdgpu_builtins_kernels.hip`: bytes of a dense operand packed four to a word,
zero outside the matrix, and the values and indices of `4:2` sparse groups. Every helper is read back
byte by byte, as the matrix instructions read their operands.
-/

namespace Rns8

/-! ### The source -/

/-- `pack_byte`. -/
def packByte (value : UInt8) (byteIndex : ℕ) : UInt32 :=
  value.toUInt32 <<< UInt32.ofNat (byteIndex * 8)

/-- `load_centered_i8`, for a row and a column that are not negative. -/
def loadCenteredI8 (data : ℕ → Int8) (plane rows cols ld row col : ℕ) : Int8 :=
  if row ≥ rows ∨ col ≥ cols then 0
  else
    let planeStride := rows * ld
    data (plane * planeStride + row * ld + col)

/-- `pack4_centered_i8`. -/
def pack4CenteredI8 (data : ℕ → Int8) (plane rows cols ld row colBase : ℕ) : UInt32 :=
  0 ||| packByte (loadCenteredI8 data plane rows cols ld row (colBase + 0)).toUInt8 0
    ||| packByte (loadCenteredI8 data plane rows cols ld row (colBase + 1)).toUInt8 1
    ||| packByte (loadCenteredI8 data plane rows cols ld row (colBase + 2)).toUInt8 2
    ||| packByte (loadCenteredI8 data plane rows cols ld row (colBase + 3)).toUInt8 3

/-- `pack4_centered_i8_column`. -/
def pack4CenteredI8Column (data : ℕ → Int8) (plane rows cols ld rowBase col : ℕ) : UInt32 :=
  0 ||| packByte (loadCenteredI8 data plane rows cols ld (rowBase + 0) col).toUInt8 0
    ||| packByte (loadCenteredI8 data plane rows cols ld (rowBase + 1) col).toUInt8 1
    ||| packByte (loadCenteredI8 data plane rows cols ld (rowBase + 2) col).toUInt8 2
    ||| packByte (loadCenteredI8 data plane rows cols ld (rowBase + 3) col).toUInt8 3

/-- `static_cast<uint64_t>(low) | (static_cast<uint64_t>(high) << 32u)`. -/
def packWords (low high : UInt32) : UInt64 := low.toUInt64 ||| (high.toUInt64 <<< 32)

/-- `center_canonical_u8`. -/
def centerCanonicalU8 (value : UInt8) (modulus : UInt32) : Int8 :=
  if modulus = 256 then value.toInt8
  else centerUnsignedResidue (value % modulus.toUInt8).toUInt32 modulus

/-- The value that `sparse_pair_for_group` makes of a stored byte. -/
def sparseValue (finite : Bool) (modulus : UInt32) (raw : UInt8) : Int8 :=
  if finite then centerCanonicalU8 raw modulus else raw.toInt8

/-- `group_offset`. -/
def groupOffset (plane rows groupsPerRow row group : ℕ) : ℕ :=
  (plane * rows + row) * groupsPerRow + group

/-- `sparse_pair_for_group`. -/
def sparsePairForGroup (packedValues : ℕ → UInt8) (plane rows groupsPerRow row group : ℕ)
    (finite : Bool) (modulus : UInt32) : UInt32 :=
  if row ≥ rows ∨ group ≥ groupsPerRow then 0
  else
    let offset := groupOffset plane rows groupsPerRow row group
    let v0 := (sparseValue finite modulus (packedValues (offset * 2 + 0))).toUInt8
    let v1 := (sparseValue finite modulus (packedValues (offset * 2 + 1))).toUInt8
    packByte v0 0 ||| packByte v1 1

/-- `sparse_index_for_group`. -/
def sparseIndexForGroup (packedIndices : ℕ → UInt8) (plane rows groupsPerRow row group : ℕ) : UInt32 :=
  if row ≥ rows ∨ group ≥ groupsPerRow then 0
  else (packedIndices (groupOffset plane rows groupsPerRow row group) &&& 0x0f).toUInt32

/-- `pair0 | (pair1 << 16u)`. -/
def packPairs (pair0 pair1 : UInt32) : UInt32 := pair0 ||| (pair1 <<< 16)

/-- `sparse_idx`, from the indices of four groups. -/
def sparseIdx (idx0 idx1 idx2 idx3 : UInt32) : UInt32 :=
  (0 : UInt32) ||| (idx0 <<< 0) ||| (idx1 <<< 4) ||| (idx2 <<< 8) ||| (idx3 <<< 12)

/-! ### What the instructions read -/

/-- The signed byte `i` of a number. -/
def signedByte (w i : ℕ) : ℤ := (UInt8.ofNat (w / 256 ^ i)).toInt8.toInt

/-- Byte `i` of a 64-bit operand. -/
def wordEntry (w : UInt64) (i : ℕ) : ℤ := signedByte w.toNat i

/-- Byte `i` of a vector of 32-bit words. -/
def vectorEntry (v : ℕ → UInt32) (i : ℕ) : ℤ := signedByte (v (i / 4)).toNat (i % 4)

/-- The entry at `lane` of a group with the values `v0` and `v1` at the two positions that `index`
names. -/
def groupEntry (v0 v1 : ℤ) (index lane : ℕ) : ℤ :=
  (if lane = index % 4 then v0 else 0) + (if lane = index / 4 % 4 then v1 else 0)

/-- Entry `i` of the expansion of a sparse operand: two bytes and a nibble for each group of four. -/
def sparseEntry (op : (ℕ → UInt32) × ℕ) (i : ℕ) : ℤ :=
  groupEntry (vectorEntry op.1 (2 * (i / 4))) (vectorEntry op.1 (2 * (i / 4) + 1))
    (op.2 / 16 ^ (i / 4) % 16) (i % 4)

/-! ### Words and bytes -/

private theorem or_mul_two_pow {x s : ℕ} (h : x < 2 ^ s) (b : ℕ) : x ||| b * 2 ^ s = x + b * 2 ^ s := by
  rw [← Nat.shiftLeft_eq, Nat.or_comm, ← Nat.shiftLeft_add_eq_or_of_lt h, Nat.add_comm]

theorem packByte_toNat (v : UInt8) {i : ℕ} (hi : i < 4) :
    (packByte v i).toNat = v.toNat * 2 ^ (8 * i) := by
  have hv := v.toNat_lt
  have hshift : (UInt32.ofNat (i * 8)).toNat = 8 * i := by
    rw [UInt32.toNat_ofNat']
    omega
  have hpow : 2 ^ (8 * i) ≤ 2 ^ 24 := Nat.pow_le_pow_right (by norm_num) (by omega)
  have hlt : v.toNat * 2 ^ (8 * i) < 2 ^ 8 * 2 ^ 24 :=
    Nat.mul_lt_mul_of_lt_of_le hv hpow (by norm_num)
  rw [packByte, UInt32.toNat_shiftLeft, hshift, Nat.shiftLeft_eq, UInt8.toNat_toUInt32]
  rw [Nat.mod_eq_of_lt (show 8 * i < 32 by omega), Nat.mod_eq_of_lt (by omega)]

theorem pack4_toNat (b0 b1 b2 b3 : UInt8) :
    (0 ||| packByte b0 0 ||| packByte b1 1 ||| packByte b2 2 ||| packByte b3 3).toNat =
      b0.toNat + b1.toNat * 2 ^ 8 + b2.toNat * 2 ^ 16 + b3.toNat * 2 ^ 24 := by
  have h0 := b0.toNat_lt; have h1 := b1.toNat_lt; have h2 := b2.toNat_lt
  have e1 := or_mul_two_pow (s := 8) h0 b1.toNat
  have e2 := or_mul_two_pow (x := b0.toNat + b1.toNat * 2 ^ 8) (s := 16) (by omega) b2.toNat
  have e3 := or_mul_two_pow (x := b0.toNat + b1.toNat * 2 ^ 8 + b2.toNat * 2 ^ 16) (s := 24)
    (by omega) b3.toNat
  simp only [UInt32.toNat_or, packByte_toNat, Nat.reduceLT, UInt32.toNat_zero, Nat.zero_or, Nat.mul_zero,
    pow_zero, Nat.mul_one, Nat.reduceMul]
  rw [e1, e2, e3]

/-- A byte that went into a number comes out of it. -/
theorem signedByte_eq {w i : ℕ} {v : Int8} (h : w / 256 ^ i % 256 = v.toUInt8.toNat) :
    signedByte w i = v.toInt := by
  have hbyte : UInt8.ofNat (w / 256 ^ i) = v.toUInt8 := by
    rw [← UInt8.toNat_inj, UInt8.toNat_ofNat', ← h]
  rw [signedByte, hbyte, Int8.toInt8_toUInt8]

/-- Each byte of four packed bytes. -/
theorem signedByte_pack4 (f : ℕ → Int8) {i : ℕ} (hi : i < 4) :
    signedByte (0 ||| packByte (f 0).toUInt8 0 ||| packByte (f 1).toUInt8 1 |||
      packByte (f 2).toUInt8 2 ||| packByte (f 3).toUInt8 3).toNat i = (f i).toInt := by
  refine signedByte_eq ?_
  rw [pack4_toNat]
  have h0 := (f 0).toUInt8.toNat_lt; have h1 := (f 1).toUInt8.toNat_lt
  have h2 := (f 2).toUInt8.toNat_lt; have h3 := (f 3).toUInt8.toNat_lt
  rcases i with _ | _ | _ | _ | i
  · norm_num only
    omega
  · norm_num only
    omega
  · norm_num only
    omega
  · norm_num only
    omega
  · omega

theorem packWords_toNat (low high : UInt32) :
    (packWords low high).toNat = low.toNat + high.toNat * 2 ^ 32 := by
  have hl := low.toNat_lt
  have hh := high.toNat_lt
  rw [packWords, UInt64.toNat_or, UInt64.toNat_shiftLeft, UInt32.toNat_toUInt64, UInt32.toNat_toUInt64,
    Nat.shiftLeft_eq]
  have hshift : (32 : UInt64).toNat % 64 = 32 := by decide
  rw [hshift, Nat.mod_eq_of_lt (by omega), or_mul_two_pow hl]

/-- Each byte of two packed words. -/
theorem wordEntry_packWords (low high : UInt32) {i : ℕ} (hi : i < 8) :
    wordEntry (packWords low high) i =
      if i < 4 then signedByte low.toNat i else signedByte high.toNat (i - 4) := by
  have hl := low.toNat_lt
  have hh := high.toNat_lt
  have hbyte : ∀ {x y i j : ℕ}, x / 256 ^ i % 256 = y / 256 ^ j % 256 → signedByte x i = signedByte y j := by
    intro x y i j h
    have : UInt8.ofNat (x / 256 ^ i) = UInt8.ofNat (y / 256 ^ j) := by
      rw [← UInt8.toNat_inj, UInt8.toNat_ofNat', UInt8.toNat_ofNat']
      exact h
    rw [signedByte, signedByte, this]
  rw [wordEntry, packWords_toNat]
  split
  · next h4 =>
    refine hbyte ?_
    have hsplit : (2 : ℕ) ^ 32 = 256 ^ i * (256 * 256 ^ (3 - i)) := by
      rw [← Nat.pow_succ', ← Nat.pow_add, show i + (3 - i + 1) = 4 by omega]
      norm_num
    rw [hsplit, ← Nat.mul_assoc, Nat.mul_comm high.toNat, Nat.mul_assoc,
      Nat.add_mul_div_left _ _ (by positivity)]
    rw [show high.toNat * (256 * 256 ^ (3 - i)) = 256 * (high.toNat * 256 ^ (3 - i)) by ring,
      Nat.add_mul_mod_self_left]
  · next h4 =>
    refine hbyte ?_
    have hsplit : 256 ^ i = 2 ^ 32 * 256 ^ (i - 4) := by
      rw [show (2 : ℕ) ^ 32 = 256 ^ 4 by norm_num, ← Nat.pow_add, show 4 + (i - 4) = i by omega]
    rw [hsplit, ← Nat.div_div_eq_div_mul, Nat.add_mul_div_right _ _ (by norm_num),
      Nat.div_eq_of_lt hl, Nat.zero_add]

/-! ### Dense gathers -/

section Dense

variable (data : ℕ → Int8) (plane rows cols ld : ℕ)

theorem signedByte_pack4CenteredI8 (row colBase : ℕ) {i : ℕ} (hi : i < 4) :
    signedByte (pack4CenteredI8 data plane rows cols ld row colBase).toNat i =
      (loadCenteredI8 data plane rows cols ld row (colBase + i)).toInt :=
  signedByte_pack4 (fun i => loadCenteredI8 data plane rows cols ld row (colBase + i)) hi

theorem signedByte_pack4CenteredI8Column (rowBase col : ℕ) {i : ℕ} (hi : i < 4) :
    signedByte (pack4CenteredI8Column data plane rows cols ld rowBase col).toNat i =
      (loadCenteredI8 data plane rows cols ld (rowBase + i) col).toInt :=
  signedByte_pack4 (fun i => loadCenteredI8 data plane rows cols ld (rowBase + i) col) hi

/-- Eight positions of a row in a 64-bit operand. -/
theorem wordEntry_row (row colBase : ℕ) {i : ℕ} (hi : i < 8) :
    wordEntry (packWords (pack4CenteredI8 data plane rows cols ld row colBase)
      (pack4CenteredI8 data plane rows cols ld row (colBase + 4))) i =
      (loadCenteredI8 data plane rows cols ld row (colBase + i)).toInt := by
  rw [wordEntry_packWords _ _ hi]
  split
  · next h => rw [signedByte_pack4CenteredI8 _ _ _ _ _ _ _ h]
  · next h =>
    rw [signedByte_pack4CenteredI8 _ _ _ _ _ _ _ (by omega), show colBase + 4 + (i - 4) = colBase + i by omega]

/-- Eight positions of a column in a 64-bit operand. -/
theorem wordEntry_column (rowBase col : ℕ) {i : ℕ} (hi : i < 8) :
    wordEntry (packWords (pack4CenteredI8Column data plane rows cols ld (rowBase + 0) col)
      (pack4CenteredI8Column data plane rows cols ld (rowBase + 4) col)) i =
      (loadCenteredI8 data plane rows cols ld (rowBase + i) col).toInt := by
  rw [wordEntry_packWords _ _ hi, Nat.add_zero]
  split
  · next h => rw [signedByte_pack4CenteredI8Column _ _ _ _ _ _ _ h]
  · next h =>
    rw [signedByte_pack4CenteredI8Column _ _ _ _ _ _ _ (by omega),
      show rowBase + 4 + (i - 4) = rowBase + i by omega]

/-- Positions of a row in a vector of words. -/
theorem vectorEntry_row (row colBase i : ℕ) :
    vectorEntry (fun w => pack4CenteredI8 data plane rows cols ld row (colBase + 4 * w)) i =
      (loadCenteredI8 data plane rows cols ld row (colBase + i)).toInt := by
  rw [vectorEntry, signedByte_pack4CenteredI8 _ _ _ _ _ _ _ (Nat.mod_lt _ (by norm_num)),
    show colBase + 4 * (i / 4) + i % 4 = colBase + i by omega]

/-- Positions of a column in a vector of words. -/
theorem vectorEntry_column (rowBase col i : ℕ) :
    vectorEntry (fun w => pack4CenteredI8Column data plane rows cols ld (rowBase + 4 * w) col) i =
      (loadCenteredI8 data plane rows cols ld (rowBase + i) col).toInt := by
  rw [vectorEntry, signedByte_pack4CenteredI8Column _ _ _ _ _ _ _ (Nat.mod_lt _ (by norm_num)),
    show rowBase + 4 * (i / 4) + i % 4 = rowBase + i by omega]

end Dense

/-! ### Sparse gathers -/

section Sparse

variable (packedValues packedIndices : ℕ → UInt8) (plane rows groupsPerRow : ℕ) (finite : Bool)
  (modulus : UInt32)

/-- Value `s` of a group, zero outside the matrix. -/
def groupValue (row group s : ℕ) : Int8 :=
  if row ≥ rows ∨ group ≥ groupsPerRow then 0
  else sparseValue finite modulus (packedValues (groupOffset plane rows groupsPerRow row group * 2 + s))

theorem sparsePairForGroup_toNat (row group : ℕ) :
    (sparsePairForGroup packedValues plane rows groupsPerRow row group finite modulus).toNat =
      (groupValue packedValues plane rows groupsPerRow finite modulus row group 0).toUInt8.toNat +
        (groupValue packedValues plane rows groupsPerRow finite modulus row group 1).toUInt8.toNat * 2 ^ 8 := by
  unfold sparsePairForGroup groupValue
  split
  · rfl
  · rw [UInt32.toNat_or, packByte_toNat _ (by norm_num), packByte_toNat _ (by norm_num), Nat.mul_zero,
      pow_zero, Nat.mul_one, or_mul_two_pow (UInt8.toNat_lt _)]

/-- The two words of a sparse operand. -/
theorem signedByte_packPairs (row group : ℕ) {i : ℕ} (hi : i < 4) :
    signedByte (packPairs
      (sparsePairForGroup packedValues plane rows groupsPerRow row group finite modulus)
      (sparsePairForGroup packedValues plane rows groupsPerRow row (group + 1) finite modulus)).toNat i =
      (groupValue packedValues plane rows groupsPerRow finite modulus row (group + i / 2) (i % 2)).toInt := by
  refine signedByte_eq ?_
  have h0 := sparsePairForGroup_toNat packedValues plane rows groupsPerRow finite modulus row group
  have h1 := sparsePairForGroup_toNat packedValues plane rows groupsPerRow finite modulus row (group + 1)
  have b0 := (groupValue packedValues plane rows groupsPerRow finite modulus row group 0).toUInt8.toNat_lt
  have b1 := (groupValue packedValues plane rows groupsPerRow finite modulus row group 1).toUInt8.toNat_lt
  have b2 := (groupValue packedValues plane rows groupsPerRow finite modulus row (group + 1) 0).toUInt8.toNat_lt
  have b3 := (groupValue packedValues plane rows groupsPerRow finite modulus row (group + 1) 1).toUInt8.toNat_lt
  have hshift : (16 : UInt32).toNat % 32 = 16 := by decide
  -- the two pairs are the halves of the word
  have hword : (packPairs
      (sparsePairForGroup packedValues plane rows groupsPerRow row group finite modulus)
      (sparsePairForGroup packedValues plane rows groupsPerRow row (group + 1) finite modulus)).toNat =
      (sparsePairForGroup packedValues plane rows groupsPerRow row group finite modulus).toNat +
        (sparsePairForGroup packedValues plane rows groupsPerRow row (group + 1) finite modulus).toNat *
          2 ^ 16 := by
    have hfits : (sparsePairForGroup packedValues plane rows groupsPerRow row (group + 1) finite
        modulus).toNat * 2 ^ 16 < 2 ^ 32 := by omega
    rw [packPairs, UInt32.toNat_or, UInt32.toNat_shiftLeft, hshift, Nat.shiftLeft_eq,
      Nat.mod_eq_of_lt hfits, or_mul_two_pow (by omega)]
  rw [hword, h0, h1]
  -- byte `i` is value `i % 2` of group `i / 2`
  rcases i with _ | _ | _ | _ | i
  · norm_num only [Nat.add_zero]
    omega
  · norm_num only [Nat.add_zero]
    omega
  · norm_num only
    omega
  · norm_num only
    omega
  · omega

theorem sparseIndexForGroup_lt (row group : ℕ) :
    (sparseIndexForGroup packedIndices plane rows groupsPerRow row group).toNat < 16 := by
  unfold sparseIndexForGroup
  split
  · decide
  · rw [UInt8.toNat_toUInt32, UInt8.toNat_and]
    exact lt_of_le_of_lt Nat.and_le_right (by decide)

theorem sparseIdx_toNat {i0 i1 i2 i3 : UInt32} (h0 : i0.toNat < 16) (h1 : i1.toNat < 16)
    (h2 : i2.toNat < 16) (h3 : i3.toNat < 16) : (sparseIdx i0 i1 i2 i3).toNat =
      i0.toNat + i1.toNat * 2 ^ 4 + i2.toNat * 2 ^ 8 + i3.toNat * 2 ^ 12 := by
  have s1 : (4 : UInt32).toNat % 32 = 4 := by decide
  have s2 : (8 : UInt32).toNat % 32 = 8 := by decide
  have s3 : (12 : UInt32).toNat % 32 = 12 := by decide
  have e1 := or_mul_two_pow (x := i0.toNat) (s := 4) (by omega) i1.toNat
  have e2 := or_mul_two_pow (x := i0.toNat + i1.toNat * 2 ^ 4) (s := 8) (by omega) i2.toNat
  have e3 := or_mul_two_pow (x := i0.toNat + i1.toNat * 2 ^ 4 + i2.toNat * 2 ^ 8) (s := 12) (by omega)
    i3.toNat
  simp only [sparseIdx, UInt32.toNat_or, UInt32.toNat_shiftLeft, s1, s2, s3, Nat.shiftLeft_eq,
    UInt32.toNat_zero, Nat.zero_or, Nat.zero_mod, pow_zero, Nat.mul_one]
  rw [Nat.mod_eq_of_lt (a := i0.toNat) (by omega), Nat.mod_eq_of_lt (a := i1.toNat * 2 ^ 4) (by omega),
    Nat.mod_eq_of_lt (a := i2.toNat * 2 ^ 8) (by omega),
    Nat.mod_eq_of_lt (a := i3.toNat * 2 ^ 12) (by omega), e1, e2, e3]

/-- The indices of four groups in one word. -/
def gatherIndices (row groupBase : ℕ) : UInt32 :=
  sparseIdx (sparseIndexForGroup packedIndices plane rows groupsPerRow row (groupBase + 0))
    (sparseIndexForGroup packedIndices plane rows groupsPerRow row (groupBase + 1))
    (sparseIndexForGroup packedIndices plane rows groupsPerRow row (groupBase + 2))
    (sparseIndexForGroup packedIndices plane rows groupsPerRow row (groupBase + 3))

/-- The values of four groups in two words. -/
def gatherPairs (row groupBase word : ℕ) : UInt32 :=
  packPairs
    (sparsePairForGroup packedValues plane rows groupsPerRow row (groupBase + 2 * word) finite modulus)
    (sparsePairForGroup packedValues plane rows groupsPerRow row (groupBase + 2 * word + 1) finite modulus)

theorem gatherIndices_nibble (row groupBase : ℕ) {g : ℕ} (hg : g < 4) :
    (gatherIndices packedIndices plane rows groupsPerRow row groupBase).toNat / 16 ^ g % 16 =
      (sparseIndexForGroup packedIndices plane rows groupsPerRow row (groupBase + g)).toNat := by
  have h0 := sparseIndexForGroup_lt packedIndices plane rows groupsPerRow row (groupBase + 0)
  have h1 := sparseIndexForGroup_lt packedIndices plane rows groupsPerRow row (groupBase + 1)
  have h2 := sparseIndexForGroup_lt packedIndices plane rows groupsPerRow row (groupBase + 2)
  have h3 := sparseIndexForGroup_lt packedIndices plane rows groupsPerRow row (groupBase + 3)
  rw [gatherIndices, sparseIdx_toNat h0 h1 h2 h3]
  rcases g with _ | _ | _ | _ | g
  · norm_num only
    omega
  · norm_num only
    omega
  · norm_num only
    omega
  · norm_num only
    omega
  · omega

theorem gatherIndices_lt (row groupBase : ℕ) :
    (gatherIndices packedIndices plane rows groupsPerRow row groupBase).toNat < 2 ^ 16 := by
  have h0 := sparseIndexForGroup_lt packedIndices plane rows groupsPerRow row (groupBase + 0)
  have h1 := sparseIndexForGroup_lt packedIndices plane rows groupsPerRow row (groupBase + 1)
  have h2 := sparseIndexForGroup_lt packedIndices plane rows groupsPerRow row (groupBase + 2)
  have h3 := sparseIndexForGroup_lt packedIndices plane rows groupsPerRow row (groupBase + 3)
  rw [gatherIndices, sparseIdx_toNat h0 h1 h2 h3]
  omega

/-- The entry at position `k` of the row that the sparse gathers read, zero outside the matrix. -/
def sparseCell (row k : ℕ) : ℤ :=
  groupEntry (groupValue packedValues plane rows groupsPerRow finite modulus row (k / 4) 0).toInt
    (groupValue packedValues plane rows groupsPerRow finite modulus row (k / 4) 1).toInt
    (sparseIndexForGroup packedIndices plane rows groupsPerRow row (k / 4)).toNat (k % 4)

/-- **Sixteen positions of a sparse row** in an operand of two words and four nibbles. -/
theorem sparseEntry_gather (row groupBase : ℕ) {i : ℕ} (hi : i < 16) :
    sparseEntry (gatherPairs packedValues plane rows groupsPerRow finite modulus row groupBase,
      (gatherIndices packedIndices plane rows groupsPerRow row groupBase).toNat) i =
      sparseCell packedValues packedIndices plane rows groupsPerRow finite modulus row
        (groupBase * 4 + i) := by
  have hvalue : ∀ s < 2, vectorEntry
      (gatherPairs packedValues plane rows groupsPerRow finite modulus row groupBase) (2 * (i / 4) + s) =
      (groupValue packedValues plane rows groupsPerRow finite modulus row (groupBase + i / 4) s).toInt := by
    intro s hs
    rw [vectorEntry, gatherPairs, signedByte_packPairs _ _ _ _ _ _ _ _ (Nat.mod_lt _ (by norm_num))]
    rw [show groupBase + 2 * ((2 * (i / 4) + s) / 4) + (2 * (i / 4) + s) % 4 / 2 = groupBase + i / 4 by omega,
      show (2 * (i / 4) + s) % 4 % 2 = s by omega]
  have h0 := hvalue 0 (by norm_num)
  rw [Nat.add_zero] at h0
  simp only [sparseEntry, sparseCell, h0, hvalue 1 (by norm_num),
    gatherIndices_nibble _ _ _ _ _ _ (show i / 4 < 4 by omega)]
  rw [show (groupBase * 4 + i) / 4 = groupBase + i / 4 by omega,
    show (groupBase * 4 + i) % 4 = i % 4 by omega]

end Sparse

end Rns8
