import Rns8.Cpu.Pack
import Rns8.Hip.MatrixStores
import Rns8.Hip.PackKernels
import Rns8.Lib.IndexedStores

/-!
# The stores of the pack kernels

The centering functions are the CPU reference on every 64-bit value, and each kernel stores, at its
own share of the indices, the residue that belongs there. Together the threads of a launch have every
cell of every plane once.
-/

namespace Rns8

open CenteredResidue IndexedStores

/-! ### Centering -/

private theorem and_maskI64 (word : Int64) (b : Bool) :
    word &&& -bitI64 b = if b then word else 0 := by
  cases b
  · exact Int64.and_zero
  · have hmask : (-bitI64 true : Int64) = ~~~0 := by decide
    rw [hmask, if_pos rfl]
    exact Int64.and_neg_one

private theorem and_maskU64 (word : UInt64) (b : Bool) :
    word &&& (0 - bitU64 b) = if b then word else 0 := by
  cases b
  · exact UInt64.and_zero
  · have hmask : (0 - bitU64 true : UInt64) = ~~~0 := by decide
    rw [hmask, if_pos rfl]
    exact UInt64.and_neg_one

private theorem toInt_ofNat_modulus {m : ℕ} (h : m ≤ 256) : (Int64.ofNat m).toInt = m :=
  Int64.toInt_ofNat_of_lt (by omega)

private theorem toInt8_eq_ofInt (x : Int64) : x.toInt8 = Int8.ofInt x.toInt := by
  rw [← Int8.toInt_inj, Int64.toInt_toInt8, Int8.toInt_ofInt]

private theorem bmod_word {z : ℤ} (h0 : -2 ^ 63 ≤ z) (h1 : z < 2 ^ 63) : z.bmod (2 ^ 64) = z := by
  apply Int.bmod_eq_of_le <;> omega

/-- A masked addition is a conditional one. -/
private theorem toInt_add_mask {x m : Int64} {b : Bool} (h0 : -2 ^ 63 ≤ x.toInt + m.toInt)
    (h1 : x.toInt + m.toInt < 2 ^ 63) :
    (x + (m &&& -bitI64 b)).toInt = if b then x.toInt + m.toInt else x.toInt := by
  rw [and_maskI64]
  cases b
  · rw [if_neg Bool.false_ne_true, if_neg Bool.false_ne_true, Int64.add_zero]
  · rw [if_pos rfl, if_pos rfl, Int64.toInt_add, bmod_word h0 h1]

/-- A masked subtraction is a conditional one. -/
private theorem toInt_sub_mask {x m : Int64} {b : Bool} (h0 : -2 ^ 63 ≤ x.toInt - m.toInt)
    (h1 : x.toInt - m.toInt < 2 ^ 63) :
    (x - (m &&& -bitI64 b)).toInt = if b then x.toInt - m.toInt else x.toInt := by
  rw [and_maskI64]
  cases b
  · rw [if_neg Bool.false_ne_true, if_neg Bool.false_ne_true, Int64.sub_zero]
  · rw [if_pos rfl, if_pos rfl, Int64.toInt_sub, bmod_word h0 h1]

/-- The canonical residue of a word. -/
private theorem canonical_bounds (value : Int64) {modulus : ℕ} (hm : 0 < modulus) :
    (-(modulus : ℤ) < value.toInt.tmod modulus ∧ value.toInt.tmod modulus < modulus) ∧
      (0 ≤ canonicalResidue value.toInt modulus ∧ canonicalResidue value.toInt modulus < modulus) := by
  have hmpos : (0 : ℤ) < modulus := by exact_mod_cast hm
  refine ⟨⟨Int.lt_tmod_of_pos _ hmpos, Int.tmod_lt_of_pos _ hmpos⟩, ?_⟩
  rw [canonicalResidue_eq _ hm]
  exact ⟨Int.emod_nonneg _ hmpos.ne', Int.emod_lt_of_pos _ hmpos⟩

private theorem toInt_threshold {modulus : ℕ} (hb : modulus ≤ 256) :
    ((Int64.ofNat modulus + 1) / 2).toInt = ((modulus : ℤ) + 1) / 2 := by
  have hone : (1 : Int64).toInt = 1 := by decide
  have htwo : (2 : Int64).toInt = 2 := by decide
  have hsum : (Int64.ofNat modulus + 1).toInt = modulus + 1 := by
    rw [Int64.toInt_add, toInt_ofNat_modulus hb, hone, bmod_word] <;> omega
  rw [Int64.toInt_div, hsum, htwo, Int.tdiv_eq_ediv_of_nonneg (by omega), bmod_word] <;> omega

/-- **`rns8_center_i64_device` is the CPU residue**, of every signed value. -/
theorem centerI64Device_eq (value : Int64) {modulus : ℕ} (hm : 0 < modulus) (hb : modulus ≤ 256) :
    centerI64Device value modulus = centeredResidue value.toInt modulus := by
  obtain ⟨⟨hlo, hhi⟩, hc0, hc1⟩ := canonical_bounds value hm
  have hmod : (value % Int64.ofNat modulus).toInt = value.toInt.tmod modulus := by
    rw [Int64.toInt_mod, toInt_ofNat_modulus hb]
  have hzero : (0 : Int64).toInt = 0 := by decide
  have hcanon : (value % Int64.ofNat modulus + (Int64.ofNat modulus &&&
      -bitI64 (decide (value % Int64.ofNat modulus < 0)))).toInt =
        canonicalResidue value.toInt modulus := by
    rw [toInt_add_mask, hmod, toInt_ofNat_modulus hb]
    · simp only [Int64.lt_iff_toInt_lt, hmod, hzero, decide_eq_true_eq]
      rfl
    all_goals rw [hmod, toInt_ofNat_modulus hb]; omega
  unfold centerI64Device
  simp only
  rw [toInt8_eq_ofInt, toInt_sub_mask, hcanon, toInt_ofNat_modulus hb]
  · simp only [Int64.le_iff_toInt_le, hcanon, toInt_threshold hb, decide_eq_true_eq]
    rfl
  all_goals rw [hcanon, toInt_ofNat_modulus hb]; omega

/-- **The centering of the eight-cell and the small kernel is the CPU residue.** At the one even
modulus the two thresholds differ, but there the byte wraps. -/
theorem centerByHalf_eq (value : Int64) {modulus : ℕ} (hm : 0 < modulus) (hb : modulus ≤ 256)
    (hodd : modulus % 2 = 1 ∨ modulus = 256) :
    centerByHalf value modulus = centeredResidue value.toInt modulus := by
  obtain ⟨⟨hlo, hhi⟩, hc0, hc1⟩ := canonical_bounds value hm
  have hmod : (value % Int64.ofNat modulus).toInt = value.toInt.tmod modulus := by
    rw [Int64.toInt_mod, toInt_ofNat_modulus hb]
  have hzero : (0 : Int64).toInt = 0 := by decide
  -- the device's remainder, lifted when negative, is the canonical residue
  have hcanon : (if value % Int64.ofNat modulus < 0 then value % Int64.ofNat modulus + Int64.ofNat modulus
      else value % Int64.ofNat modulus).toInt = canonicalResidue value.toInt modulus := by
    unfold canonicalResidue
    simp only [Int64.lt_iff_toInt_lt, hmod, hzero]
    split
    · rw [Int64.toInt_add, hmod, toInt_ofNat_modulus hb, bmod_word] <;> omega
    · exact hmod
  have hhalf : (Int64.ofNat (modulus / 2)).toInt = ((modulus / 2 : ℕ) : ℤ) :=
    toInt_ofNat_modulus (by omega)
  unfold centerByHalf centeredResidue
  simp only
  generalize (if value % Int64.ofNat modulus < 0 then value % Int64.ofNat modulus + Int64.ofNat modulus
    else value % Int64.ofNat modulus) = reduced at hcanon ⊢
  rw [toInt8_eq_ofInt, apply_ite Int64.toInt]
  simp only [Int64.lt_iff_toInt_lt, hhalf]
  rw [Int64.toInt_sub, toInt_ofNat_modulus hb, hcanon, bmod_word (by omega) (by omega)]
  generalize canonicalResidue value.toInt modulus = canonical at hc0 hc1 ⊢
  -- below `256` the modulus is odd and both halves agree; at `256` the cast wraps
  rcases hodd with hodd | rfl
  · congr 1
    split_ifs <;> omega
  · rw [← Int8.toInt_inj, Int8.toInt_ofInt, Int8.toInt_ofInt]
    change Int.bmod _ (2 ^ 8) = Int.bmod _ (2 ^ 8)
    split_ifs <;> simp only [Int.bmod_def] <;> split_ifs <;> omega

/-- A byte does not see a multiple of `2 ^ 64`. -/
private theorem ofInt_wrap (z : ℤ) : Int8.ofInt (z + 18446744073709551616) = Int8.ofInt z := by
  have hz : (z + 18446744073709551616).bmod 256 = z.bmod 256 := by
    simp only [Int.bmod_def]
    omega
  rw [← Int8.toInt_inj, Int8.toInt_ofInt, Int8.toInt_ofInt]
  exact hz

/-- **`rns8_center_u64_device` is the CPU residue**, of every unsigned value. -/
theorem centerU64Device_eq (value : UInt64) {modulus : ℕ} (hm : 0 < modulus) (hb : modulus ≤ 256) :
    centerU64Device value modulus = centeredResidue (value.toNat : ℤ) modulus := by
  have hof : (UInt64.ofNat modulus).toNat = modulus := UInt64.toNat_ofNat_of_lt' (by
    change modulus < 2 ^ 64; omega)
  have hmod : (value % UInt64.ofNat modulus).toNat = value.toNat % modulus := by
    rw [UInt64.toNat_mod, hof]
  have hlt := Nat.mod_lt value.toNat hm
  have hone : (1 : UInt64).toNat = 1 := by decide
  have htwo : (2 : UInt64).toNat = 2 := by decide
  have hthr : ((UInt64.ofNat modulus + 1) / 2).toNat = (modulus + 1) / 2 := by
    rw [UInt64.toNat_div, UInt64.toNat_add, hof, hone, htwo]
    omega
  have hcanon : canonicalResidue (value.toNat : ℤ) modulus = ((value.toNat % modulus : ℕ) : ℤ) := by
    rw [canonicalResidue_eq _ hm, Int.natCast_mod]
  -- the cast to a byte keeps the value modulo `256`
  have hcast : ∀ x : UInt64, x.toInt64.toInt8 = Int8.ofInt x.toNat := by
    intro x
    have hword : x.toInt64.toInt = (x.toNat : ℤ).bmod (2 ^ 64) :=
      BitVec.toInt_eq_toNat_bmod x.toBitVec
    rw [toInt8_eq_ofInt, ← Int8.toInt_inj, Int8.toInt_ofInt, Int8.toInt_ofInt, hword]
    have hdvd : Int8.size ∣ 2 ^ 64 := Nat.pow_dvd_pow (m := 8) (n := 64) 2 (by decide)
    exact Int.bmod_bmod_of_dvd hdvd
  unfold centerU64Device centeredResidue
  simp only
  rw [and_maskU64, hcast, hcanon]
  simp only [UInt64.le_iff_toNat_le, hthr, hmod, decide_eq_true_eq]
  have hthrZ : ((modulus : ℤ) + 1) / 2 = (((modulus + 1) / 2 : ℕ) : ℤ) := by omega
  rw [hthrZ]
  by_cases h : (modulus + 1) / 2 ≤ value.toNat % modulus
  · -- the difference wraps at `2 ^ 64`, which a byte does not see
    have hsub : ((value % UInt64.ofNat modulus - UInt64.ofNat modulus).toNat : ℤ) =
        ((value.toNat % modulus : ℕ) : ℤ) - modulus + 18446744073709551616 := by
      rw [UInt64.toNat_sub, hmod, hof]
      omega
    rw [if_pos h, if_pos (Int.ofNat_le.2 h), hsub]
    exact ofInt_wrap _
  · rw [if_neg h, if_neg fun h' => h (Int.ofNat_le.1 h'), UInt64.sub_zero, hmod]

theorem fixedModulusCases_getElem? {p modulus : ℕ} (h : fixedModulusCases[p]? = some modulus) :
    modulus = modulusAt p := by
  have key : ∀ p < 20, fixedModulusCases[p]? = some (modulusAt p) := by decide
  have hp : p < 20 := by
    by_contra hp
    rw [List.getElem?_eq_none (by simpa [fixedModulusCases] using hp)] at h
    exact Option.some_ne_none modulus h.symm
  rw [key p hp] at h
  exact (Option.some.inj h).symm

/-- A centering function of the device agrees with the CPU reference on the value that `toInt` reads
off its operand. -/
structure Centers {α : Type} (toInt : α → ℤ) (center : α → ℕ → Int8)
    (centerFixed : α → ℕ → ℕ → Int8) : Prop where
  plain : ∀ value, ∀ p < 28, center value (modulusAt p) = centeredResidue (toInt value) (modulusAt p)
  fixed : ∀ value, ∀ p < 28,
    centerFixed value p (modulusAt p) = centeredResidue (toInt value) (modulusAt p)

theorem centersI64 :
    Centers Int64.toInt centerI64Device centerI64DefaultModulusFixedDevice where
  plain := fun value p hp => centerI64Device_eq value (modulusAt_pos hp) (modulusAt_bounds hp).2
  fixed := by
    intro value p hp
    have hcenter := centerI64Device_eq value (modulusAt_pos hp) (modulusAt_bounds hp).2
    unfold centerI64DefaultModulusFixedDevice
    split
    · next modulus h => rw [fixedModulusCases_getElem? h, hcenter]
    · exact hcenter

theorem centersU64 :
    Centers (fun value : UInt64 => (value.toNat : ℤ)) centerU64Device
      centerU64DefaultModulusFixedDevice where
  plain := fun value p hp => centerU64Device_eq value (modulusAt_pos hp) (modulusAt_bounds hp).2
  fixed := by
    intro value p hp
    have hcenter := centerU64Device_eq value (modulusAt_pos hp) (modulusAt_bounds hp).2
    unfold centerU64DefaultModulusFixedDevice
    split
    · next modulus h => rw [fixedModulusCases_getElem? h, hcenter]
    · exact hcenter

theorem modulusAt_odd_or {p : ℕ} (hp : p < 28) : modulusAt p % 2 = 1 ∨ modulusAt p = 256 := by
  revert p
  decide

/-! ### Kernels -/

section Kernels

variable {α : Type} {toInt : α → ℤ} {center : α → ℕ → Int8} {centerFixed : α → ℕ → ℕ → Int8}
  (src : ℕ → α) (rows cols ld rnsPrefix : ℕ)

/-- The residue that belongs at an index of the planes. -/
def packedAt (toInt : α → ℤ) (i : ℕ) : Int8 :=
  let cell := i % (rows * cols)
  centeredResidue (toInt (src (cell / cols * ld + cell % cols))) (modulusAt (i / (rows * cols)))

variable {rows cols}

private theorem sub_div_mul_nat (a b : ℕ) : a - a / b * b = a % b := by
  have h := Nat.div_add_mod a b
  rw [Nat.mul_comm] at h
  omega

private theorem plane_lt {elements total i : ℕ} (hi : i < elements * total) : i / elements < total :=
  Nat.div_lt_of_lt_mul hi

theorem packKernel_eq (hc : Centers toInt center centerFixed) (hp : rnsPrefix ≤ 28)
    (t : PackThread) :
    packKernel center src rows cols ld rnsPrefix t =
      (chunk 1 (rows * cols * rnsPrefix) t.index).map fun i =>
        (i, packedAt src rows cols ld toInt i) := by
  rw [chunk_one]
  unfold packKernel
  simp only
  split
  · rfl
  · next h =>
    have hplane := plane_lt (Nat.lt_of_not_le h)
    have hcenter := hc.plain (src (t.index % (rows * cols) / cols * ld +
      t.index % (rows * cols) % cols)) _ (hplane.trans_le hp)
    rw [sub_div_mul_nat, sub_div_mul_nat, defaultModuliDevice_eq, List.map_singleton]
    exact congrArg (fun r => [(t.index, r)]) hcenter

/-- With rows that lie one after another a cell is read at its own index. -/
private theorem contiguous_read (cell : ℕ) : cell / cols * cols + cell % cols = cell := by
  rw [Nat.mul_comm]
  exact Nat.div_add_mod cell cols

theorem packedAt_contiguous (i : ℕ) :
    packedAt src rows cols cols toInt i =
      centeredResidue (toInt (src (i % (rows * cols)))) (modulusAt (i / (rows * cols))) :=
  congrArg (fun cell => centeredResidue (toInt (src cell)) (modulusAt (i / (rows * cols))))
    (contiguous_read _)

theorem packContiguousKernel_eq (hc : Centers toInt center centerFixed) (hp : rnsPrefix ≤ 28)
    (t : PackThread) :
    packContiguousKernel center src rows cols rnsPrefix t =
      (chunk 1 (rows * cols * rnsPrefix) t.index).map fun i =>
        (i, packedAt src rows cols cols toInt i) := by
  rw [chunk_one]
  unfold packContiguousKernel
  simp only
  split
  · rfl
  · next h =>
    have hplane := plane_lt (Nat.lt_of_not_le h)
    have hcenter := hc.plain (src (t.index % (rows * cols))) _ (hplane.trans_le hp)
    rw [sub_div_mul_nat, defaultModuliDevice_eq, List.map_singleton]
    rw [packedAt_contiguous]
    exact congrArg (fun r => [(t.index, r)]) hcenter

/-- The residue at a cell of a plane. -/
theorem packedAt_plane {p cell : ℕ} (hcell : cell < rows * cols) :
    packedAt src rows cols ld toInt (p * (rows * cols) + cell) =
      centeredResidue (toInt (src (cell / cols * ld + cell % cols))) (modulusAt p) := by
  obtain ⟨hdiv, hmod⟩ := RowMajor.offset_parts p hcell
  unfold packedAt
  rw [hdiv, hmod]

theorem packFixedPrefixKernel_eq (hc : Centers toInt center centerFixed) (hp : rnsPrefix ≤ 28)
    (t : PackThread) :
    packFixedPrefixKernel centerFixed src rows cols ld rnsPrefix t =
      (inPlanes rnsPrefix (rows * cols) (fun t => chunk 1 (rows * cols) t.index) t).map fun i =>
        (i, packedAt src rows cols ld toInt i) := by
  unfold packFixedPrefixKernel inPlanes
  simp only [chunk_one]
  split
  · simp
  · next h =>
    rw [List.map_flatMap, sub_div_mul_nat, List.map_eq_flatMap]
    refine List.flatMap_congr fun p hmem => ?_
    have hplane := List.mem_range.1 hmem
    have hcenter := hc.fixed (src (t.index / cols * ld + t.index % cols)) p (by omega)
    rw [defaultModuliDevice_eq, List.map_singleton, List.map_singleton,
      packedAt_plane src ld (Nat.lt_of_not_le h)]
    exact congrArg (fun r => [(p * (rows * cols) + t.index, r)]) hcenter

theorem packFixedPrefixContiguousKernel_eq (hc : Centers toInt center centerFixed)
    (hp : rnsPrefix ≤ 28) (width : ℕ) (t : PackThread) :
    packFixedPrefixContiguousKernel centerFixed src rows cols rnsPrefix width t =
      (inPlanes rnsPrefix (rows * cols) (fun t => chunk width (rows * cols) t.index) t).map fun i =>
        (i, packedAt src rows cols cols toInt i) := by
  unfold packFixedPrefixContiguousKernel inPlanes
  simp only
  split
  · next h => simp [chunk_of_le h]
  · rw [List.map_flatMap]
    refine List.flatMap_congr fun p hmem => ?_
    have hplane := List.mem_range.1 hmem
    rw [filter_range_add, chunk, List.map_map, List.map_map]
    refine List.map_congr_left fun c hc' => ?_
    have hc' := List.mem_range.1 hc'
    have hcell : t.index * width + c < rows * cols := by omega
    have hcenter := hc.fixed (src (t.index * width + c)) p (by omega)
    change _ = (p * (rows * cols) + (t.index * width + c),
      packedAt src rows cols cols toInt (p * (rows * cols) + (t.index * width + c)))
    rw [packedAt_plane src cols hcell, contiguous_read, ← hcenter, Nat.add_assoc]
    rfl

end Kernels

section KernelsI64

variable (src : ℕ → Int64) (rows cols ld rnsPrefix : ℕ)

theorem packNativeI64ToRns8wideVopdKernel_eq {plane : ℕ} (hp : plane < 28) (t : PackThread) :
    packNativeI64ToRns8wideVopdKernel src rows cols ld plane (kDefaultModuli.getD plane 0) t =
      ((chunk 8 (rows * cols) t.index).map fun i => plane * (rows * cols) + i).map fun i =>
        (i, packedAt src rows cols ld Int64.toInt i) := by
  unfold packNativeI64ToRns8wideVopdKernel
  simp only
  split
  · next h => simp [chunk_of_le h]
  · rw [takeWhile_range_add, chunk, List.map_map, List.map_map]
    refine List.map_congr_left fun c hc => ?_
    have hc := List.mem_range.1 hc
    have hcell : t.index * 8 + c < rows * cols := by omega
    have hcenter := centerByHalf_eq (src ((t.index * 8 + c) / cols * ld + (t.index * 8 + c) % cols))
      (modulusAt_pos hp) (modulusAt_bounds hp).2 (modulusAt_odd_or hp)
    change _ = (plane * (rows * cols) + (t.index * 8 + c),
      packedAt src rows cols ld Int64.toInt (plane * (rows * cols) + (t.index * 8 + c)))
    rw [packedAt_plane src ld hcell, sub_div_mul_nat, ← hcenter]
    rfl

theorem packI64FourWideCoalescedKernel_eq (hp : rnsPrefix ≤ 28) (t : PackThread) :
    packI64FourWideCoalescedKernel src rows cols rnsPrefix t =
      (chunk 4 (rows * cols * rnsPrefix) t.index).map fun i =>
        (i, packedAt src rows cols cols Int64.toInt i) := by
  have hbase : t.1 * 256 * 4 + t.2 * 4 = t.index * 4 := (Nat.add_mul _ _ _).symm
  unfold packI64FourWideCoalescedKernel
  simp only [hbase]
  split
  · next h => simp [chunk_of_le h]
  · rw [takeWhile_range_add, chunk, List.map_map]
    refine List.map_congr_left fun c hc => ?_
    have hc := List.mem_range.1 hc
    have hindex : t.index * 4 + c < rows * cols * rnsPrefix := by omega
    have hplane := plane_lt hindex
    have hcenter := centersI64.plain (src ((t.index * 4 + c) % (rows * cols))) _ (hplane.trans_le hp)
    change _ = (t.index * 4 + c, packedAt src rows cols cols Int64.toInt (t.index * 4 + c))
    rw [sub_div_mul_nat, packedAt_contiguous, defaultModuliDevice_eq]
    exact congrArg (fun r => (t.index * 4 + c, r)) hcenter

theorem persistentSmallPackI64Kernel_eq (hp : rnsPrefix ≤ 28) (t : PackThread) :
    persistentSmallPackI64Kernel src rows cols ld rnsPrefix t =
      (chunk 1 (rows * cols * rnsPrefix) t.index).map fun i =>
        (i, packedAt src rows cols ld Int64.toInt i) := by
  rw [chunk_one]
  unfold persistentSmallPackI64Kernel
  simp only
  split
  · rfl
  · next h =>
    have hplane := (plane_lt (Nat.lt_of_not_le h)).trans_le hp
    have hcenter := centerByHalf_eq (src (t.index % (rows * cols) / cols * ld +
      t.index % (rows * cols) % cols)) (modulusAt_pos hplane) (modulusAt_bounds hplane).2
      (modulusAt_odd_or hplane)
    rw [sub_div_mul_nat, sub_div_mul_nat, defaultModuliDevice_eq, List.map_singleton]
    exact congrArg (fun r => [(t.index, r)]) hcenter

end KernelsI64

end Rns8
