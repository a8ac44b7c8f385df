import Rns8.Hip.ResidueDot

/-!
# The device reducers are the CPU reference

Every reducer of the device code, for each of its moduli and the whole range of the accumulator, and
the blocked dot product for every length, stride and content.
-/

namespace Rns8

/-- **Device residue reducers equal the CPU reference.** -/
theorem deviceReducers_eq_cpu {modulus : UInt32} (h : DeviceModulus modulus) :
    (∀ value : Int32,
      reduceToCenteredI32 value modulus (modulusReciprocalU32 modulus) =
          reduceToCentered value.toInt modulus.toNat ∧
        reduceToCenteredAcceleratorI32 value modulus (modulusReciprocalU32 modulus) =
          reduceToCentered value.toInt modulus.toNat ∧
        reduceToCenteredCkI32 value modulus (modulusReciprocalU32 modulus) =
          reduceToCentered value.toInt modulus.toNat ∧
        reduceToCenteredFixedI32 modulus value = reduceToCentered value.toInt modulus.toNat ∧
        (modulus ∈ staticByteModuli → reduceToCenteredStaticByteModulusI32 value modulus =
          reduceToCentered value.toInt modulus.toNat)) ∧
    (∀ value : UInt32,
      (reduceU32 value modulus (modulusReciprocalU32 modulus)).toNat =
          value.toNat % modulus.toNat ∧
        (reduceU32Fixed modulus value).toNat = value.toNat % modulus.toNat) ∧
    ∀ (a b : ℤ → Int8) (bStride : ℤ) (k : ℕ),
      centeredResidueDot a b k bStride modulus =
          reduceToCentered (exactDot a b bStride 0 k) modulus.toNat ∧
        ∀ r ∈ kBlocks k, ∀ n ≤ r.kBlock,
          (residueDotBlock a b bStride r.kOffset n).toInt = exactDot a b bStride r.kOffset n ∧
            ∀ reduced : Int8, (residueDotBlock a b bStride r.kOffset n + reduced.toInt32).toInt =
              exactDot a b bStride r.kOffset n + reduced.toInt := by
  refine ⟨fun value => ⟨reduceToCenteredI32_eq value h, reduceToCenteredI32_eq value h,
    reduceToCenteredI32_eq value h, reduceToCenteredFixedI32_eq value h, fun hmem => ?_⟩,
    fun value => ⟨reduceU32_toNat value h, reduceU32Fixed_toNat value h⟩,
    fun a b bStride k => ⟨centeredResidueDot_eq a b bStride h k, fun r hr n hn => ?_⟩⟩
  · rw [reduceToCenteredStaticByteModulusI32, if_pos hmem]
    exact reduceToCenteredFixedI32_eq value h
  · have hsafe : n ≤ kResidueDotKBlock := hn.trans (kBlock_le_of_mem hr)
    exact ⟨residueDotBlock_toInt a b bStride _ hsafe, residueDotBlock_add_toInt a b bStride _ hsafe⟩

theorem deviceReducers_eq_cpu_mod253 :
    reduceToCenteredI32 (-2147483648) 253 (modulusReciprocalU32 253) =
      reduceToCentered (-2147483648) 253 :=
  ((@deviceReducers_eq_cpu 253 ⟨by decide, by decide⟩).1 (-2147483648)).1

end Rns8
