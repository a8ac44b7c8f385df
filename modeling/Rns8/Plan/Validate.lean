import Rns8.Core.Residue

/-!
# Descriptor validation

The checks of `moduli.cpp`: which descriptors describe a plan or a matrix, how many moduli a range
needs, and which bound a prefix can carry. All comparisons are between multiprecision integers in
the source, so they are between naturals here.
-/

namespace Rns8

/-- `valid_tile_size` and `valid_api_tile_size`: `0`, or a power of two from `64` to `512`. -/
def validTileSize (value : ℕ) : Bool :=
  decide (value = 0) ||
    (decide (64 ≤ value) && decide (value ≤ 512) && decide (value &&& (value - 1) = 0))

/-- `configured_tile_size_valid`. -/
def configuredTileSizeValid (value : ℕ) : Bool :=
  decide (64 ≤ value) && decide (value ≤ 512) && decide (value &&& (value - 1) = 0)

/-- `valid_zero_mask`. -/
def validZeroMask (mask : CallerArray ℕ) (count expectedCount : ℕ) : Bool :=
  match mask with
  | none => false
  | some values => decide (count = expectedCount) && (List.range count).all fun i => decide (values i ≤ 1)

/-- `known_semantics`. -/
def knownSemantics (semantics : Semantics) : Bool := semantics != .research

/-- `valid_finite_ring_modulus`. -/
def validFiniteRingModulus (modulus : ℕ) : Bool := decide (2 ≤ modulus) && decide (modulus ≤ 256)

/-- `valid_finite_field_modulus`; no divisor above `15` has a square up to `251`. -/
def validFiniteFieldModulus (modulus : ℕ) : Bool :=
  decide (2 ≤ modulus) && decide (modulus ≤ 251) &&
    (List.range 16).all fun divisor =>
      !(decide (2 ≤ divisor) && decide (divisor * divisor ≤ modulus)) || decide (modulus % divisor ≠ 0)

/-- `valid_finite_modulus_for_semantics`. -/
def validFiniteModulusForSemantics (semantics : Semantics) (modulus : ℕ) : Bool :=
  match semantics with
  | .finiteFieldU8 => validFiniteFieldModulus modulus
  | .finiteRingU8 => validFiniteRingModulus modulus
  | _ => false

/-- `bit_length`. -/
def bitLength (value : ℕ) : ℕ := if value = 0 then 0 else Nat.log2 value + 1

/-- The loop of `required_prefix_for_range`, from `rnsPrefix` on with the product so far. -/
def requiredPrefixLoop (range : ℕ) : ℕ → ℕ → ℕ → ℕ
  | 0, _, _ => 0
  | passes + 1, rnsPrefix, product =>
    let product := product * modulusAt (rnsPrefix - 1)
    if range < product then rnsPrefix else requiredPrefixLoop range passes (rnsPrefix + 1) product

/-- `required_prefix_for_range`: the least prefix whose modulus product exceeds the range, `0` if
none of the supported ones does. -/
def requiredPrefixForRange (range : ℕ) : ℕ := requiredPrefixLoop range maxSupportedPrefix 1 1

/-- `default_prefix_for_semantics`. -/
def defaultPrefixForSemantics : Semantics → ℕ
  | .boundedI64 | .boundedU64 => defaultBoundedPrefix
  | .exactWideSigned | .exactWideUnsigned => maxSupportedPrefix
  | _ => 0

/-- The largest output bound of a bounded semantics. -/
def maxOutputBound (semantics : Semantics) : ℕ :=
  if semantics = .boundedI64 then 2 ^ 63 else 2 ^ 64 - 1

/-- `input_range_output_bound`. -/
def inputRangeOutputBound (desc : GemmDesc) : Option ℕ :=
  if desc.boundKind ≠ .inputRangeAndK ∨
      (desc.semantics ≠ .boundedI64 ∧ desc.semantics ≠ .boundedU64) ∨ desc.k = 0 then none
  else if desc.semantics = .boundedI64 ∧ (2 ^ 63 < desc.lhsBound ∨ 2 ^ 63 < desc.rhsBound) then none
  else if maxOutputBound desc.semantics < desc.k * desc.lhsBound * desc.rhsBound then none
  else some (desc.k * desc.lhsBound * desc.rhsBound)

/-- `bounded_range_from_bound`. -/
def boundedRangeFromBound (semantics : Semantics) (bound : ℕ) : ℕ :=
  if semantics = .boundedI64 then 2 * bound else bound

/-- `schedule_required_range`. -/
def scheduleRequiredRange (desc : GemmDesc) : ℕ :=
  match desc.semantics with
  | .boundedI64 | .boundedU64 =>
    if desc.boundKind = .inputRangeAndK then
      match inputRangeOutputBound desc with
      | none => 0
      | some outputBound => boundedRangeFromBound desc.semantics outputBound
    else boundedRangeFromBound desc.semantics desc.bound
  | .exactWideSigned => desc.k * 2 ^ 127
  | .exactWideUnsigned => desc.k * 2 ^ 128
  | _ => 0

/-- `validate_bound_contract`. -/
def validateBoundContract (semantics : Semantics) (boundKind : BoundKind) (bound rnsPrefix : ℕ) :
    Status :=
  if !knownSemantics semantics then .invalidArgument
  else if rnsPrefix = 0 ∨ maxSupportedPrefix < rnsPrefix then .invalidArgument
  else match semantics with
    | .boundedI64 =>
      match boundKind with
      | .inputRangeAndK => .unsupportedBackend
      | .perTileMaxAbs => if bound = 0 then .success else .invalidArgument
      | .none | .globalMaxUnsigned | .perTileMaxUnsigned => .invalidArgument
      | .globalMaxAbs =>
        if 2 ^ 63 < bound then .invalidArgument
        else if 2 * bound < modulusProduct rnsPrefix then .success else .rangeError
    | .boundedU64 =>
      match boundKind with
      | .inputRangeAndK => .unsupportedBackend
      | .perTileMaxUnsigned => if bound = 0 then .success else .invalidArgument
      | .none | .globalMaxAbs | .perTileMaxAbs => .invalidArgument
      | .globalMaxUnsigned => if bound < modulusProduct rnsPrefix then .success else .rangeError
    | _ => .unsupportedBackend

/-- The checks of `validate_gemm_desc` that do not depend on the semantics. -/
def gemmDescCommonOk (desc : GemmDesc) : Bool :=
  let perTileBounds := isPerTileBoundKind desc.boundKind
  let zeroTileSkips := desc.flags.allowProvenZeroTileSkips
  let zeroRowColSkips := desc.flags.allowProvenZeroRowColSkips
  desc.abiOk && decide (0 < desc.m) && decide (0 < desc.n) && decide (0 < desc.k) &&
    !desc.flags.reserved && validTileSize desc.tileM && validTileSize desc.tileN &&
    !(!perTileBounds && (desc.tileBounds.isSome || decide (desc.tileBoundsCount ≠ 0))) &&
    !(!zeroRowColSkips && (desc.zeroARows.isSome || decide (desc.zeroARowsCount ≠ 0) ||
      desc.zeroBCols.isSome || decide (desc.zeroBColsCount ≠ 0))) &&
    !(zeroTileSkips && !perTileBounds) &&
    !(zeroRowColSkips && (!perTileBounds ||
      !validZeroMask desc.zeroARows desc.zeroARowsCount desc.m ||
      !validZeroMask desc.zeroBCols desc.zeroBColsCount desc.n)) &&
    knownSemantics desc.semantics &&
    !(!usesFiniteStorage desc.semantics && decide (desc.finiteModulus ≠ 0)) &&
    !(decide (desc.boundKind ≠ .inputRangeAndK) &&
      (decide (desc.lhsBound ≠ 0) || decide (desc.rhsBound ≠ 0)))

/-- `validate_gemm_desc`. -/
def validateGemmDesc (desc : GemmDesc) (rnsPrefix : ℕ) : Status :=
  if !gemmDescCommonOk desc then .invalidArgument
  else if exactWideSemantics desc.semantics then
    if desc.boundKind ≠ .none ∨ desc.bound ≠ 0 then .invalidArgument
    else if rnsPrefix = 0 ∨ maxSupportedPrefix < rnsPrefix then .invalidArgument
    else if scheduleRequiredRange desc < modulusProduct rnsPrefix then .success else .rangeError
  else if desc.semantics = .wrapU64Mod2_64 then
    if desc.boundKind ≠ .none ∨ desc.bound ≠ 0 ∨ rnsPrefix ≠ 0 ∨ desc.flags.forceFixedPrefix = true
    then .invalidArgument else .success
  else if usesFiniteStorage desc.semantics then
    if desc.boundKind ≠ .none ∨ desc.bound ≠ 0 ∨ desc.maxPrefix ≠ 0 ∨ rnsPrefix ≠ 0 ∨
        desc.flags.forceFixedPrefix = true ∨
        validFiniteModulusForSemantics desc.semantics desc.finiteModulus = false
    then .invalidArgument else .success
  else if desc.boundKind = .inputRangeAndK then
    if desc.bound ≠ 0 ∨ desc.tileBounds.isSome = true ∨ desc.tileBoundsCount ≠ 0 ∨
        (desc.semantics ≠ .boundedI64 ∧ desc.semantics ≠ .boundedU64) then .invalidArgument
    else match inputRangeOutputBound desc with
      | none => .rangeError
      | some outputBound =>
        -- the only branch that does not test the prefix against the supported maximum; a prefix
        -- past the end of the table is read out of bounds by the code, as a zero modulus here
        if boundedRangeFromBound desc.semantics outputBound < modulusProduct rnsPrefix then .success
        else .rangeError
  else validateBoundContract desc.semantics desc.boundKind desc.bound rnsPrefix

/-- `validate_matrix_desc`. -/
def validateMatrixDesc (desc : MatrixDesc) (rnsPrefix : ℕ) : Status :=
  let layoutStatus : Status :=
    if desc.logicalLayout = .columnMajor then .unsupportedBackend else .success
  if !desc.abiOk then .invalidArgument
  else if desc.rows = 0 ∨ desc.cols = 0 then .invalidArgument
  else if desc.flagsSet then .invalidArgument
  else if !knownSemantics desc.semantics then .invalidArgument
  else if desc.logicalLd ≠ 0 ∧ desc.logicalLd < desc.cols then .invalidArgument
  else if !validTileSize desc.tileM || !validTileSize desc.tileN then .invalidArgument
  else match desc.semantics with
    | .boundedI64 =>
      if rnsPrefix = 0 ∨ maxSupportedPrefix < rnsPrefix then .invalidArgument
      else if desc.boundKind ≠ .globalMaxAbs ∧ desc.boundKind ≠ .perTileMaxAbs then .invalidArgument
      else layoutStatus
    | .boundedU64 =>
      if rnsPrefix = 0 ∨ maxSupportedPrefix < rnsPrefix then .invalidArgument
      else if desc.boundKind ≠ .globalMaxUnsigned ∧ desc.boundKind ≠ .perTileMaxUnsigned then
        .invalidArgument
      else layoutStatus
    | .exactWideSigned | .exactWideUnsigned =>
      if rnsPrefix = 0 ∨ maxSupportedPrefix < rnsPrefix then .invalidArgument
      else if desc.boundKind ≠ .none then .invalidArgument
      else layoutStatus
    | .wrapU64Mod2_64 =>
      if desc.boundKind ≠ .none ∨ rnsPrefix ≠ 0 then .invalidArgument else layoutStatus
    | .finiteRingU8 | .finiteFieldU8 =>
      if rnsPrefix ≠ 0 ∨ desc.maxPrefix ≠ 0 ∨ desc.boundKind ≠ .none then .invalidArgument
      else layoutStatus
    | .research => .invalidArgument

/-! ### The required prefix -/

/-- What the loop returns when it starts at `p + 1` with the product of the first `p` moduli: the
least prefix from there on that exceeds the range. -/
private theorem requiredPrefixLoop_spec (range passes p : ℕ) :
    let r := requiredPrefixLoop range passes (p + 1) (modulusProduct p)
    (r = 0 ∧ ∀ s, p < s → s ≤ p + passes → modulusProduct s ≤ range) ∨
      (p < r ∧ r ≤ p + passes ∧ range < modulusProduct r ∧
        ∀ s, p < s → s < r → modulusProduct s ≤ range) := by
  induction passes generalizing p with
  | zero => exact Or.inl ⟨rfl, fun s h1 h2 => by omega⟩
  | succ passes ih =>
    simp only [requiredPrefixLoop, Nat.add_sub_cancel, ← modulusProduct_succ]
    split
    · next h => exact Or.inr ⟨by omega, by omega, h, fun s h1 h2 => by omega⟩
    · next h =>
      rcases ih (p + 1) with ⟨h0, hall⟩ | ⟨hlt, hle, hr, hall⟩
      · refine Or.inl ⟨h0, fun s h1 h2 => ?_⟩
        rcases Nat.lt_or_ge (p + 1) s with hs | hs
        · exact hall s hs (by omega)
        · obtain rfl : s = p + 1 := by omega
          omega
      · refine Or.inr ⟨by omega, by omega, hr, fun s h1 h2 => ?_⟩
        rcases Nat.lt_or_ge (p + 1) s with hs | hs
        · exact hall s hs h2
        · obtain rfl : s = p + 1 := by omega
          omega

/-- A positive result is a supported prefix that carries the range. -/
theorem requiredPrefixForRange_spec {range : ℕ} (h : requiredPrefixForRange range ≠ 0) :
    0 < requiredPrefixForRange range ∧ requiredPrefixForRange range ≤ maxSupportedPrefix ∧
      range < modulusProduct (requiredPrefixForRange range) := by
  rcases requiredPrefixLoop_spec range maxSupportedPrefix 0 with ⟨h0, -⟩ | ⟨h1, h2, h3, -⟩
  · exact absurd h0 h
  · exact ⟨h1, by simpa [requiredPrefixForRange] using h2, h3⟩

/-- The result is the least prefix that carries the range. -/
theorem requiredPrefixForRange_le {range s : ℕ} (hs : 0 < s) (hs' : s ≤ maxSupportedPrefix)
    (h : range < modulusProduct s) :
    requiredPrefixForRange range ≠ 0 ∧ requiredPrefixForRange range ≤ s := by
  rcases requiredPrefixLoop_spec range maxSupportedPrefix 0 with ⟨-, hall⟩ | ⟨h1, -, -, hall⟩
  · exact absurd (hall s hs (by simpa using hs')) (not_le.2 h)
  · refine ⟨Nat.pos_iff_ne_zero.1 h1, ?_⟩
    by_contra hlt
    exact absurd (hall s hs (not_le.1 hlt)) (not_le.2 h)

end Rns8
