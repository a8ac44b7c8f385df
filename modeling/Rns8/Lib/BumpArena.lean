import Mathlib.Tactic

/-!
# Arenas cut into aligned regions

A list of sizes is laid out in one block of memory: every region that is not empty starts at the next
multiple of the alignment, and the block ends where the last region ends. `regions` is the layout in
unbounded arithmetic; its regions are aligned, disjoint and inside the block. `reserve` and `assign`
are the two passes of a program that computes it in machine words: the first finds the size of the
block and refuses a region that would pass the largest word, the second hands out the offsets. The
rounding itself is unchecked; where no cursor comes within an alignment of the word size both passes
compute the unbounded layout (`reserve_eq`, `assign_eq`).
-/

namespace BumpArena

/-- The next multiple of the alignment. -/
def alignUp (align cursor : ℕ) : ℕ := (cursor + align - 1) / align * align

theorem dvd_alignUp (align cursor : ℕ) : align ∣ alignUp align cursor := Nat.dvd_mul_left _ _

theorem le_alignUp {align : ℕ} (hpos : 0 < align) (cursor : ℕ) : cursor ≤ alignUp align cursor := by
  have hdiv := Nat.div_add_mod (cursor + align - 1) align
  have hmod := Nat.mod_lt (cursor + align - 1) hpos
  rw [Nat.mul_comm] at hdiv
  unfold alignUp
  omega

theorem alignUp_le (align cursor : ℕ) : alignUp align cursor ≤ cursor + (align - 1) := by
  have := Nat.div_mul_le_self (cursor + align - 1) align
  unfold alignUp
  omega

/-- The cursor behind a region of the given size. -/
def advance (align cursor bytes : ℕ) : ℕ :=
  if bytes = 0 then cursor else alignUp align cursor + bytes

theorem le_advance {align : ℕ} (hpos : 0 < align) (cursor bytes : ℕ) :
    cursor ≤ advance align cursor bytes := by
  have := le_alignUp hpos cursor
  unfold advance
  split <;> omega

theorem advance_le (align cursor bytes : ℕ) :
    advance align cursor bytes ≤ cursor + bytes + (align - 1) := by
  have := alignUp_le align cursor
  unfold advance
  split <;> omega

/-- The cursor behind all the regions. -/
def extent (align : ℕ) : ℕ → List ℕ → ℕ
  | cursor, [] => cursor
  | cursor, bytes :: sizes => extent align (advance align cursor bytes) sizes

theorem le_extent {align : ℕ} (hpos : 0 < align) (cursor : ℕ) (sizes : List ℕ) :
    cursor ≤ extent align cursor sizes := by
  induction sizes generalizing cursor with
  | nil => exact le_rfl
  | cons bytes sizes ih => exact (le_advance hpos cursor bytes).trans (ih _)

/-- A region of the block. -/
structure Region where
  offset : ℕ
  bytes : ℕ
  deriving DecidableEq, Repr

/-- The offsets of the regions; an empty region has none. -/
def offsets (align : ℕ) : ℕ → List ℕ → List (Option ℕ)
  | _, [] => []
  | cursor, bytes :: sizes =>
    (if bytes = 0 then none else some (alignUp align cursor)) ::
      offsets align (advance align cursor bytes) sizes

@[simp] theorem length_offsets (align cursor : ℕ) (sizes : List ℕ) :
    (offsets align cursor sizes).length = sizes.length := by
  induction sizes generalizing cursor with
  | nil => rfl
  | cons bytes sizes ih => rw [offsets, List.length_cons, List.length_cons, ih]

/-- The regions of a list of offsets and sizes. -/
def regionsOf (places : List (Option ℕ)) (sizes : List ℕ) : List Region :=
  (places.zip sizes).filterMap fun p => p.1.map fun offset => ⟨offset, p.2⟩

/-- The regions laid out from the cursor on. -/
def regions (align cursor : ℕ) (sizes : List ℕ) : List Region :=
  regionsOf (offsets align cursor sizes) sizes

theorem regions_cons (align cursor bytes : ℕ) (sizes : List ℕ) :
    regions align cursor (bytes :: sizes) =
      (if bytes = 0 then [] else [⟨alignUp align cursor, bytes⟩]) ++
        regions align (advance align cursor bytes) sizes := by
  by_cases h : bytes = 0 <;> simp [regions, regionsOf, offsets, h]

/-- What a layout guarantees of each region. -/
theorem regions_spec {align : ℕ} (hpos : 0 < align) (cursor : ℕ) (sizes : List ℕ) :
    ∀ r ∈ regions align cursor sizes, align ∣ r.offset ∧ 0 < r.bytes ∧ cursor ≤ r.offset ∧
      r.offset + r.bytes ≤ extent align cursor sizes := by
  induction sizes generalizing cursor with
  | nil => simp [regions, regionsOf, offsets]
  | cons bytes sizes ih =>
    intro r hr
    rw [regions_cons, List.mem_append] at hr
    have hge := le_alignUp hpos cursor
    rcases hr with hr | hr
    · by_cases hb : bytes = 0
      · simp [hb] at hr
      · have hext := le_extent hpos (advance align cursor bytes) sizes
        simp only [advance, if_neg hb] at hext
        simp only [if_neg hb, List.mem_singleton] at hr
        subst hr
        simp only [extent, advance, if_neg hb]
        exact ⟨dvd_alignUp _ _, by omega, hge, hext⟩
    · obtain ⟨hdvd, hb, hlo, hhi⟩ := ih (advance align cursor bytes) r hr
      exact ⟨hdvd, hb, (le_advance hpos cursor bytes).trans hlo, hhi⟩

/-- **The regions are disjoint**: each one ends before the next begins. -/
theorem regions_pairwise {align : ℕ} (hpos : 0 < align) (cursor : ℕ) (sizes : List ℕ) :
    (regions align cursor sizes).Pairwise fun r s => r.offset + r.bytes ≤ s.offset := by
  induction sizes generalizing cursor with
  | nil => exact List.Pairwise.nil
  | cons bytes sizes ih =>
    rw [regions_cons]
    by_cases hb : bytes = 0
    · simpa [hb] using ih (advance align cursor bytes)
    · rw [if_neg hb, List.singleton_append, List.pairwise_cons]
      refine ⟨fun s hs => ?_, ih _⟩
      have := (regions_spec hpos (advance align cursor bytes) sizes s hs).2.2.1
      simpa [advance, hb] using this

/-- A region has no offset exactly when it is empty. -/
theorem offset_eq_none_iff (align cursor : ℕ) (sizes : List ℕ) :
    ∀ p ∈ (offsets align cursor sizes).zip sizes, p.1 = none ↔ p.2 = 0 := by
  induction sizes generalizing cursor with
  | nil => simp [offsets]
  | cons bytes sizes ih =>
    intro p hp
    simp only [offsets, List.zip_cons_cons, List.mem_cons] at hp
    rcases hp with rfl | hp
    · by_cases hb : bytes = 0 <;> simp [hb]
    · exact ih _ p hp

/-- Every size fits into the block. -/
theorem le_extent_of_mem {align : ℕ} (hpos : 0 < align) {cursor bytes : ℕ} {sizes : List ℕ}
    (hmem : bytes ∈ sizes) : bytes ≤ extent align cursor sizes := by
  induction sizes generalizing cursor with
  | nil => cases hmem
  | cons b sizes ih =>
    rcases List.mem_cons.1 hmem with rfl | hmem
    · have h1 := le_extent hpos (advance align cursor bytes) sizes
      have h2 := le_alignUp hpos cursor
      simp only [extent]
      unfold advance at h1 ⊢
      split at h1 <;> split <;> omega
    · exact ih hmem

/-! ### The two passes in machine words -/

/-- Rounding up in words below `W`: the sum wraps. -/
def alignUpWord (W align cursor : ℕ) : ℕ := (cursor + align - 1) % W / align * align

/-- The first pass: the size of the block, or nothing when a region passes the largest word. -/
def reserve (W align : ℕ) : ℕ → List ℕ → Option ℕ
  | cursor, [] => some cursor
  | cursor, bytes :: sizes =>
    if bytes = 0 then reserve W align cursor sizes
    else if W - 1 - bytes < alignUpWord W align cursor then none
    else reserve W align (alignUpWord W align cursor + bytes) sizes

/-- The number of regions that the first pass counts. -/
def reservedCount (sizes : List ℕ) : ℕ := (sizes.filter fun bytes => bytes ≠ 0).length

/-- The second pass: the offset of every region, none for an empty one. -/
def assign (W align : ℕ) : ℕ → List ℕ → List (Option ℕ)
  | _, [] => []
  | cursor, bytes :: sizes =>
    if bytes = 0 then none :: assign W align cursor sizes
    else some (alignUpWord W align cursor) ::
      assign W align ((alignUpWord W align cursor + bytes) % W) sizes

/-- No cursor at which a region starts comes within an alignment of the word size. -/
def Roomy (W align : ℕ) : ℕ → List ℕ → Prop
  | _, [] => True
  | cursor, bytes :: sizes =>
    (bytes ≠ 0 → cursor + align - 1 < W) ∧ Roomy W align (advance align cursor bytes) sizes

variable {W align : ℕ}

theorem alignUpWord_eq {cursor : ℕ} (h : cursor + align - 1 < W) :
    alignUpWord W align cursor = alignUp align cursor := by
  rw [alignUpWord, Nat.mod_eq_of_lt h, alignUp]

/-- **The first pass finds the end of the layout.** -/
theorem reserve_eq {cursor total : ℕ} {sizes : List ℕ} (hroom : Roomy W align cursor sizes)
    (h : reserve W align cursor sizes = some total) : total = extent align cursor sizes := by
  induction sizes generalizing cursor with
  | nil => exact (Option.some.inj h).symm
  | cons bytes sizes ih =>
    obtain ⟨hcur, hrest⟩ := hroom
    by_cases hb : bytes = 0
    · simp only [reserve, if_pos hb] at h
      simp only [advance, if_pos hb] at hrest
      simpa only [extent, advance, if_pos hb] using ih hrest h
    · simp only [reserve, if_neg hb, alignUpWord_eq (hcur hb)] at h
      simp only [advance, if_neg hb] at hrest
      split at h
      · cases h
      · simpa only [extent, advance, if_neg hb] using ih hrest h

/-- The block that the first pass accepts has a size below the word size. -/
theorem reserve_lt {cursor total : ℕ} {sizes : List ℕ} (hcur : cursor < W)
    (hsizes : ∀ bytes ∈ sizes, bytes < W) (h : reserve W align cursor sizes = some total) :
    total < W := by
  induction sizes generalizing cursor with
  | nil => exact Option.some.inj h ▸ hcur
  | cons bytes sizes ih =>
    have hrest : ∀ b ∈ sizes, b < W := fun b hb => hsizes b (List.mem_cons_of_mem _ hb)
    have hbytes := hsizes bytes List.mem_cons_self
    by_cases hb : bytes = 0
    · simp only [reserve, if_pos hb] at h
      exact ih hcur hrest h
    · simp only [reserve, if_neg hb] at h
      split at h
      · cases h
      · exact ih (by omega) hrest h

/-- **The second pass hands out the offsets of the layout.** -/
theorem assign_eq (hpos : 0 < align) {cursor : ℕ} {sizes : List ℕ}
    (hroom : Roomy W align cursor sizes) (hfit : extent align cursor sizes < W) :
    assign W align cursor sizes = offsets align cursor sizes := by
  induction sizes generalizing cursor with
  | nil => rfl
  | cons bytes sizes ih =>
    obtain ⟨hcur, hrest⟩ := hroom
    have hend := le_extent hpos (advance align cursor bytes) sizes
    by_cases hb : bytes = 0
    · simp only [extent, advance, if_pos hb] at hrest hfit
      simp only [assign, offsets, advance, if_pos hb, ih hrest hfit]
    · simp only [extent, advance, if_neg hb] at hrest hfit hend
      have hmod : (alignUp align cursor + bytes) % W = alignUp align cursor + bytes :=
        Nat.mod_eq_of_lt (by omega)
      simp only [assign, offsets, advance, if_neg hb, alignUpWord_eq (hcur hb), hmod,
        ih hrest hfit]

end BumpArena
