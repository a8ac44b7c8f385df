import Rns8.Hip.DeviceOp
import Rns8.Hip.ShapeChecks
import Rns8.Lib.StridedBuffer

/-!
# Accesses to the caller's memory

What a call of the direct HIP backend does to the buffers of its caller, and the byte counts it
computes for its copies. An upload reads the whole pitch of its source; a download writes row by row
(`copy_compact_matrix_device_to_host`), through a pinned buffer or directly into the destination.
-/

namespace Rns8

open StridedBuffer

/-- One entry in the record of a call: a byte count with its mathematical value, or an access to a
matrix of the caller. -/
inductive HostAccess
  | count (computed exact : ℕ)
  | read (source : Strided) (span : Span)
  | write (target : Strided) (span : Span)
  deriving DecidableEq, Repr

/-- A count is exact; an access touches logical cells; only a successful call writes. -/
def HostAccess.Safe (status : Status) : HostAccess → Prop
  | .count computed exact => computed = exact
  | .read source span => span.Within source
  | .write target span => span.Within target ∧ status = .success

/-- The access changes the caller's memory. -/
def HostAccess.isWrite : HostAccess → Bool
  | .write .. => true
  | _ => false

/-- Every access of the list is safe in a call with that status. -/
def AllSafe (status : Status) (accesses : List HostAccess) : Prop :=
  ∀ access ∈ accesses, access.Safe status

/-- No access of the list is a write. -/
def NoWrites (accesses : List HostAccess) : Prop := ∀ access ∈ accesses, access.isWrite = false

/-- The record of a call. -/
structure HostCall where
  status : Status
  accesses : List HostAccess := []

/-- Every entry of the record is safe. -/
def HostCall.Safe (call : HostCall) : Prop := AllSafe call.status call.accesses

/-- The call goes on when its first part succeeds. -/
def HostCall.andThen (call next : HostCall) : HostCall :=
  if call.status = .success then ⟨next.status, call.accesses ++ next.accesses⟩ else call

section Lists

variable {status status' : Status} {access : HostAccess} {l l' : List HostAccess}

@[simp] theorem allSafe_nil : AllSafe status [] := fun _ h => absurd h List.not_mem_nil

@[simp] theorem allSafe_cons : AllSafe status (access :: l) ↔ access.Safe status ∧ AllSafe status l :=
  List.forall_mem_cons

@[simp] theorem allSafe_append : AllSafe status (l ++ l') ↔ AllSafe status l ∧ AllSafe status l' :=
  List.forall_mem_append

@[simp] theorem noWrites_nil : NoWrites [] := fun _ h => absurd h List.not_mem_nil

@[simp] theorem noWrites_cons : NoWrites (access :: l) ↔ access.isWrite = false ∧ NoWrites l :=
  List.forall_mem_cons

@[simp] theorem noWrites_append : NoWrites (l ++ l') ↔ NoWrites l ∧ NoWrites l' :=
  List.forall_mem_append

/-- What writes nothing is safe whatever the call returns. -/
theorem NoWrites.allSafe (h : NoWrites l) (hs : AllSafe status l) : AllSafe status' l := by
  intro access hmem
  have hw := h access hmem
  have hsafe := hs access hmem
  cases access with
  | count computed exact => exact hsafe
  | read source span => exact hsafe
  | write target span => cases hw

end Lists

/-! ### Uploads -/

/-- A copy of the whole pitch of a source of the caller, of `bytes` bytes. -/
def wholeRead (source : Strided) (bytes : ℕ) : HostAccess := .read source ⟨0, bytes⟩

/-- A source that is read element by element, or row by row. -/
def rowReads (source : Strided) : List HostAccess := source.rowSpans.map (.read source)

/-! ### Downloads -/

/-- How a copy into the caller's memory goes: the pinned staging buffer is enabled and there, the copy
from the device completes, and a direct copy that failed had begun to write. -/
structure HostCopyEnv where
  pinned : Bool := false
  copied : Bool := true
  touched : Bool := false

/-- The checks of `copy_compact_matrix_device_to_host`. -/
def hostCopyChecked (target : Strided) : Bool :=
  decide (target.cols ≤ target.ld) && checkedOutputBytes target.rows target.cols target.elem &&
    checkedOutputBytes target.rows target.ld target.elem

/-- The byte counts of the copy: `compact_row_bytes`, `compact_bytes` and the pitch of the target. -/
def hostCopyCounts (target : Strided) : List HostAccess :=
  [.count (sizeMul target.cols target.elem) (target.cols * target.elem),
    .count (sizeMul target.rows (sizeMul target.cols target.elem))
      (target.rows * (target.cols * target.elem)),
    .count (sizeMul target.ld target.elem) (target.ld * target.elem)]

/-- What `scatter_compact_host_matrix` and the direct copy write: one block when the target has no
gaps, its rows otherwise. -/
def hostCopySpans (target : Strided) : List Span :=
  if target.ld = target.cols then [⟨0, sizeMul target.rows (sizeMul target.cols target.elem)⟩]
  else (List.range target.rows).map fun row =>
    ⟨sizeMul row (sizeMul target.ld target.elem), sizeMul target.cols target.elem⟩

/-- `copy_compact_matrix_device_to_host`. -/
def copyCompactMatrixDeviceToHost (env : HostCopyEnv) (target : Strided) : HostCall :=
  if hostCopyChecked target = false then ⟨.backendFailure, []⟩
  else
    let writes := (hostCopySpans target).map (.write target)
    if env.copied then ⟨.success, hostCopyCounts target ++ writes⟩
    else if env.pinned = false ∧ env.touched = true then
      ⟨.backendFailure, hostCopyCounts target ++ writes⟩
    else ⟨.backendFailure, hostCopyCounts target⟩

/-- The copy fails after it began to write the caller's memory: only a direct copy can. -/
def HostCopyEnv.tears (env : HostCopyEnv) : Bool := !env.copied && !env.pinned && env.touched

/-! ### The device exports -/

/-- What the environment answers during a device export: the upload of the tile metadata, the device,
the export and status buffers, the zero fill of the status, the kernel, the copy of the status with
the value it reports, and the copy into the caller's memory. -/
structure HipExportEnv where
  metadata : Option Failure := none
  setDevice : Option Failure := none
  freeExport : Option Failure := none
  allocExport : Option Failure := none
  freeStatus : Option Failure := none
  allocStatus : Option Failure := none
  clearStatus : Bool := true
  kernel : Bool := true
  readStatus : Bool := true
  host : HostCopyEnv := {}

/-- `hip_direct_ensure_upload_buffer` on a size that may be zero. -/
def ensureExportBuffer (free alloc : Option Failure) (bytes capacity : ℕ) : Status :=
  if bytes = 0 then .invalidArgument else (ensureUploadBuffer free alloc bytes capacity).1

/-- A device export up to its copy: the buffers, the kernel and, where the export has one, the status
that the kernel reports. -/
def deviceExportStatus (env : HipExportEnv) (needsStatus : Bool) (hostStatus : Status)
    (outputBytes exportBytes statusBytes : ℕ) : Status :=
  let buffer := ensureExportBuffer env.freeExport env.allocExport outputBytes exportBytes
  let statusBuffer := ensureExportBuffer env.freeStatus env.allocStatus 4 statusBytes
  if buffer ≠ .success then buffer
  else if needsStatus = true ∧ statusBuffer ≠ .success then statusBuffer
  else if needsStatus = true ∧ env.clearStatus = false then .backendFailure
  else if env.kernel = false then .backendFailure
  else if needsStatus = true ∧ env.readStatus = false then .backendFailure
  else if needsStatus then hostStatus
  else .success

/-- A device export after its checks: `outputBytes` is the size of its compact buffer. -/
def deviceExport (env : HipExportEnv) (needsStatus : Bool) (hostStatus : Status) (target : Strided)
    (outputBytes exportBytes statusBytes : ℕ) : HostCall :=
  match env.setDevice with
  | some failure => ⟨failure.1, []⟩
  | none =>
    HostCall.andThen
      ⟨deviceExportStatus env needsStatus hostStatus outputBytes exportBytes statusBytes,
        [.count outputBytes (target.rows * target.cols * target.elem)]⟩
      (copyCompactMatrixDeviceToHost env.host target)

/-! ### Safety -/

section Sequence

variable {call next : HostCall}

/-- A part that writes nothing is safe by itself, whatever the rest of the call returns. -/
theorem HostCall.safe_andThen (hw : NoWrites call.accesses) :
    (call.andThen next).Safe ↔ call.Safe ∧ (call.status = .success → next.Safe) := by
  unfold HostCall.andThen
  by_cases hs : call.status = .success
  · rw [if_pos hs]
    simp only [HostCall.Safe, allSafe_append, hs, true_imp_iff]
    exact and_congr_left fun _ => ⟨hw.allSafe, hw.allSafe⟩
  · rw [if_neg hs]
    exact ⟨fun h => ⟨h, fun hs' => absurd hs' hs⟩, And.left⟩

theorem HostCall.andThen_status :
    (call.andThen next).status = .success ↔ call.status = .success ∧ next.status = .success := by
  unfold HostCall.andThen
  split
  · next hs => simp [hs]
  · next hs => simp [hs]

theorem HostCall.noWrites_andThen (h1 : NoWrites call.accesses) (h2 : NoWrites next.accesses) :
    NoWrites (call.andThen next).accesses := by
  unfold HostCall.andThen
  split
  · exact noWrites_append.mpr ⟨h1, h2⟩
  · exact h1

end Sequence

theorem rowReads_safe {source : Strided} (h : source.Proper) (status : Status) :
    AllSafe status (rowReads source) := by
  intro access hmem
  obtain ⟨span, hspan, rfl⟩ := List.mem_map.mp hmem
  exact within_rowSpans h hspan

@[simp] theorem rowReads_noWrites (source : Strided) : NoWrites (rowReads source) := by
  intro access hmem
  obtain ⟨_, -, rfl⟩ := List.mem_map.mp hmem
  rfl

/-- An exact whole-pitch copy touches logical bytes only when the source has no gaps. -/
theorem wholeRead_safe_iff (status : Status) {source : Strided} (h : source.Proper) {bytes : ℕ}
    (hbytes : bytes = source.rows * source.ld * source.elem) :
    (wholeRead source bytes).Safe status ↔ source.ld = source.cols := by
  subst hbytes
  exact within_whole_iff h

/-! ### The download is row by row -/

/-- A target that passed the checks has elements, and no count of its copy wraps. -/
theorem hostCopyChecked_spec {target : Strided} (h : hostCopyChecked target = true) :
    target.Proper ∧ target.rows * target.cols * target.elem ≤ sizeMax ∧
      target.rows * target.ld * target.elem ≤ sizeMax := by
  simp only [hostCopyChecked, Bool.and_eq_true, decide_eq_true_eq] at h
  obtain ⟨hr, hc, he, hle⟩ := checkedOutputBytes_le h.1.2
  exact ⟨⟨hr, hc, he, h.1.1⟩, hle, (checkedOutputBytes_le h.2).2.2.2⟩

/-- A factor of a bounded product, times another one. -/
theorem mul_le_of_mul_mul_le {a b c limit : ℕ} (ha : 0 < a) (h : a * b * c ≤ limit) :
    b * c ≤ limit := by
  rw [Nat.mul_assoc] at h
  exact (Nat.le_mul_of_pos_left _ ha).trans h

theorem hostCopyCounts_safe {target : Strided} (h : hostCopyChecked target = true) (status : Status) :
    AllSafe status (hostCopyCounts target) := by
  obtain ⟨hp, hcols, hld⟩ := hostCopyChecked_spec h
  have hrow := sizeMul_eq (mul_le_of_mul_mul_le hp.rows_pos hcols)
  have hpitch := sizeMul_eq (mul_le_of_mul_mul_le hp.rows_pos hld)
  have hall : sizeMul target.rows (sizeMul target.cols target.elem) =
      target.rows * (target.cols * target.elem) := by
    rw [hrow]
    exact sizeMul_eq (by rwa [← Nat.mul_assoc])
  simp only [hostCopyCounts, allSafe_cons, allSafe_nil, and_true]
  exact ⟨hrow, hall, hpitch⟩

theorem hostCopySpans_within {target : Strided} (h : hostCopyChecked target = true) :
    ∀ span ∈ hostCopySpans target, span.Within target := by
  obtain ⟨hp, hcols, hld⟩ := hostCopyChecked_spec h
  have hrow := sizeMul_eq (mul_le_of_mul_mul_le hp.rows_pos hcols)
  have hpitch := sizeMul_eq (mul_le_of_mul_mul_le hp.rows_pos hld)
  intro span hmem
  unfold hostCopySpans at hmem
  split at hmem
  · next hcompact =>
    obtain rfl := List.mem_singleton.mp hmem
    have hall : sizeMul target.rows (sizeMul target.cols target.elem) =
        target.rows * target.ld * target.elem := by
      rw [hrow, sizeMul_eq (by rwa [← Nat.mul_assoc]), hcompact, Nat.mul_assoc]
    rw [hall]
    exact within_whole_of_compact hp hcompact
  · obtain ⟨row, hrow', rfl⟩ := List.mem_map.mp hmem
    have hlt := List.mem_range.mp hrow'
    have hoff : sizeMul row (sizeMul target.ld target.elem) = row * (target.ld * target.elem) := by
      rw [hpitch]
      refine sizeMul_eq ((Nat.mul_le_mul_right _ hlt.le).trans ?_)
      rwa [← Nat.mul_assoc]
    rw [hoff, hrow]
    exact within_row hp hlt

/-- **A download** is safe unless its direct copy fails after it began to write. -/
theorem copyCompactMatrixDeviceToHost_safe_iff {env : HostCopyEnv} {target : Strided} :
    (copyCompactMatrixDeviceToHost env target).Safe ↔
      (hostCopyChecked target = true → env.tears = false) := by
  unfold copyCompactMatrixDeviceToHost
  by_cases hc : hostCopyChecked target = true
  · rw [if_neg (by simp [hc])]
    have hcounts := fun status => hostCopyCounts_safe hc status
    have hspans := hostCopySpans_within hc
    -- a checked copy has a row, so it writes at least one span
    have hne : hostCopySpans target ≠ [] := by
      unfold hostCopySpans
      split
      · simp
      · have hr := (hostCopyChecked_spec hc).1.rows_pos
        simp only [ne_eq, List.map_eq_nil_iff, List.range_eq_nil]
        omega
    split
    -- the copy went through: all its spans lie within the target
    · next hcopied =>
      refine iff_of_true ?_ fun _ => by simp [HostCopyEnv.tears, hcopied]
      intro access hmem
      rcases List.mem_append.mp hmem with hmem | hmem
      · exact hcounts _ access hmem
      · obtain ⟨span, hspan, rfl⟩ := List.mem_map.mp hmem
        exact ⟨hspans span hspan, rfl⟩
    · next hcopied =>
      split
      -- it failed half way: a span is written by a call that does not succeed
      · next htorn =>
        refine iff_of_false (fun hsafe => ?_) fun h => ?_
        · obtain ⟨span, hspan⟩ := List.exists_mem_of_ne_nil _ hne
          have hw := hsafe (.write target span)
            (List.mem_append_right _ (List.mem_map_of_mem hspan))
          cases hw.2
        · have ht := h hc
          simp [HostCopyEnv.tears, hcopied, htorn] at ht
      -- it failed before the target was touched
      · next hclean =>
        refine iff_of_true (fun access hmem => hcounts _ access hmem) fun _ => ?_
        simp only [HostCopyEnv.tears, Bool.and_eq_false_iff, Bool.not_eq_false']
        rcases Bool.eq_false_or_eq_true env.pinned with hp | hp
        · exact .inl (.inr hp)
        · refine .inr (Bool.eq_false_iff.mpr fun ht => hclean ⟨hp, ht⟩)
  · rw [if_pos (Bool.eq_false_iff.mpr hc)]
    exact iff_of_true (fun _ hmem => absurd hmem List.not_mem_nil) fun h => absurd h hc

/-- A call that reports an unsupported backend wrote nothing. -/
theorem copyCompactMatrixDeviceToHost_status (env : HostCopyEnv) (target : Strided) :
    (copyCompactMatrixDeviceToHost env target).status ≠ .unsupportedBackend := by
  unfold copyCompactMatrixDeviceToHost
  dsimp only
  split_ifs <;> simp

/-- A device export is safe unless it reaches its copy and that copy fails after it began to
write. -/
theorem deviceExport_safe_iff {env : HipExportEnv} {needsStatus : Bool} {hostStatus : Status}
    {target : Strided} {outputBytes exportBytes statusBytes : ℕ}
    (hbytes : outputBytes = target.rows * target.cols * target.elem) :
    (deviceExport env needsStatus hostStatus target outputBytes exportBytes statusBytes).Safe ↔
      (env.setDevice = none →
        deviceExportStatus env needsStatus hostStatus outputBytes exportBytes statusBytes = .success →
        hostCopyChecked target = true → env.host.tears = false) := by
  unfold deviceExport
  cases hd : env.setDevice with
  | some failure => exact iff_of_true allSafe_nil (by simp)
  | none =>
    simp only
    rw [HostCall.safe_andThen (by simp [HostAccess.isWrite]), copyCompactMatrixDeviceToHost_safe_iff]
    refine ⟨fun h _ => h.2, fun h => ⟨?_, h trivial⟩⟩
    simp only [HostCall.Safe, allSafe_cons, allSafe_nil, and_true]
    exact hbytes

theorem deviceExport_noWrites {env : HipExportEnv} {needsStatus : Bool} {hostStatus : Status}
    {target : Strided} {outputBytes exportBytes statusBytes : ℕ}
    (h : (deviceExport env needsStatus hostStatus target outputBytes exportBytes
      statusBytes).status = .unsupportedBackend) :
    NoWrites (deviceExport env needsStatus hostStatus target outputBytes exportBytes
      statusBytes).accesses := by
  unfold deviceExport at h ⊢
  cases hd : env.setDevice with
  | some failure => simp
  | none =>
    rw [hd] at h
    simp only [HostCall.andThen] at h ⊢
    split at h
    · exact absurd h (copyCompactMatrixDeviceToHost_status _ _)
    · next hs =>
      rw [if_neg hs]
      simp [HostAccess.isWrite]

end Rns8
