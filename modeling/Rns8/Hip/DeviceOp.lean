import Rns8.Core.Matrix

/-!
# Device operations

A device allocation, copy or kernel either completes or fails with some status. What it leaves in
its destination when it fails is arbitrary, also when it was only launched: `DeviceOp` carries both,
and a run of the library is determined by the operations it is given. The same contents stand for
the result of a completed kernel that the model does not determine: the kernels of the accelerator
libraries, and a kernel whose output is one of its inputs.
-/

namespace Rns8

/-- A status other than `RNS8_SUCCESS`. -/
abbrev Failure := {status : Status // status ≠ .success}

/-- The status of an operation that completes or fails. -/
def outcome : Option Failure → Status
  | none => .success
  | some failure => failure.1

@[simp] theorem outcome_none : outcome none = .success := rfl

theorem outcome_some_ne (failure : Failure) : outcome (some failure) ≠ .success := failure.2

/-- An operation that writes device memory: whether it fails, and what it then leaves. -/
structure DeviceOp (α : Type) where
  failure : Option Failure
  left : ℕ → α

/-- The status and the destination contents of the operation, when it is to write `meant`. -/
def DeviceOp.run {α : Type} (op : DeviceOp α) (meant : ℕ → α) : Status × (ℕ → α) :=
  match op.failure with
  | none => (.success, meant)
  | some failure => (failure.1, op.left)

@[simp] theorem DeviceOp.run_status {α : Type} (op : DeviceOp α) (meant : ℕ → α) :
    (op.run meant).1 = outcome op.failure := by
  unfold DeviceOp.run
  cases op.failure <;> rfl

theorem DeviceOp.run_of_success {α : Type} {op : DeviceOp α} {meant : ℕ → α}
    (h : (op.run meant).1 = .success) : (op.run meant).2 = meant := by
  unfold DeviceOp.run at *
  cases hf : op.failure with
  | none => rfl
  | some failure => rw [hf] at h; exact absurd h failure.2

/-- `hip_direct_ensure_upload_buffer`: the status and the new capacity. A buffer that is too small is
freed before the new one is allocated. -/
def ensureUploadBuffer (free alloc : Option Failure) (bytes capacity : ℕ) : Status × ℕ :=
  if capacity ≠ 0 ∧ bytes ≤ capacity then (.success, capacity)
  else if capacity ≠ 0 ∧ free ≠ none then (outcome free, capacity)
  else match alloc with
    | some failure => (failure.1, 0)
    | none => (.success, bytes)

/-- `hip_residues` with the same length and other cells. -/
def RnsMatrix.withHipResidues (matrix : RnsMatrix) (cell : ℕ → Int8) : RnsMatrix :=
  { matrix with hipResidues := matrix.hipResidues.map fun buffer => { buffer with cell } }

/-- `hip_byte_limbs` with the same length and other cells. -/
def RnsMatrix.withHipByteLimbs (matrix : RnsMatrix) (cell : ℕ → UInt8) : RnsMatrix :=
  { matrix with hipByteLimbs := matrix.hipByteLimbs.map fun buffer => { buffer with cell } }

/-- The cells behind a device pointer; nothing is read through a null pointer. -/
def DeviceBuffer.cells {α : Type} [Inhabited α] (buffer : DeviceBuffer α) : ℕ → α :=
  match buffer with
  | some b => b.cell
  | none => fun _ => default

end Rns8
