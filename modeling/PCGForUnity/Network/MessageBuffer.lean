/-
PCGForUnity/Network/MessageBuffer.lean

The byte buffer of `MessageBuffer.h`: a storage with a write position and a read position.

Design.  Sizes are `size_t` values; the two differences the class returns are taken with the
wrap of an unsigned subtraction (`sizeSub`), so that a buffer whose positions are out of order
behaves here as it does there.  An access past the end of the storage has no defined result and
is `none`.

`WF` is the order of the positions every user of the class relies on:

    rpos  ≤  wpos  ≤  storage.length

Under it the differences are plain ones, a write that fits appends to the unread bytes, and
reading is taking a first part of them.  Each function has a lemma that says this of it, and no
module above looks at positions again.
-/
import Mathlib.Data.List.TakeDrop
import Mathlib.Algebra.Order.Ring.Nat

namespace PCGForUnity

/-- A byte, `uint8`. -/
abbrev Byte := UInt8

/-- Subtraction of two `size_t` values. -/
def sizeSub (a b : Nat) : Nat := if b ≤ a then a - b else 2 ^ 64 + a - b

@[simp] theorem sizeSub_of_le {a b : Nat} (h : b ≤ a) : sizeSub a b = a - b := by
  simp [sizeSub, h]

/-- The members of class `MessageBuffer`. -/
structure MessageBuffer where
  wpos : Nat
  rpos : Nat
  storage : List Byte
deriving DecidableEq, Repr

namespace MessageBuffer

/-- `BUFFER_SIZE`. -/
def bufferSize : Nat := 1024

/-- `explicit MessageBuffer(std::size_t initialSize)`. -/
def ofSize (initialSize : Nat) : MessageBuffer :=
  { wpos := 0, rpos := 0, storage := List.replicate initialSize 0 }

/-- `MessageBuffer()`. -/
def new : MessageBuffer := ofSize bufferSize

/-- `Reset` -/
def reset (b : MessageBuffer) : MessageBuffer := { b with wpos := 0, rpos := 0 }

/-- `Resize`: `std::vector::resize` cuts the storage or extends it with zeros. -/
def resize (b : MessageBuffer) (bytes : Nat) : MessageBuffer :=
  { b with storage := b.storage.take bytes ++ List.replicate (bytes - b.storage.length) 0 }

/-- `ReadCompleted` -/
def readCompleted (b : MessageBuffer) (bytes : Nat) : MessageBuffer :=
  { b with rpos := b.rpos + bytes }

/-- `WriteCompleted` -/
def writeCompleted (b : MessageBuffer) (bytes : Nat) : MessageBuffer :=
  { b with wpos := b.wpos + bytes }

/-- `GetActiveSize` -/
def getActiveSize (b : MessageBuffer) : Nat := sizeSub b.wpos b.rpos

/-- `GetRemainingSpace` -/
def getRemainingSpace (b : MessageBuffer) : Nat := sizeSub b.storage.length b.wpos

/-- The `size` bytes at `GetReadPointer()`. -/
def readBytes (b : MessageBuffer) (size : Nat) : Option (List Byte) :=
  if b.rpos + size ≤ b.storage.length then some ((b.storage.drop b.rpos).take size) else none

/-- `memcpy(GetWritePointer(), data, data.length)`, the positions untouched. -/
def copyIn (b : MessageBuffer) (data : List Byte) : Option MessageBuffer :=
  if b.wpos + data.length ≤ b.storage.length then
    some { b with
      storage := b.storage.take b.wpos ++ data ++ b.storage.drop (b.wpos + data.length) }
  else none

/-- `memcpy(GetReadPointer(), data, data.length)`, the positions untouched. -/
def copyOver (b : MessageBuffer) (data : List Byte) : Option MessageBuffer :=
  if b.rpos + data.length ≤ b.storage.length then
    some { b with
      storage := b.storage.take b.rpos ++ data ++ b.storage.drop (b.rpos + data.length) }
  else none

/-- `Write`. -/
def write (b : MessageBuffer) (data : List Byte) : Option MessageBuffer :=
  if data.length = 0 then some b
  else (b.copyIn data).map fun b' => b'.writeCompleted data.length

/-- `EnsureFreeSpace` -/
def ensureFreeSpace (b : MessageBuffer) (size : Nat) : MessageBuffer :=
  if b.getRemainingSpace = 0 then
    if size ≠ 0 then b.resize (b.storage.length + size) else b.resize (b.storage.length * 3 / 2)
  else b

/-- The bytes written and not yet read. -/
def unread (b : MessageBuffer) : List Byte := (b.storage.take b.wpos).drop b.rpos

/-- The positions are in order and inside the storage. -/
structure WF (b : MessageBuffer) : Prop where
  rpos_le : b.rpos ≤ b.wpos
  wpos_le : b.wpos ≤ b.storage.length

instance (b : MessageBuffer) : Decidable b.WF :=
  decidable_of_iff (b.rpos ≤ b.wpos ∧ b.wpos ≤ b.storage.length)
    ⟨fun h => ⟨h.1, h.2⟩, fun h => ⟨h.1, h.2⟩⟩

/-! ### Fresh, reset and resized buffers -/

theorem wf_ofSize (n : Nat) : (ofSize n).WF := ⟨Nat.le_refl _, Nat.zero_le _⟩

theorem wf_reset (b : MessageBuffer) : b.reset.WF := ⟨Nat.le_refl _, Nat.zero_le _⟩

@[simp] theorem storage_ofSize_length (n : Nat) : (ofSize n).storage.length = n := by
  simp [ofSize]

@[simp] theorem reset_storage (b : MessageBuffer) : b.reset.storage = b.storage := rfl

@[simp] theorem reset_wpos (b : MessageBuffer) : b.reset.wpos = 0 := rfl

@[simp] theorem reset_rpos (b : MessageBuffer) : b.reset.rpos = 0 := rfl

@[simp] theorem resize_wpos (b : MessageBuffer) (n : Nat) : (b.resize n).wpos = b.wpos := rfl

@[simp] theorem resize_rpos (b : MessageBuffer) (n : Nat) : (b.resize n).rpos = b.rpos := rfl

@[simp] theorem storage_resize_length (b : MessageBuffer) (n : Nat) :
    (b.resize n).storage.length = n := by
  simp only [resize, List.length_append, List.length_take, List.length_replicate]
  omega

/-- A buffer whose positions are both at the start has nothing unread. -/
theorem unread_eq_nil_of_wpos {b : MessageBuffer} (h : b.wpos = 0) : b.unread = [] := by
  simp [unread, h]

@[simp] theorem unread_reset (b : MessageBuffer) : b.reset.unread = [] :=
  unread_eq_nil_of_wpos rfl

@[simp] theorem unread_ofSize (n : Nat) : (ofSize n).unread = [] :=
  unread_eq_nil_of_wpos rfl

/-! ### Sizes under `WF` -/

section

variable {b : MessageBuffer} (h : b.WF)
include h

theorem WF.length_unread : b.unread.length = b.wpos - b.rpos := by
  have := h.wpos_le
  simp [unread, Nat.min_eq_left this]

theorem WF.getActiveSize_eq : b.getActiveSize = b.unread.length := by
  rw [getActiveSize, sizeSub_of_le h.rpos_le, h.length_unread]

theorem WF.getRemainingSpace_eq : b.getRemainingSpace = b.storage.length - b.wpos := by
  rw [getRemainingSpace, sizeSub_of_le h.wpos_le]

/-- Reading at most the active bytes takes a prefix of the unread ones. -/
theorem WF.readBytes_eq {n : Nat} (hn : n ≤ b.unread.length) :
    b.readBytes n = some (b.unread.take n) := by
  have h₁ := h.rpos_le
  have h₂ := h.wpos_le
  rw [h.length_unread] at hn
  have hfit : b.rpos + n ≤ b.storage.length := by omega
  rw [readBytes, if_pos hfit, unread, List.drop_take, List.take_take,
    Nat.min_eq_left hn]

theorem WF.readCompleted {n : Nat} (hn : n ≤ b.unread.length) : (b.readCompleted n).WF := by
  have h₁ := h.rpos_le
  have h₂ := h.wpos_le
  rw [h.length_unread] at hn
  exact ⟨show b.rpos + n ≤ b.wpos by omega, h₂⟩

omit h in
@[simp] theorem unread_readCompleted (b : MessageBuffer) (n : Nat) :
    (b.readCompleted n).unread = b.unread.drop n := by
  simp [unread, MessageBuffer.readCompleted, List.drop_drop]

/-- The buffer after a write of `data` that fits. -/
def written (b : MessageBuffer) (data : List Byte) : MessageBuffer :=
  { b with
    wpos := b.wpos + data.length
    storage := b.storage.take b.wpos ++ data ++ b.storage.drop (b.wpos + data.length) }

omit h in
@[simp] theorem written_rpos (b : MessageBuffer) (data : List Byte) :
    (b.written data).rpos = b.rpos := rfl

omit h in
@[simp] theorem written_wpos (b : MessageBuffer) (data : List Byte) :
    (b.written data).wpos = b.wpos + data.length := rfl

omit h in
theorem storage_written_length {data : List Byte}
    (hfit : b.wpos + data.length ≤ b.storage.length) :
    (b.written data).storage.length = b.storage.length := by
  simp only [written, List.length_append, List.length_take, List.length_drop]
  omega

omit h in
/-- A write that fits is defined; with no bytes it changes nothing. -/
theorem write_eq_written {data : List Byte}
    (hfit : b.wpos + data.length ≤ b.storage.length) :
    b.write data = some (b.written data) := by
  by_cases hd : data.length = 0
  · obtain rfl := List.length_eq_zero_iff.mp hd
    simp [write, written]
  · rw [write, if_neg hd, copyIn, if_pos hfit]
    rfl

omit h in
/-- The same in two steps, as for bytes that arrive through the write pointer. -/
theorem copyIn_eq_written {data : List Byte}
    (hfit : b.wpos + data.length ≤ b.storage.length) :
    ∃ b', b.copyIn data = some b' ∧ b'.writeCompleted data.length = b.written data :=
  ⟨_, if_pos hfit, rfl⟩

theorem WF.written {data : List Byte} (hfit : b.wpos + data.length ≤ b.storage.length) :
    (b.written data).WF := by
  have h₁ := h.rpos_le
  refine ⟨?_, ?_⟩
  · rw [written_rpos, written_wpos]
    omega
  · rw [written_wpos, storage_written_length hfit]
    exact hfit

/-- A write that fits appends to the unread bytes. -/
theorem WF.unread_written {data : List Byte}
    (hfit : b.wpos + data.length ≤ b.storage.length) :
    (b.written data).unread = b.unread ++ data := by
  have h₁ := h.rpos_le
  have hlen : (b.storage.take b.wpos).length = b.wpos := by
    rw [List.length_take]
    omega
  have htake : (b.storage.take b.wpos ++ data
      ++ b.storage.drop (b.wpos + data.length)).take (b.wpos + data.length)
      = b.storage.take b.wpos ++ data := by
    rw [List.take_append_of_le_length (by simp [hlen])]
    exact List.take_of_length_le (by simp [hlen])
  rw [unread, MessageBuffer.written, htake, List.drop_append_of_le_length (by rw [hlen]; exact h₁)]
  rfl

end

/-! ### Buffers that nothing was read from -/

/-- A storage of `size` bytes that holds `bytes` from its start on. -/
structure Stores (b : MessageBuffer) (size : Nat) (bytes : List Byte) : Prop where
  wf : b.WF
  rpos : b.rpos = 0
  length : b.storage.length = size
  unread : b.unread = bytes

namespace Stores

variable {b : MessageBuffer} {size : Nat} {bytes : List Byte}

theorem wpos (h : b.Stores size bytes) : b.wpos = bytes.length := by
  rw [← h.unread, h.wf.length_unread, h.rpos, Nat.sub_zero]

theorem length_le (h : b.Stores size bytes) : bytes.length ≤ size := by
  rw [← h.wpos, ← h.length]
  exact h.wf.wpos_le

theorem getActiveSize (h : b.Stores size bytes) : b.getActiveSize = bytes.length := by
  rw [h.wf.getActiveSize_eq, h.unread]

theorem getRemainingSpace (h : b.Stores size bytes) :
    b.getRemainingSpace = size - bytes.length := by
  rw [h.wf.getRemainingSpace_eq, h.length, h.wpos]

theorem readBytes (h : b.Stores size bytes) : b.readBytes bytes.length = some bytes := by
  rw [h.wf.readBytes_eq (Nat.le_of_eq (by rw [h.unread])), h.unread, List.take_length]

theorem write (h : b.Stores size bytes) (data : List Byte)
    (hfit : bytes.length + data.length ≤ size) :
    ∃ b', b.write data = some b' ∧ b'.Stores size (bytes ++ data) := by
  have hfit' : b.wpos + data.length ≤ b.storage.length := by rwa [h.wpos, h.length]
  refine ⟨b.written data, write_eq_written hfit', h.wf.written hfit', h.rpos, ?_, ?_⟩
  · rw [storage_written_length hfit', h.length]
  · rw [h.wf.unread_written hfit', h.unread]

theorem ofSize (n : Nat) : (ofSize n).Stores n [] :=
  ⟨wf_ofSize n, rfl, storage_ofSize_length n, unread_ofSize n⟩

theorem reset (h : b.Stores size bytes) : b.reset.Stores size [] :=
  ⟨wf_reset b, rfl, h.length, unread_reset b⟩

theorem reset_resize (b : MessageBuffer) (n : Nat) : (b.reset.resize n).Stores n [] :=
  ⟨⟨Nat.le_refl _, Nat.zero_le _⟩, rfl, storage_resize_length _ n, unread_eq_nil_of_wpos rfl⟩

end Stores

end MessageBuffer

end PCGForUnity
