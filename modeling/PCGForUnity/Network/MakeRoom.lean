/-
PCGForUnity/Network/MakeRoom.lean

`Normalize` and `EnsureFreeSpace` of class `MessageBuffer`, one after the other.

* `WF.exists_normalize_ensureFreeSpace`: neither loses unread bytes, and the positions stay
  in order;
* `makesRoom_iff`: there is room for a write of `n` bytes

      ↔  the unread bytes and n, or 1, fit in the storage,
         or the storage is full of unread bytes and grows by n or by the half of it.

Design.  The first moves the unread bytes to the start of the storage, the second makes the
storage longer if they fill it, and only then.  So there is room only where the rest of the
storage is large enough or is nothing at all; and a storage of 0 or 1 bytes does not grow,
`size * 3 / 2` being no more than it was.  Sizes are natural numbers, with the subtraction of
the source, which wraps (`sizeSub`), where the positions are not in order.
-/
import PCGForUnity.Network.MessageBuffer

namespace PCGForUnity

namespace MessageBuffer

/-- The storage after `memmove(GetBasePointer(), GetReadPointer(), GetActiveSize())`. -/
def moveToBase (b : MessageBuffer) : Option (List Byte) :=
  (b.readBytes b.getActiveSize).map fun active => active ++ b.storage.drop active.length

/-- `Normalize` -/
def normalize (b : MessageBuffer) : Option MessageBuffer :=
  if b.rpos ≠ 0 then
    (if b.rpos ≠ b.wpos then b.moveToBase else some b.storage).map fun storage =>
      { wpos := sizeSub b.wpos b.rpos, rpos := 0, storage }
  else some b

/-! ### What the two keep -/

theorem WF.moveToBase_eq {b : MessageBuffer} (h : b.WF) :
    b.moveToBase = some (b.unread ++ b.storage.drop b.unread.length) := by
  rw [moveToBase, h.getActiveSize_eq, h.readBytes_eq (Nat.le_refl _), List.take_length]
  rfl

/-- The unread bytes are at the start. -/
theorem stores_of_take {b : MessageBuffer} (hrpos : b.rpos = 0)
    (hwpos : b.wpos ≤ b.storage.length) {bytes : List Byte}
    (htake : b.storage.take b.wpos = bytes) : b.Stores b.storage.length bytes where
  wf := ⟨hrpos ▸ Nat.zero_le _, hwpos⟩
  rpos := hrpos
  length := rfl
  unread := by
    rw [unread, hrpos, htake]
    rfl

theorem WF.exists_normalize {b : MessageBuffer} (h : b.WF) :
    ∃ b', b.normalize = some b' ∧ b'.Stores b.storage.length b.unread := by
  have hlen := h.length_unread
  have hle : b.unread.length ≤ b.storage.length := by
    have := h.wpos_le
    omega
  by_cases hr : b.rpos = 0
  · have hself : b.normalize = some b := if_neg (not_not.mpr hr)
    refine ⟨b, hself, stores_of_take hr h.wpos_le ?_⟩
    rw [unread, hr]
    rfl
  rw [normalize, if_pos hr]
  by_cases hw : b.rpos = b.wpos
  · -- nothing is unread, and nothing moves
    have hnil : b.unread = [] := List.eq_nil_of_length_eq_zero (by rw [hlen, hw, Nat.sub_self])
    rw [if_neg (not_not.mpr hw), sizeSub_of_le h.rpos_le, hw, Nat.sub_self, hnil]
    exact ⟨_, rfl, stores_of_take rfl (Nat.zero_le _) rfl⟩
  · rw [if_pos hw, h.moveToBase_eq, sizeSub_of_le h.rpos_le, ← hlen]
    have hlength : (b.unread ++ b.storage.drop b.unread.length).length = b.storage.length := by
      rw [List.length_append, List.length_drop]
      exact Nat.add_sub_of_le hle
    refine ⟨_, rfl, ?_⟩
    rw [← hlength]
    exact stores_of_take rfl (by rw [hlength]; exact hle) List.take_left

namespace Stores

variable {b : MessageBuffer} {size : Nat} {bytes : List Byte}

/-- A storage that is made longer. -/
theorem resize (h : b.Stores size bytes) {n : Nat} (hn : size ≤ n) :
    (b.resize n).Stores n bytes := by
  have hsize : (b.resize n).storage.length = n := storage_resize_length b n
  have hwpos := h.wf.wpos_le
  have hlong : b.storage.length ≤ n := h.length ▸ hn
  have htake : (b.resize n).storage.take b.wpos = bytes := by
    rw [MessageBuffer.resize, List.take_of_length_le hlong, List.take_append_of_le_length hwpos,
      ← h.unread, MessageBuffer.unread, h.rpos]
    rfl
  have hstores := stores_of_take (b := b.resize n) h.rpos (by rw [hsize]; exact Nat.le_trans hwpos hlong)
    htake
  rwa [hsize] at hstores

end Stores

/-- The size of a storage of which `active` bytes are in use, after `EnsureFreeSpace(n)`. -/
def grown (size active n : Nat) : Nat :=
  if size = active then (if n ≠ 0 then size + n else size * 3 / 2) else size

theorem le_grown (size active n : Nat) : size ≤ grown size active n := by
  rw [grown]
  split
  · split <;> omega
  · exact Nat.le_refl size

theorem Stores.ensureFreeSpace {b : MessageBuffer} {size : Nat} {bytes : List Byte}
    (h : b.Stores size bytes) (n : Nat) :
    (b.ensureFreeSpace n).Stores (grown size bytes.length n) bytes := by
  have hle := h.length_le
  have hgrown := le_grown size bytes.length n
  rw [MessageBuffer.ensureFreeSpace, h.getRemainingSpace, h.length]
  by_cases hfull : size - bytes.length = 0
  · have hsize : size = bytes.length := by omega
    rw [grown, if_pos hsize] at hgrown ⊢
    rw [if_pos hfull]
    by_cases hn : n ≠ 0
    · rw [if_pos hn] at hgrown ⊢
      rw [if_pos hn]
      exact h.resize hgrown
    · rw [if_neg hn] at hgrown ⊢
      rw [if_neg hn]
      exact h.resize hgrown
  · have hsize : size ≠ bytes.length := by omega
    rw [if_neg hfull, grown, if_neg hsize]
    exact h

/-- **Neither loses unread bytes.** -/
theorem WF.exists_normalize_ensureFreeSpace {b : MessageBuffer} (h : b.WF) (n : Nat) :
    ∃ b₁, b.normalize = some b₁ ∧
      (b₁.ensureFreeSpace n).Stores (grown b.storage.length b.unread.length n) b.unread := by
  obtain ⟨b₁, hb₁, hstores⟩ := h.exists_normalize
  exact ⟨b₁, hb₁, hstores.ensureFreeSpace n⟩

/-! ### Room for a write -/

/-- After `Normalize()` and `EnsureFreeSpace(n)` the unread bytes are the same, and `n` more can
be written. -/
def MakesRoom (b : MessageBuffer) (n : Nat) : Prop :=
  ∃ b₁, b.normalize = some b₁ ∧
    (b₁.ensureFreeSpace n).WF ∧ (b₁.ensureFreeSpace n).unread = b.unread ∧
    max 1 n ≤ (b₁.ensureFreeSpace n).getRemainingSpace ∧
    ∀ data : List Byte, data.length = n → ∃ b₂, (b₁.ensureFreeSpace n).write data = some b₂ ∧
      b₂.WF ∧ b₂.unread = b.unread ++ data

theorem add_le_grown_iff {size active n : Nat} :
    active + max 1 n ≤ grown size active n ↔
      active + max 1 n ≤ size ∨ active = size ∧ (n ≠ 0 ∨ 2 ≤ size) := by
  rw [grown]
  by_cases hfull : size = active
  · rw [if_pos hfull]
    split <;> omega
  · rw [if_neg hfull]
    omega

/-- **There is room exactly where the rest of the storage is large enough, or where it is full
and grows.** -/
theorem makesRoom_iff {b : MessageBuffer} (h : b.WF) (n : Nat) :
    b.MakesRoom n ↔ b.getActiveSize + max 1 n ≤ b.storage.length ∨
      b.getActiveSize = b.storage.length ∧ (n ≠ 0 ∨ 2 ≤ b.storage.length) := by
  obtain ⟨b₁, hb₁, hstores⟩ := h.exists_normalize_ensureFreeSpace n
  rw [h.getActiveSize_eq, ← add_le_grown_iff]
  constructor
  · rintro ⟨b₁', hb₁', -, -, hroom, -⟩
    obtain rfl := Option.some.inj (hb₁.symm.trans hb₁')
    rw [hstores.getRemainingSpace] at hroom
    omega
  · intro hfit
    refine ⟨b₁, hb₁, hstores.wf, hstores.unread, ?_, fun data hdata => ?_⟩
    · rw [hstores.getRemainingSpace]
      omega
    · obtain ⟨b₂, hb₂, hstores₂⟩ := hstores.write data (by omega)
      exact ⟨b₂, hb₂, hstores₂.wf, hstores₂.unread⟩

theorem makesRoom_two_of_four : MakesRoom { wpos := 3, rpos := 1, storage := [1, 2, 3, 4] } 2 :=
  (makesRoom_iff ⟨by decide, by decide⟩ 2).mpr (by decide)

/-- One byte is free, and so the storage does not grow. -/
theorem not_makesRoom_two_of_four :
    ¬ MakesRoom { wpos := 3, rpos := 0, storage := [1, 2, 3, 4] } 2 := by
  rintro ⟨b₁, hb₁, -, -, hroom, -⟩
  obtain rfl := Option.some.inj hb₁
  exact absurd hroom (by decide)

end MessageBuffer

end PCGForUnity
