/-
PCGForUnity/Lib/SerialNumber.lean

Counters of which only 32 bits are kept.  Two of them are compared by the difference of
their words, read as a signed number, and it is the difference of the counters themselves
wherever these are less than half the range apart:

    signed (i - j)  =  i - j        if  i < j + 2^31  and  j ≤ i + 2^31

(`signed_sub`).

Design.  A counter is a natural number that never wraps, and its word is `UInt32.ofNat` of
it.  What is proved of counters can so be carried over to words wherever one knows that
they are close, without a notion of a cyclic order.
-/
import Mathlib.Tactic.NormNum
import Mathlib.Tactic.SplitIfs

namespace PCGForUnity.Serial

/-- A word as a signed number. -/
def signed (u : UInt32) : ℤ := u.toInt32.toInt

theorem signed_eq (u : UInt32) :
    signed u = if u.toNat < 2 ^ 31 then (u.toNat : ℤ) else u.toNat - 2 ^ 32 := by
  have h : u.toInt32.toInt = if 2 * u.toNat < 2 ^ 32 then (u.toNat : ℤ) else u.toNat - 2 ^ 32 :=
    BitVec.toInt_eq_toNat_cond u.toBitVec
  rw [signed, h]
  have := u.toNat_lt
  split <;> split <;> omega

/-- The difference of two counters, by their words. -/
theorem signed_sub {i j : ℕ} (hlt : i < j + 2 ^ 31) (hle : j ≤ i + 2 ^ 31) :
    signed (UInt32.ofNat i - UInt32.ofNat j) = (i : ℤ) - j := by
  rw [signed_eq, UInt32.toNat_sub, UInt32.toNat_ofNat', UInt32.toNat_ofNat']
  split <;> omega

/-- The words of two counters are the same only if the counters are, or are a range apart. -/
theorem ofNat_inj {i j : ℕ} (hij : i < j + 2 ^ 32) (hji : j < i + 2 ^ 32) :
    UInt32.ofNat i = UInt32.ofNat j ↔ i = j := by
  constructor
  · intro h
    have h' := congrArg UInt32.toNat h
    rw [UInt32.toNat_ofNat', UInt32.toNat_ofNat'] at h'
    omega
  · rintro rfl
    rfl

theorem ofNat_succ (i : ℕ) : UInt32.ofNat (i + 1) = UInt32.ofNat i + 1 := UInt32.ofNat_add i 1

theorem sub_add_eq (a b c : UInt32) : a - (b + c) = a - b - c := by
  rw [← UInt32.toNat_inj]
  simp only [UInt32.toNat_sub, UInt32.toNat_add]
  have := a.toNat_lt
  have := b.toNat_lt
  have := c.toNat_lt
  omega

/-- The difference of two words is that of their distances from a third. -/
theorem sub_sub_sub (a b n : UInt32) : a - n - (b - n) = a - b := by
  rw [← UInt32.toNat_inj]
  simp only [UInt32.toNat_sub]
  have := a.toNat_lt
  have := b.toNat_lt
  have := n.toNat_lt
  omega

theorem sub_right_cancel {a b n : UInt32} (h : a - n = b - n) : a = b := by
  calc a = a - n + n := (UInt32.sub_add_cancel a n).symm
    _ = b := by rw [h, UInt32.sub_add_cancel]

/-- A word that is not negative as an `int`. -/
theorem toNat_toUInt32 {x : Int32} (h : 0 ≤ x.toInt) : (x.toUInt32.toNat : ℤ) = x.toInt := by
  have hx : x.toInt = if 2 * x.toUInt32.toNat < 2 ^ 32 then (x.toUInt32.toNat : ℤ)
      else x.toUInt32.toNat - 2 ^ 32 := BitVec.toInt_eq_toNat_cond x.toBitVec
  have hlt := x.toUInt32.toNat_lt
  rw [hx] at h ⊢
  split at h
  · rw [if_pos ‹_›]
  · omega

theorem ofNat_sub_ofNat {i j : ℕ} (h : j ≤ i) :
    UInt32.ofNat i - UInt32.ofNat (i - j) = UInt32.ofNat j := by
  rw [← UInt32.toNat_inj, UInt32.toNat_sub, UInt32.toNat_ofNat', UInt32.toNat_ofNat',
    UInt32.toNat_ofNat']
  omega

theorem ofNat_add_word (i : ℕ) (u : UInt32) :
    UInt32.ofNat i + u = UInt32.ofNat (i + u.toNat) := by
  rw [UInt32.ofNat_add, UInt32.ofNat_toNat]

end PCGForUnity.Serial
