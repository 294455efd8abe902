/-
PCGForUnity/Lib/Circumcircle.lean

Points of a plane: on which side of a line one lies, and its power with respect to the
circle through three others, scaled by twice the area of their triangle.

    side a b z       is positive to the right of the way from a to b
    power a b z u    is negative inside the circle through a, b and z, if side a b z > 0

Of the circles through two points, on either side of the line through them one contains the
other, and the one that is greater on one side is smaller on the other one (`pencil`).

Design.  Both are polynomials in the coordinates, so no circle, centre or square root is
needed, and the first lemmas are identities over any commutative ring; an order is assumed
only where signs are compared.  `pencil` is the identity that carries the geometry: the
powers of a point with respect to two circles through `a` and `b` are compared by the sides
of the three points.
-/
import Mathlib.Algebra.Order.Ring.Defs
import Mathlib.Tactic.Linarith
import Mathlib.Tactic.Ring

namespace PCGForUnity

namespace Plane

section

variable {R : Type*} [CommRing R] {a b c d e o p q v w z : R × R}

/-- Positive to the right of the way from `a` to `b`, and negative to the left. -/
def side (a b p : R × R) : R := (p.1 - a.1) * (b.2 - a.2) - (p.2 - a.2) * (b.1 - a.1)

/-- Negative where the segment from `a` to `b` is seen under an obtuse angle. -/
def dot (a b p : R × R) : R := (p.1 - a.1) * (p.1 - b.1) + (p.2 - a.2) * (p.2 - b.2)

/-- The power of `p` with respect to the circle through `a`, `b` and `c`, scaled by
twice the area of their triangle. -/
def power (a b c p : R × R) : R := dot a b p * side a b c - dot a b c * side a b p

theorem side_rotate (a b c : R × R) : side b c a = side a b c := by
  simp only [side]
  ring

theorem side_swap (a b p : R × R) : side b a p = -side a b p := by
  simp only [side]
  ring

theorem side_swap_right (a b p : R × R) : side a p b = -side a b p := by
  simp only [side]
  ring

theorem side_left (a b : R × R) : side a b a = 0 := by
  simp only [side]
  ring

theorem side_right (a b : R × R) : side a b b = 0 := by
  simp only [side]
  ring

theorem ne_of_side_ne_zero (h : side a b c ≠ 0) : a ≠ b ∧ b ≠ c ∧ c ≠ a := by
  refine ⟨?_, ?_, ?_⟩
  · rintro rfl
    exact h (by rw [← side_rotate, side_left])
  · rintro rfl
    exact h (side_right a b)
  · rintro rfl
    exact h (side_left c b)

theorem power_rotate (a b c p : R × R) : power b c a p = power a b c p := by
  simp only [power, side, dot]
  ring

theorem power_swap (a b c p : R × R) : power b a c p = -power a b c p := by
  simp only [power, side, dot]
  ring

theorem power_swap_right (a b p q : R × R) : power a b q p = -power a b p q := by
  simp only [power]
  ring

/-- The corners of a triangle lie on its circle. -/
theorem power_left (a b c : R × R) : power a b c a = 0 := by
  simp only [power, side, dot]
  ring

theorem power_right (a b c : R × R) : power a b c b = 0 := by
  rw [← power_rotate]
  exact power_left b c a

theorem power_self (a b c : R × R) : power a b c c = 0 := by
  rw [← power_rotate]
  exact power_right b c a

/-- The circles through `a` and `b`. -/
theorem pencil (a b c p v : R × R) :
    side a b c * power a b p v = side a b p * power a b c v - side a b v * power a b c p := by
  simp only [power]
  ring

/-- The power of `w`, by its coordinates with respect to the edges at `o`. -/
theorem power_cone (o c e b z w : R × R) :
    side o c e * power o b z w =
      side o b z * power o c e w + side o c w * power o b z e - side o e w * power o b z c := by
  simp only [power, side, dot]
  ring

/-- The power of `p` with respect to a circle through `o`, by its coordinates. -/
theorem power_origin (o c e p : R × R) :
    power o c e p =
      side o c e * dot o o p - side o c p * dot o o e + side o e p * dot o o c := by
  simp only [power, side, dot]
  ring

end

section

variable {R : Type*} [CommRing R] [LinearOrder R] [IsStrictOrderedRing R]
variable {a b b' c d e o p q v w z : R × R}

theorem dot_self_nonneg (a p : R × R) : 0 ≤ dot a a p :=
  add_nonneg (mul_self_nonneg _) (mul_self_nonneg _)

theorem dot_self_pos (h : p ≠ a) : 0 < dot a a p := by
  refine lt_of_le_of_ne (dot_self_nonneg a p) fun hzero => h ?_
  obtain ⟨hx, hy⟩ := mul_self_add_mul_self_eq_zero.mp hzero.symm
  exact Prod.ext (sub_eq_zero.mp hx) (sub_eq_zero.mp hy)

/-- A point in the circle of one triangle at an edge, but not in that of the other one,
lies on the side of the former. -/
theorem side_pos_of_pencil (hc : 0 < side a b c) (hd : 0 < side b a d)
    (hcd : 0 ≤ power a b c d) (hp : power a b c p ≤ 0) (hp' : 0 < power b a d p) :
    0 < side a b p := by
  rw [side_swap] at hd
  rw [power_swap, power_swap_right, neg_neg] at hp'
  have h := pencil a b c p d
  by_contra hneg
  have hleft : 0 < side a b c * power a b p d := mul_pos hc hp'
  have hright : side a b p * power a b c d ≤ 0 :=
    mul_nonpos_of_nonpos_of_nonneg (not_lt.mp hneg) hcd
  have hright' : 0 ≤ side a b d * power a b c p :=
    mul_nonneg_of_nonpos_of_nonpos (by linarith) hp
  linarith

/-- A circle through the ends of an edge and a point in the circle of its triangle
contains nothing new on the side of the triangle. -/
theorem power_nonneg_of_right (hc : 0 < side a b c) (hpos : 0 < side a b p)
    (hp : power a b c p ≤ 0) (hv : 0 ≤ power a b c v) (hright : 0 ≤ side a b v) :
    0 ≤ power a b p v := by
  have h := pencil a b c p v
  have h₁ : 0 ≤ side a b p * power a b c v := mul_nonneg hpos.le hv
  have h₂ : side a b v * power a b c p ≤ 0 := mul_nonpos_of_nonneg_of_nonpos hright hp
  exact nonneg_of_mul_nonneg_right (by linarith) hc

/-- On the other side it is smaller than the circle of the triangle there, if the point
is not in that one. -/
theorem power_pos_of_left (hd : 0 < side b a d) (hpos : 0 < side a b p)
    (hp : 0 < power b a d p) (hv : 0 ≤ power b a d v) (hleft : side a b v < 0) :
    0 < power a b p v := by
  have h := pencil b a d p v
  rw [power_swap a b p v, side_swap a b p, side_swap a b v] at h
  have h₁ : 0 ≤ side a b p * power b a d v := mul_nonneg hpos.le hv
  have h₂ : side a b v * power b a d p < 0 := mul_neg_of_neg_of_pos hleft hp
  exact (mul_pos_iff_of_pos_left hd).mp (by linarith)

/-- Two edges from `a` that `p` is right of are one, if neither end is in the circle of
the other one, nor on it to the left. -/
theorem eq_of_power_nonneg (hpos : 0 < side a b p) (hpos' : 0 < side a b' p)
    (h : 0 ≤ power a b p b') (h' : 0 ≤ power a b' p b)
    (hleft : side a b b' < 0 → 0 < power a b p b')
    (hleft' : side a b' b < 0 → 0 < power a b' p b) : b = b' := by
  have hsum : power a b p b' + power a b' p b = 0 := by
    simp only [power, side, dot]
    ring
  have hzero : power a b p b' = 0 := by linarith
  have hzero' : power a b' p b = 0 := by linarith
  have hside : side a b b' = 0 := by
    have h₁ : ¬ side a b b' < 0 := fun hneg => (hleft hneg).ne' hzero
    have h₂ : ¬ side a b' b < 0 := fun hneg => (hleft' hneg).ne' hzero'
    rw [side_swap_right] at h₂
    linarith
  have hdot : dot a b b' = 0 := by
    rw [power, hside, mul_zero, sub_zero] at hzero
    exact (mul_eq_zero.mp hzero).resolve_right hpos.ne'
  have hdot' : dot a b' b = 0 := by
    rw [power, side_swap_right a b b', hside, neg_zero, mul_zero, sub_zero] at hzero'
    exact (mul_eq_zero.mp hzero').resolve_right hpos'.ne'
  by_contra hne
  have hlen : dot b' b' b = dot a b b' + dot a b' b := by
    simp only [dot]
    ring
  have hlt := dot_self_pos hne
  rw [hlen, hdot, hdot', add_zero] at hlt
  exact lt_irrefl 0 hlt

end

end Plane

end PCGForUnity
