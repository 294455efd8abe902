/-
PCGForUnity/Generator/PointOrder.lean

The comparator of the points of a mountain, in exact arithmetic.  For every step above zero

    sort_vector3  is no strict weak order

(`sortVector3_not_strictWeakOrder`), which is what `std::sort` asks for.

Points whose `z` differ by less than the step are ordered by `x`, and others by `z`.  To be
that near is not transitive, so neither is the comparator: three points, each near the next
one, may be in a cycle.

Design.  The step is any integer that `Init` may set, and the coordinates are rational
numbers, so that neither rounding nor an overflow is the reason.  The cycle is given as a
function of the step.
-/
import PCGForUnity.Generator.Mountain
import Mathlib.Algebra.Order.Group.Abs
import Mathlib.Order.RelClasses
import Mathlib.Tactic.Linarith
import Mathlib.Tactic.NormNum
import Mathlib.Tactic.Positivity
import Mathlib.Tactic.Ring

namespace PCGForUnity

namespace MountainGen

variable {cmpStep : ℤ}

/-- The points that are less than another. -/
def Less (cmpStep : ℤ) (a b : LMPoint ℚ) : Prop := sortVector3 cmpStep a b = true

instance (a b : LMPoint ℚ) : Decidable (Less cmpStep a b) := inferInstanceAs (Decidable (_ = true))

theorem less_iff {a b : LMPoint ℚ} :
    Less cmpStep a b ↔
      a.v.z < b.v.z - cmpStep ∨ |a.v.z - b.v.z| < cmpStep ∧ a.v.x < b.v.x := by
  have habs : (if decide (a.v.z + -b.v.z < 0) = true then -(a.v.z + -b.v.z) else a.v.z + -b.v.z)
      = |a.v.z - b.v.z| := by
    rw [← sub_eq_add_neg]
    simp only [decide_eq_true_iff]
    split
    · exact (abs_of_neg ‹_›).symm
    · exact (abs_of_nonneg (not_lt.mp ‹_›)).symm
  show (if decide (a.v.z < b.v.z + -(cmpStep : ℚ)) = true then true
    else if decide ((if decide (a.v.z + -b.v.z < 0) = true then -(a.v.z + -b.v.z)
      else a.v.z + -b.v.z) < (cmpStep : ℚ)) = true then decide (a.v.x < b.v.x) else false) = true ↔ _
  rw [habs, ← sub_eq_add_neg]
  by_cases hz : a.v.z < b.v.z - cmpStep
  · simp [hz]
  · by_cases hnear : |a.v.z - b.v.z| < cmpStep
    · simp [hz, hnear]
    · simp [hz, hnear]

/-- A point with the coordinates that are compared. -/
def pointAt (x z : ℚ) : LMPoint ℚ := ⟨'S', ⟨x, 0, z⟩, 0⟩

/-- Of points that are 6 tenths of the step apart, neighbours are near and the outer ones
are not. -/
theorem less_pointAt_iff (h : 0 < cmpStep) (x x' : ℚ) (i j : ℕ) :
    Less cmpStep (pointAt x (3 / 5 * cmpStep * i)) (pointAt x' (3 / 5 * cmpStep * j)) ↔
      i + 2 ≤ j ∨ i ≤ j + 1 ∧ j ≤ i + 1 ∧ x < x' := by
  have hs : (0 : ℚ) < cmpStep := Int.cast_pos.mpr h
  -- in fifths of the step the distances are whole
  have hscale (p q : ℤ) : (cmpStep / 5 * p : ℚ) < cmpStep / 5 * q ↔ p < q := by
    rw [mul_lt_mul_iff_right₀ (by positivity), Int.cast_lt]
  have hi : (3 / 5 * cmpStep * i : ℚ) = cmpStep / 5 * (3 * i : ℤ) := by
    push_cast
    ring
  have hj : (3 / 5 * cmpStep * j : ℚ) = cmpStep / 5 * (3 * j : ℤ) := by
    push_cast
    ring
  have hone : (cmpStep : ℚ) = cmpStep / 5 * (5 : ℤ) := by
    push_cast
    ring
  have hfar : (3 / 5 * cmpStep * i : ℚ) < 3 / 5 * cmpStep * j - cmpStep ↔ i + 2 ≤ j := by
    rw [lt_sub_iff_add_lt, hi, hj]
    nth_rewrite 2 [hone]
    rw [← mul_add, ← Int.cast_add, hscale]
    omega
  have hnear : |(3 / 5 * cmpStep * i : ℚ) - 3 / 5 * cmpStep * j| < cmpStep ↔
      i ≤ j + 1 ∧ j ≤ i + 1 := by
    rw [abs_lt, neg_lt_sub_iff_lt_add, sub_lt_iff_lt_add, hi, hj]
    nth_rewrite 2 [hone]
    nth_rewrite 5 [hone]
    rw [← mul_add, ← mul_add, ← Int.cast_add, ← Int.cast_add, hscale, hscale]
    omega
  rw [less_iff, ← and_assoc, ← hfar, ← hnear]
  rfl

theorem less_irrefl (h : 0 ≤ cmpStep) (a : LMPoint ℚ) : ¬ Less cmpStep a a := by
  have hs : (0 : ℚ) ≤ cmpStep := Int.cast_nonneg h
  rw [less_iff]
  rintro (hlt | ⟨-, hlt⟩)
  · exact absurd hlt (by linarith)
  · exact lt_irrefl _ hlt

theorem less_not_trans (h : 0 < cmpStep) :
    ∃ a b c, Less cmpStep a b ∧ Less cmpStep b c ∧ ¬ Less cmpStep a c := by
  refine ⟨_, _, _, (less_pointAt_iff h 1 2 2 1).mpr ?_, (less_pointAt_iff h 2 3 1 0).mpr ?_,
    mt (less_pointAt_iff h 1 3 2 0).mp ?_⟩
  · exact Or.inr ⟨by decide, by decide, by decide⟩
  · exact Or.inr ⟨by decide, by decide, by decide⟩
  · rintro (hle | ⟨hle, -⟩)
    · exact absurd hle (by decide)
    · exact absurd hle (by decide)

/-- Nor is not to be told apart. -/
theorem incomp_not_trans (h : 0 < cmpStep) :
    ∃ a b c, (¬ Less cmpStep a b ∧ ¬ Less cmpStep b a) ∧
      (¬ Less cmpStep b c ∧ ¬ Less cmpStep c b) ∧ Less cmpStep a c := by
  have hnear (i j : ℕ) (hij : i ≤ j + 1) (hji : j ≤ i + 1) :
      ¬ Less cmpStep (pointAt 0 (3 / 5 * cmpStep * i)) (pointAt 0 (3 / 5 * cmpStep * j)) := by
    rw [less_pointAt_iff h]
    rintro (hle | ⟨-, -, hlt⟩)
    · omega
    · exact lt_irrefl 0 hlt
  refine ⟨_, _, _, ⟨hnear 0 1 ?_ ?_, hnear 1 0 ?_ ?_⟩, ⟨hnear 1 2 ?_ ?_, hnear 2 1 ?_ ?_⟩,
    (less_pointAt_iff h 0 0 0 2).mpr (Or.inl (Nat.le_refl 2))⟩
  all_goals decide

/-- Without the band it would be the order of `z`. -/
theorem less_zero_strictWeakOrder : IsStrictWeakOrder (LMPoint ℚ) (Less 0) := by
  have hless : Less 0 = Order.Preimage (fun p => p.v.z) ((· < ·) : ℚ → ℚ → Prop) := by
    funext a b
    refine propext (less_iff.trans ?_)
    rw [Int.cast_zero, sub_zero]
    exact or_iff_left fun hnear => absurd hnear.1 (not_lt.mpr (abs_nonneg _))
  have hlt : IsStrictWeakOrder ℚ (· < ·) := isStrictWeakOrder_of_isOrderConnected
  rw [hless]
  infer_instance

/-- For no step is it a strict weak order. -/
theorem sortVector3_not_strictWeakOrder (h : 0 < cmpStep) :
    ¬ IsStrictWeakOrder (LMPoint ℚ) (Less cmpStep) := by
  intro horder
  obtain ⟨a, b, c, hab, hbc, hac⟩ := less_not_trans h
  exact hac (horder.trans a b c hab hbc)

/-- The step that `Init` takes by default. -/
theorem sortVector3_not_strictWeakOrder_default :
    ¬ IsStrictWeakOrder (LMPoint ℚ) (Less 100) :=
  sortVector3_not_strictWeakOrder (by decide)

/-- Three points in a cycle. -/
theorem less_cycle :
    Less 100 (pointAt 1 120) (pointAt 2 60) ∧ Less 100 (pointAt 2 60) (pointAt 3 0) ∧
      Less 100 (pointAt 3 0) (pointAt 1 120) := by
  simp only [less_iff, pointAt, abs_lt]
  norm_num

end MountainGen

end PCGForUnity
