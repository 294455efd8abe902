/-
PCGForUnity/Lib/Lattice.lean

Square lattices in the plane.  Halving the spacing of one adds the centres of its squares,
and then the midpoints of their edges:

    lattice (2g) n  ∪  centres  ∪  midpoints  =  lattice g (2n)

(`lattice_halve`).  The midpoints lie in rows that start on the edge of the lattice and one
step off it in turn; the three parts are told apart by the parity of the coordinates
(`mem_lattice_double`, `mem_centreRows`, `mem_midpointRows`).

A procedure that refines a grid in this way, squares first and then diamonds, has visited
the whole lattice of spacing `g` when it is through with that spacing, and each cell once.
Nothing here is about such a procedure: the sets are stated over `ℤ × ℤ` with the indices
that its loops run over.
-/
import Mathlib.Order.Lattice.Nat
import Mathlib.Data.Int.Interval
import Mathlib.Algebra.Order.Ring.Int
import Mathlib.Tactic.Ring

namespace PCGForUnity

/-- The cell in column `a` and row `b` of the lattice of spacing `g`. -/
def cell (g : ℤ) (a b : ℕ) : ℤ × ℤ := (g * a, g * b)

/-- A lattice of `m + 1` columns and rows. -/
def lattice (g : ℤ) (m : ℕ) : Set (ℤ × ℤ) := {c | ∃ a b, a ≤ m ∧ b ≤ m ∧ c = cell g a b}

/-- The centres in a row of squares. -/
def centreRow (g : ℤ) (n j : ℕ) : Set (ℤ × ℤ) := ⋃ i < n, {cell g (2 * i + 1) (2 * j + 1)}

/-- The midpoints of edges in a row: every second cell, from the second or the first one. -/
def midpointRow (g : ℤ) (n j : ℕ) : Set (ℤ × ℤ) :=
  ⋃ i < n + j % 2, {cell g (2 * i + (j + 1) % 2) j}

section

variable {g : ℤ} {a b a' b' m n j k : ℕ}

theorem cell_inj (hg : g ≠ 0) : cell g a b = cell g a' b' ↔ a = a' ∧ b = b' := by
  rw [cell, cell, Prod.mk.injEq, mul_right_inj' hg, mul_right_inj' hg, Nat.cast_inj, Nat.cast_inj]

theorem mem_lattice (hg : g ≠ 0) : cell g a b ∈ lattice g m ↔ a ≤ m ∧ b ≤ m := by
  constructor
  · rintro ⟨a', b', ha, hb, h⟩
    obtain ⟨rfl, rfl⟩ := (cell_inj hg).mp h
    exact ⟨ha, hb⟩
  · rintro ⟨ha, hb⟩
    exact ⟨a, b, ha, hb, rfl⟩

theorem cell_double (g : ℤ) (a b : ℕ) : cell (2 * g) a b = cell g (2 * a) (2 * b) := by
  refine Prod.ext ?_ ?_
  · show 2 * g * (a : ℤ) = g * ((2 * a : ℕ) : ℤ)
    push_cast
    ring
  · show 2 * g * (b : ℤ) = g * ((2 * b : ℕ) : ℤ)
    push_cast
    ring

theorem mem_lattice_double (hg : g ≠ 0) :
    cell g a b ∈ lattice (2 * g) n ↔ a ≤ 2 * n ∧ b ≤ 2 * n ∧ a % 2 = 0 ∧ b % 2 = 0 := by
  constructor
  · rintro ⟨a', b', ha, hb, h⟩
    rw [cell_double, cell_inj hg] at h
    omega
  · rintro ⟨ha, hb, ha', hb'⟩
    refine ⟨a / 2, b / 2, by omega, by omega, ?_⟩
    rw [cell_double, cell_inj hg]
    omega

theorem mem_centreRow (hg : g ≠ 0) :
    cell g a b ∈ centreRow g n j ↔ a < 2 * n ∧ a % 2 = 1 ∧ b = 2 * j + 1 := by
  simp only [centreRow, Set.mem_iUnion, Set.mem_singleton_iff, cell_inj hg, exists_prop]
  constructor
  · rintro ⟨i, hi, rfl, rfl⟩
    omega
  · rintro ⟨ha, ha', rfl⟩
    exact ⟨a / 2, by omega, by omega, rfl⟩

theorem mem_centreRows (hg : g ≠ 0) :
    cell g a b ∈ ⋃ j < k, centreRow g n j ↔ a < 2 * n ∧ b < 2 * k ∧ a % 2 = 1 ∧ b % 2 = 1 := by
  simp only [Set.mem_iUnion, mem_centreRow hg, exists_prop]
  constructor
  · rintro ⟨j, hj, ha, ha', rfl⟩
    omega
  · rintro ⟨ha, hb, ha', hb'⟩
    exact ⟨b / 2, by omega, ha, ha', by omega⟩

theorem mem_midpointRow (hg : g ≠ 0) :
    cell g a b ∈ midpointRow g n j ↔ a ≤ 2 * n ∧ (a + b) % 2 = 1 ∧ b = j := by
  simp only [midpointRow, Set.mem_iUnion, Set.mem_singleton_iff, cell_inj hg, exists_prop]
  constructor
  · rintro ⟨i, hi, rfl, rfl⟩
    omega
  · rintro ⟨ha, hab, rfl⟩
    exact ⟨a / 2, by omega, by omega, rfl⟩

theorem mem_midpointRows (hg : g ≠ 0) :
    cell g a b ∈ ⋃ j < k, midpointRow g n j ↔ a ≤ 2 * n ∧ b < k ∧ (a + b) % 2 = 1 := by
  simp only [Set.mem_iUnion, mem_midpointRow hg, exists_prop]
  constructor
  · rintro ⟨j, hj, ha, hab, rfl⟩
    exact ⟨ha, hj, hab⟩
  · rintro ⟨ha, hb, hab⟩
    exact ⟨b, hb, ha, hab, rfl⟩

theorem step_lt (hg : 0 < g) : g * (a : ℤ) < g * b ↔ a < b := by
  rw [mul_lt_mul_iff_of_pos_left hg, Nat.cast_lt]

theorem step_le (hg : 0 < g) : g * (a : ℤ) ≤ g * b ↔ a ≤ b := by
  rw [mul_le_mul_iff_of_pos_left hg, Nat.cast_le]

theorem step_succ (g : ℤ) (a : ℕ) : g * (a : ℤ) + g = g * (a + 1 : ℕ) := by
  push_cast
  ring

theorem step_pred (g : ℤ) (h : 1 ≤ a) : g * (a : ℤ) - g = g * (a - 1 : ℕ) := by
  rw [Nat.cast_sub h]
  ring

theorem step_pred_nonneg (hg : 0 < g) : 0 ≤ g * (a : ℤ) - g ↔ 1 ≤ a := by
  rw [← step_le hg, Nat.cast_one, mul_one, sub_nonneg]

theorem le_step (hg : 0 < g) : g ≤ g * (a : ℤ) ↔ 1 ≤ a := by
  rw [← step_le hg, Nat.cast_one, mul_one]

/-- The rows of midpoints start in the second and in the first column in turn. -/
theorem midpointRow_start (hg : 0 < g) (j : ℕ) :
    (g * (j : ℤ) + g) % (2 * g) = g * ((j + 1) % 2 : ℕ) := by
  rw [step_succ, mul_comm 2 g, Int.mul_emod_mul_of_pos _ _ hg, Int.natCast_mod, Nat.cast_two]

/-- **Halving the spacing.** -/
theorem lattice_halve (hg : g ≠ 0) (n : ℕ) :
    lattice (2 * g) n ∪ (⋃ j < n, centreRow g n j) ∪ (⋃ j < 2 * n + 1, midpointRow g n j)
      = lattice g (2 * n) := by
  refine Set.Subset.antisymm ?_ ?_
  · rintro c ((hc | hc) | hc)
    · obtain ⟨a, b, ha, hb, rfl⟩ := hc
      rw [cell_double, mem_lattice hg]
      omega
    · simp only [centreRow, Set.mem_iUnion, Set.mem_singleton_iff, exists_prop] at hc
      obtain ⟨j, hj, i, hi, rfl⟩ := hc
      rw [mem_lattice hg]
      omega
    · simp only [midpointRow, Set.mem_iUnion, Set.mem_singleton_iff, exists_prop] at hc
      obtain ⟨j, hj, i, hi, rfl⟩ := hc
      rw [mem_lattice hg]
      omega
  · rintro c ⟨a, b, ha, hb, rfl⟩
    rw [Set.mem_union, Set.mem_union, mem_lattice_double hg, mem_centreRows hg,
      mem_midpointRows hg]
    omega

/-- The lattice of spacing 1 is the whole box. -/
theorem mem_lattice_one {c : ℤ × ℤ} :
    c ∈ lattice 1 m ↔ (0 ≤ c.1 ∧ c.1 ≤ m) ∧ 0 ≤ c.2 ∧ c.2 ≤ m := by
  constructor
  · rintro ⟨a, b, ha, hb, rfl⟩
    simp only [cell, one_mul]
    omega
  · rintro ⟨⟨hx, hx'⟩, hy, hy'⟩
    refine ⟨c.1.toNat, c.2.toNat, by omega, by omega, ?_⟩
    refine Prod.ext ?_ ?_
    · show c.1 = 1 * (c.1.toNat : ℤ)
      omega
    · show c.2 = 1 * (c.2.toNat : ℤ)
      omega

end

end PCGForUnity
