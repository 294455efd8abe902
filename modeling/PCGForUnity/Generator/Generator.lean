/-
PCGForUnity/Generator/Generator.lean

What the generators share (`generator.h`): random numbers, and where a cell stands in a
map.

Design.  `float` is any type with the operations that the code uses (`FloatOps`), of which
nothing is assumed: what is proved for every `F` holds of the floating-point numbers too.
Where a result is about numbers, `F` is `ℚ`, that is, arithmetic is exact.

`std::rand()` returns the values of any sequence (`Rand`), so that a result for all of them
is a result for every seed.  `_irandom` draws one value and `_frandom` two, and both none
where the lower bound is not below the upper.
-/
import Mathlib.Algebra.Order.Ring.Rat

namespace PCGForUnity

/-- The operations of `float`.  A literal, and an integer that is converted, is the
`float` of a rational number. -/
class FloatOps (F : Type) extends Add F, Mul F, Div F, Neg F where
  ofRat : ℚ → F
  toInt : F → ℤ
  le : F → F → Bool
  lt : F → F → Bool

/-- Exact arithmetic; a number is converted to an integer by cutting its fraction off. -/
instance : FloatOps ℚ where
  ofRat := id
  toInt := fun q => q.num.tdiv q.den
  le := fun a b => decide (a ≤ b)
  lt := fun a b => decide (a < b)

/-- `NeighborType` -/
inductive NeighborType
  | neighborPositionLeft
  | neighborPositionBottom
  | neighborPositionRight
  | neighborPositionTop
  | neighborPositionAll
deriving DecidableEq, Repr

/-- The values that `std::rand()` returns, and how many it has returned. -/
structure Rand where
  values : ℕ → ℕ
  drawn : ℕ

namespace Rand

/-- `rand`: the next value. -/
def rand (r : Rand) : ℕ × Rand := (r.values r.drawn, { r with drawn := r.drawn + 1 })

/-- `_irandom`. -/
def irandom (r : Rand) (min max : ℤ) : ℤ × Rand :=
  if min ≥ max then (min, r)
  else
    let (value, r) := r.rand
    ((value : ℤ) % (max - min) + min, r)

/-- `_frandom_f`. -/
def frandomF {F : Type} [FloatOps F] (r : Rand) (min max : F) : F × Rand :=
  if FloatOps.le max min then (min, r)
  else
    let i := FloatOps.toInt (min * FloatOps.ofRat 10000)
    let a := FloatOps.toInt (max * FloatOps.ofRat 10000)
    let (value, r) := r.irandom i a
    (FloatOps.ofRat value / FloatOps.ofRat 10000, r)

/-- The upper bound is not reached. -/
theorem irandom_mem (r : Rand) {min max : ℤ} (h : min < max) :
    min ≤ (r.irandom min max).1 ∧ (r.irandom min max).1 < max := by
  have hpos : 0 < max - min := Int.sub_pos_of_lt h
  rw [irandom, if_neg (Int.not_le.mpr h)]
  show min ≤ ((r.values r.drawn : ℕ) : ℤ) % (max - min) + min ∧
    ((r.values r.drawn : ℕ) : ℤ) % (max - min) + min < max
  have hnonneg := Int.emod_nonneg ((r.values r.drawn : ℕ) : ℤ) (Int.ne_of_gt hpos)
  have hlt := Int.emod_lt_of_pos ((r.values r.drawn : ℕ) : ℤ) hpos
  omega

end Rand

/-- `GetHeightMapIndex`, with the `m_nSize` it takes from where it is used. -/
def getHeightMapIndex (x y size : ℤ) : ℤ := x + y * size

/-- `generator_clamp`. -/
def generatorClamp {α : Type} (lt : α → α → Bool) (x low high : α) : α :=
  if lt x low then low else if lt high x then high else x

theorem generatorClamp_of_mem {x low high : ℤ} (h : low ≤ x) (h' : x ≤ high) :
    generatorClamp (fun a b => decide (a < b)) x low high = x := by
  rw [generatorClamp, if_neg (by simpa using h), if_neg (by simpa using h')]

end PCGForUnity
