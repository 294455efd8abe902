/-
PCGForUnity/Generator/NeighborIds.lean

The id of the tile beside another one (`MapGenerator::GetNeighborID`).  In a world of `n`
times `n` tiles the id is that of the tile on that side, from which a step back leads to the
tile again, and 0 where there is none, except

* to the left of the first tile of a row that is not the first row;
* to the right of the last tile of a row that is not the last row

(`isGeometric_iff`).

Design.  A tile's id tells its column and its row, as quotient and remainder, but the code
looks only at the range of the id that it computes.  This finds the upper and the lower
border of the grid, and not the ends of a row: the tile before the first one of a row is the
last one of the row before.  The grid is stated by columns and rows, the code by 32-bit ids
that may wrap below 1, and `n * n` fits in them.
-/
import PCGForUnity.Generator.TerrainNeighbors
import Mathlib.Tactic.Ring

namespace PCGForUnity

open NeighborType

namespace MapGenerator

/-- `GetNeighborID`, by the members `worldMapSize` and `m_nTotalMapCount`.  There is no remainder
for a size of zero. -/
def getNeighborID (worldMapSize totalMapCount : UInt32) (dir : NeighborType) (who : UInt32) :
    Option UInt32 :=
  if who = 0 then some 0
  else if worldMapSize = 0 then none
  else
    let index := who - 1
    let x := index % worldMapSize
    let y := index / worldMapSize
    match dir with
    | neighborPositionLeft =>
        let idx := (x - 1 + y * worldMapSize + 1).toInt32
        some (if idx > 0 then idx else 0).toUInt32
    | neighborPositionBottom =>
        let idx := (x + (y - 1) * worldMapSize + 1).toInt32
        some (if idx > 0 then idx else 0).toUInt32
    | neighborPositionRight =>
        let idx := (x + 1 + y * worldMapSize + 1).toInt32
        -- an `int32_t` that is compared with a `uint32_t` is converted
        some (if idx.toUInt32 ≤ totalMapCount then idx else 0).toUInt32
    | neighborPositionTop =>
        let idx := (x + (y + 1) * worldMapSize + 1).toInt32
        some (if idx.toUInt32 ≤ totalMapCount then idx else 0).toUInt32
    | neighborPositionAll => some 0

/-! ### The grid -/

/-- The column and the row of an id. -/
def cellOf (n w : ℕ) : ℤ × ℤ := (((w - 1) % n : ℕ), ((w - 1) / n : ℕ))

/-- The id of a cell, or zero outside the grid. -/
def idOf (n : ℕ) (c : ℤ × ℤ) : ℕ :=
  if 0 ≤ c.1 ∧ c.1 < n ∧ 0 ≤ c.2 ∧ c.2 < n then (c.1 + c.2 * n + 1).toNat else 0

/-- The cell beside another one. -/
def beside : NeighborType → ℤ × ℤ → ℤ × ℤ
  | neighborPositionLeft, c => (c.1 - 1, c.2)
  | neighborPositionBottom, c => (c.1, c.2 - 1)
  | neighborPositionRight, c => (c.1 + 1, c.2)
  | neighborPositionTop, c => (c.1, c.2 + 1)
  | neighborPositionAll, c => c

section

variable {n w a b : ℕ}

theorem idOf_natCast (n a b : ℕ) :
    idOf n ((a : ℤ), (b : ℤ)) = if a < n ∧ b < n then a + b * n + 1 else 0 := by
  have hinside : (0 ≤ (a : ℤ) ∧ (a : ℤ) < n ∧ 0 ≤ (b : ℤ) ∧ (b : ℤ) < n) ↔ a < n ∧ b < n := by
    omega
  have hid : ((a : ℤ) + b * n + 1).toNat = a + b * n + 1 := by
    rw [← Int.natCast_mul]
    omega
  simp only [idOf, hinside, hid]

theorem idOf_of_neg {c : ℤ × ℤ} (hc : c.1 < 0 ∨ c.2 < 0) : idOf n c = 0 :=
  if_neg fun hinside => by omega

/-! The ids beside a cell, and none beyond a border. -/

theorem idOf_left (ha : a < n) (hb : b < n) :
    idOf n (beside neighborPositionLeft ((a : ℤ), (b : ℤ))) = if a = 0 then 0 else a + b * n := by
  cases a with
  | zero => exact idOf_of_neg (Or.inl (Int.sub_lt_self 0 Int.one_pos))
  | succ a =>
      have hleft : beside neighborPositionLeft (((a + 1 : ℕ) : ℤ), (b : ℤ)) = ((a : ℤ), (b : ℤ)) := by
        simp [beside]
      rw [hleft, idOf_natCast, if_pos ⟨by omega, hb⟩, if_neg (Nat.succ_ne_zero a)]
      ring

theorem idOf_bottom (ha : a < n) (hb : b < n) :
    idOf n (beside neighborPositionBottom ((a : ℤ), (b : ℤ)))
      = if b = 0 then 0 else a + (b - 1) * n + 1 := by
  cases b with
  | zero => exact idOf_of_neg (Or.inr (Int.sub_lt_self 0 Int.one_pos))
  | succ b =>
      have hbottom : beside neighborPositionBottom ((a : ℤ), ((b + 1 : ℕ) : ℤ))
          = ((a : ℤ), (b : ℤ)) := by
        simp [beside]
      rw [hbottom, idOf_natCast, if_pos ⟨ha, by omega⟩, if_neg (Nat.succ_ne_zero b)]
      rfl

theorem idOf_right (hb : b < n) :
    idOf n (beside neighborPositionRight ((a : ℤ), (b : ℤ)))
      = if a + 1 < n then a + 1 + b * n + 1 else 0 := by
  show idOf n (((a + 1 : ℕ) : ℤ), (b : ℤ)) = _
  rw [idOf_natCast]
  simp only [hb, and_true]

theorem idOf_top (ha : a < n) :
    idOf n (beside neighborPositionTop ((a : ℤ), (b : ℤ)))
      = if b + 1 < n then a + (b + 1) * n + 1 else 0 := by
  show idOf n ((a : ℤ), ((b + 1 : ℕ) : ℤ)) = _
  rw [idOf_natCast]
  simp only [ha, true_and]

/-- What the code returns, over the natural numbers. -/
def flatStep (n total w : ℕ) : NeighborType → ℕ
  | neighborPositionLeft => w - 1
  | neighborPositionBottom => w - n
  | neighborPositionRight => if w + 1 ≤ total then w + 1 else 0
  | neighborPositionTop => if w + n ≤ total then w + n else 0
  | neighborPositionAll => 0

/-- A step back leads to where one comes from, over the end of a row too. -/
theorem flatStep_opposite {dir : NeighborType} {total : ℕ} (hw : 1 ≤ w) (hle : w ≤ total)
    (h : flatStep n total w dir ≠ 0) :
    flatStep n total (flatStep n total w dir) (Neighbors.opposite dir) = w := by
  cases dir with
  | neighborPositionAll => exact absurd rfl h
  | neighborPositionLeft =>
      replace h : w - 1 ≠ 0 := h
      show (if w - 1 + 1 ≤ total then w - 1 + 1 else 0) = w
      rw [if_pos (by omega)]
      omega
  | neighborPositionBottom =>
      replace h : w - n ≠ 0 := h
      show (if w - n + n ≤ total then w - n + n else 0) = w
      rw [if_pos (by omega)]
      omega
  | neighborPositionRight =>
      replace h : (if w + 1 ≤ total then w + 1 else 0) ≠ 0 := h
      show (if w + 1 ≤ total then w + 1 else 0) - 1 = w
      rw [if_pos (of_not_not fun hlt => h (if_neg hlt))]
      omega
  | neighborPositionTop =>
      replace h : (if w + n ≤ total then w + n else 0) ≠ 0 := h
      show (if w + n ≤ total then w + n else 0) - n = w
      rw [if_pos (of_not_not fun hlt => h (if_neg hlt))]
      omega

theorem flatStep_le {dir : NeighborType} {total : ℕ} (hle : w ≤ total) :
    flatStep n total w dir ≤ total := by
  cases dir with
  | neighborPositionAll => exact Nat.zero_le total
  | neighborPositionLeft => exact (Nat.sub_le w 1).trans hle
  | neighborPositionBottom => exact (Nat.sub_le w n).trans hle
  | _ =>
      rw [flatStep]
      split <;> omega

/-- The ends of the rows are where an id and a cell differ. -/
theorem flatStep_eq_idOf_iff {dir : NeighborType} (hdir : dir ≠ neighborPositionAll) (hw : 1 ≤ w)
    (hle : w ≤ n * n) :
    flatStep n (n * n) w dir = idOf n (beside dir (cellOf n w)) ↔
      ¬ (dir = neighborPositionLeft ∧ (w - 1) % n = 0 ∧ (w - 1) / n ≠ 0) ∧
      ¬ (dir = neighborPositionRight ∧ (w - 1) % n = n - 1 ∧ (w - 1) / n ≠ n - 1) := by
  have hn : 0 < n := Nat.pos_of_mul_pos_left (hw.trans hle)
  obtain ⟨x, hx⟩ : ∃ x, x = (w - 1) % n := ⟨_, rfl⟩
  obtain ⟨y, hy⟩ : ∃ y, y = (w - 1) / n := ⟨_, rfl⟩
  have hxn : x < n := hx ▸ Nat.mod_lt _ hn
  have hyn : y < n := by
    rw [hy, Nat.div_lt_iff_lt_mul hn]
    omega
  have hsum : w = x + y * n + 1 := by
    have := Nat.mod_add_div' (w - 1) n
    rw [← hx, ← hy] at this
    omega
  -- the ids of the rows
  have hnext : (y + 1) * n = y * n + n := Nat.succ_mul y n
  have hlast : y + 1 = n → (y + 1) * n = n * n := congrArg (· * n)
  have hinner : y + 1 < n → (y + 1) * n + n ≤ n * n := fun hlt => by
    rw [← Nat.succ_mul]
    exact Nat.mul_le_mul_right n hlt
  have hfirst : y = 0 ↔ y * n = 0 := by rw [Nat.mul_eq_zero, or_iff_left hn.ne']
  rw [cellOf, ← hx, ← hy]
  cases dir with
  | neighborPositionAll => exact absurd rfl hdir
  | neighborPositionLeft =>
      rw [idOf_left hxn hyn, flatStep]
      simp only [true_and, reduceCtorEq, false_and, not_false_eq_true, and_true]
      split <;> omega
  | neighborPositionBottom =>
      rw [idOf_bottom hxn hyn, flatStep]
      refine iff_of_true ?_ ⟨by simp, by simp⟩
      have hprev : y ≠ 0 → (y - 1) * n + n = y * n := fun hne => by
        rw [← Nat.succ_mul, Nat.succ_eq_add_one, Nat.sub_one_add_one hne]
      split <;> omega
  | neighborPositionRight =>
      rw [idOf_right hyn, flatStep]
      simp only [true_and, reduceCtorEq, false_and, not_false_eq_true]
      split <;> split <;> omega
  | neighborPositionTop =>
      rw [idOf_top hxn, flatStep]
      refine iff_of_true ?_ ⟨by simp, by simp⟩
      split <;> split <;> omega

end

/-! ### The code -/

theorem pos_toInt32_iff (u : UInt32) : u.toInt32 > 0 ↔ 0 < u.toNat ∧ u.toNat < 2 ^ 31 := by
  have htoInt : u.toInt32.toInt = if 2 * u.toNat < 2 ^ 32 then (u.toNat : ℤ) else u.toNat - 2 ^ 32 :=
    BitVec.toInt_eq_toNat_cond u.toBitVec
  rw [gt_iff_lt, Int32.lt_iff_toInt_lt, htoInt, Int32.toInt_zero]
  have hlt := u.toNat_lt
  split <;> omega

theorem toNat_ite (p : Prop) [Decidable p] (u : UInt32) :
    ((if p then u.toInt32 else 0).toUInt32).toNat = if p then u.toNat else 0 := by
  split
  · rw [UInt32.toUInt32_toInt32]
  · rfl

section

variable {n total w : UInt32} {dir : NeighborType}

theorem mod_add_div_mul (a n : UInt32) : a % n + a / n * n = a := by
  refine UInt32.toNat_inj.mp ?_
  rw [UInt32.toNat_add, UInt32.toNat_mod, UInt32.toNat_mul, UInt32.toNat_div, Nat.add_mod_mod,
    Nat.mod_add_div', Nat.mod_eq_of_lt a.toNat_lt]

/-- The four sums, by the id: the wrap of their terms cancels. -/
theorem getNeighborID_of_ne_zero (hw : w ≠ 0) (hn : n ≠ 0) :
    getNeighborID n total dir w = match dir with
      | neighborPositionLeft => some (if (w - 1).toInt32 > 0 then (w - 1).toInt32 else 0).toUInt32
      | neighborPositionBottom => some (if (w - n).toInt32 > 0 then (w - n).toInt32 else 0).toUInt32
      | neighborPositionRight => some (if w + 1 ≤ total then (w + 1).toInt32 else 0).toUInt32
      | neighborPositionTop => some (if w + n ≤ total then (w + n).toInt32 else 0).toUInt32
      | neighborPositionAll => some 0 := by
  have hsum := mod_add_div_mul (w - 1) n
  obtain ⟨x, hx⟩ : ∃ x, x = (w - 1) % n := ⟨_, rfl⟩
  obtain ⟨y, hy⟩ : ∃ y, y = (w - 1) / n := ⟨_, rfl⟩
  rw [← hx, ← hy] at hsum
  have hleft : x - 1 + y * n + 1 = w - 1 := by grind
  have hbottom : x + (y - 1) * n + 1 = w - n := by grind
  have hright : x + 1 + y * n + 1 = w + 1 := by grind
  have htop : x + (y + 1) * n + 1 = w + n := by grind
  simp only [getNeighborID, if_neg hw, if_neg hn, ← hx, ← hy, hleft, hbottom, hright, htop,
    UInt32.toUInt32_toInt32]

theorem getNeighborID_eq (dir : NeighborType) (htotal : total.toNat = n.toNat * n.toNat)
    (hfit : n.toNat * n.toNat < 2 ^ 31) (hw : 1 ≤ w.toNat) (hle : w.toNat ≤ total.toNat) :
    ∃ v, getNeighborID n total dir w = some v ∧
      v.toNat = flatStep n.toNat total.toNat w.toNat dir := by
  have hpos : 0 < n.toNat := Nat.pos_of_mul_pos_left (a := n.toNat) (by omega)
  have hn : n.toNat ≤ n.toNat * n.toNat := Nat.le_mul_self _
  have hw0 : w ≠ 0 := by
    rintro rfl
    exact absurd hw (by decide)
  have hn0 : n ≠ 0 := by
    rintro rfl
    exact absurd hpos (by decide)
  rw [getNeighborID_of_ne_zero hw0 hn0]
  cases dir with
  | neighborPositionAll => exact ⟨0, rfl, rfl⟩
  | neighborPositionLeft =>
      have hprev : (w - 1).toNat = w.toNat - 1 := UInt32.toNat_sub_of_le w 1 hw
      refine ⟨_, rfl, ?_⟩
      rw [toNat_ite, flatStep]
      simp only [pos_toInt32_iff, hprev]
      split <;> omega
  | neighborPositionBottom =>
      -- below the first row the difference wraps, and is negative as an `int32_t`
      have hbelow : (w - n).toNat = if n.toNat ≤ w.toNat then w.toNat - n.toNat
          else 2 ^ 32 + w.toNat - n.toNat := by
        rw [UInt32.toNat_sub]
        have := w.toNat_lt
        split <;> omega
      refine ⟨_, rfl, ?_⟩
      rw [toNat_ite, flatStep]
      simp only [pos_toInt32_iff, hbelow]
      split <;> split <;> omega
  | neighborPositionRight =>
      have hnext : (w + 1).toNat = w.toNat + 1 := by
        rw [UInt32.toNat_add, UInt32.toNat_one]
        omega
      refine ⟨_, rfl, ?_⟩
      rw [toNat_ite, flatStep]
      simp only [UInt32.le_iff_toNat_le, hnext]
  | neighborPositionTop =>
      have habove : (w + n).toNat = w.toNat + n.toNat := by
        rw [UInt32.toNat_add]
        omega
      refine ⟨_, rfl, ?_⟩
      rw [toNat_ite, flatStep]
      simp only [UInt32.le_iff_toNat_le, habove]

/-- The id of the cell beside, from which a step back leads to the cell again. -/
def IsGeometric (n total : UInt32) (dir : NeighborType) (w : UInt32) : Prop :=
  ∃ v, getNeighborID n total dir w = some v ∧
    v.toNat = idOf n.toNat (beside dir (cellOf n.toNat w.toNat)) ∧
    (v ≠ 0 → getNeighborID n total (Neighbors.opposite dir) v = some w)

/-- **The ids are geometric, except to the left of the first cell of a row and to the right of
the last one**; before the first cell of all there is nothing, nor is there after the last. -/
theorem isGeometric_iff (htotal : total.toNat = n.toNat * n.toNat)
    (hfit : n.toNat * n.toNat < 2 ^ 31) (hw : 1 ≤ w.toNat) (hle : w.toNat ≤ total.toNat)
    (hdir : dir ≠ neighborPositionAll) :
    IsGeometric n total dir w ↔
      ¬ (dir = neighborPositionLeft ∧ (w.toNat - 1) % n.toNat = 0 ∧ (w.toNat - 1) / n.toNat ≠ 0) ∧
      ¬ (dir = neighborPositionRight ∧ (w.toNat - 1) % n.toNat = n.toNat - 1 ∧
        (w.toNat - 1) / n.toNat ≠ n.toNat - 1) := by
  obtain ⟨v, hv, hvalue⟩ := getNeighborID_eq dir htotal hfit hw hle
  rw [← flatStep_eq_idOf_iff hdir hw (htotal ▸ hle), ← htotal, ← hvalue]
  constructor
  · rintro ⟨v', hv', hid, -⟩
    obtain rfl := Option.some.inj (hv.symm.trans hv')
    exact hid
  · intro hid
    refine ⟨v, hv, hid, fun hne => ?_⟩
    have hne' : v.toNat ≠ 0 := fun hzero => hne (UInt32.toNat_inj.mp hzero)
    have hvle : v.toNat ≤ total.toNat := hvalue ▸ flatStep_le hle
    obtain ⟨u, hu, hvalue'⟩ := getNeighborID_eq (Neighbors.opposite dir) htotal hfit
      (Nat.one_le_iff_ne_zero.mpr hne') hvle
    have hback : u.toNat = w.toNat := by
      rw [hvalue', hvalue]
      exact flatStep_opposite hw hle (hvalue ▸ hne')
    rw [hu, UInt32.toNat_inj.mp hback]

theorem isGeometric_right_of_first : IsGeometric 2 4 neighborPositionRight 1 :=
  (isGeometric_iff rfl (by decide) (by decide) (by decide) (by decide)).mpr (by decide)

/-- The third tile of four is the first one of the second row. -/
theorem not_isGeometric_left_of_third : ¬ IsGeometric 2 4 neighborPositionLeft 3 := by
  rintro ⟨v, hv, hid, -⟩
  obtain rfl := Option.some.inj hv
  exact absurd hid (by decide)

end

end MapGenerator

end PCGForUnity
