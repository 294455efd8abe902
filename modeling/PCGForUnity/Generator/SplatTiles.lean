/-
PCGForUnity/Generator/SplatTiles.lean

The texture weights of a tile.  `SplatPainter` lays the splat map out by rows of the whole
world, while `Generate` reads it by columns, and with the width of a tile.  The two agree
on a cell only where that comes to the same index:

    a tile gets the weight of its cell (x, y)   ↔   x = n * y

with `n` tiles to the edge of the world, for every channel and whatever was painted
(`copies_weight_iff`).

Design.  That a copied weight is the painted one is stated for all maps at once: two
indices that differ hold different weights in some map, so the question is one about
indices.  `Painted` is the world that the claim is about; its splat map has an index of 31
bits for every weight, so that neither `int` nor `uint32` wraps.
-/
import PCGForUnity.Generator.HeightTiles

namespace PCGForUnity

/-- The members of `SplatPainter` that `GetAlpha` reads. -/
structure SplatPainter (α : Type) where
  alphaMap : ℕ → α
  alphaCount : ℤ
  size : ℤ

/-- `GetAlpha` -/
def SplatPainter.getAlpha {α : Type} [Zero α] (p : SplatPainter α) (x y splatIndex : ℤ) : α :=
  if splatIndex ≥ p.alphaCount then 0
  else
    let x := generatorClamp (fun a b => decide (a < b)) x 0 (p.size - 1)
    let y := generatorClamp (fun a b => decide (a < b)) y 0 (p.size - 1)
    p.alphaMap (getSplatMapIndex y x splatIndex p.size p.alphaCount).toNat

namespace MapGenerator

variable {α : Type} {m : MapGenerator α} {terr : UInt32} {I : ℕ}

/-- The painter, as `Init` sets it up for tiles whose splat maps are as wide as they. -/
def painter (m : MapGenerator α) (I : ℕ) : SplatPainter α :=
  { alphaMap := m.splatMap.content
    alphaCount := m.data.splatCount.toNat
    size := worldSize I }

theorem getAlpha_eq [Zero α] {x y a : ℕ} (hx : x < worldSize I) (hy : y < worldSize I)
    (ha : a < m.data.splatCount.toNat) :
    (m.painter I).getAlpha x y a
      = m.splatMap.content ((y * worldSize I + x) * m.data.splatCount.toNat + a) := by
  have hcount : ¬ (a : ℤ) ≥ (m.painter I).alphaCount := not_le.mpr (Int.ofNat_lt.mpr ha)
  have hclamp {z : ℕ} (hz : z < worldSize I) :
      generatorClamp (fun a b => decide (a < b)) (z : ℤ) 0 ((m.painter I).size - 1) = z := by
    refine generatorClamp_of_mem (Int.natCast_nonneg z) ?_
    show (z : ℤ) ≤ worldSize I - 1
    omega
  rw [SplatPainter.getAlpha, if_neg hcount, hclamp hx, hclamp hy]
  show m.splatMap.content (((y : ℤ) * (worldSize I : ℤ) + x) * (m.data.splatCount.toNat : ℤ) + a).toNat
    = _
  congr 1

/-- A world whose splat map has an index of 31 bits for every weight, and tiles with
splat maps as wide as they. -/
structure Painted (m : MapGenerator α) (I : ℕ) : Prop extends m.Tiled I where
  width_eq : m.data.splatWidth = m.data.singleMapSize
  map_lt : worldSize I * worldSize I * m.data.splatCount.toNat < 2 ^ 31

namespace Painted

/-- A cell of the world has an index below the number of cells, by rows of any tile. -/
theorem cellIndex_lt (h : m.Painted I) {x y : ℕ} (hx : x < worldSize I) (hy : y < worldSize I) :
    x * m.data.singleMapSize.toNat + y + 1 ≤ worldSize I * worldSize I := by
  have hmul := Nat.mul_le_mul (Nat.le_sub_one_of_lt hx) h.singleMapSize_le
  have hsq : (worldSize I - 1) * worldSize I + worldSize I = worldSize I * worldSize I := by
    rw [← Nat.succ_mul, Nat.succ_eq_add_one, Nat.sub_add_cancel (Nat.zero_lt_of_lt hx)]
  omega

/-- A weight's index in the splat map, as `Generate` computes it. -/
theorem splatIndex_eq (h : m.Painted I) {wx wy : UInt32} {a : ℕ} (hx : wx.toNat < worldSize I)
    (hy : wy.toNat < worldSize I) (ha : a < m.data.splatCount.toNat) :
    (getSplatMapIndex wx wy (UInt32.ofNat a) m.data.splatWidth m.data.splatCount).toNat
      = (wx.toNat * m.data.singleMapSize.toNat + wy.toNat) * m.data.splatCount.toNat + a := by
  have hle := Nat.mul_le_mul_right m.data.splatCount.toNat (h.cellIndex_lt hx hy)
  rw [Nat.succ_mul] at hle
  have hmap := h.map_lt
  have hcell : wx.toNat * m.data.singleMapSize.toNat + wy.toNat
      ≤ (wx.toNat * m.data.singleMapSize.toNat + wy.toNat) * m.data.splatCount.toNat :=
    Nat.le_mul_of_pos_right _ (Nat.zero_lt_of_lt ha)
  have hrow : (wx * m.data.singleMapSize + wy).toNat
      = wx.toNat * m.data.singleMapSize.toNat + wy.toNat := by
    rw [UInt32.toNat_add, UInt32.toNat_mul, Nat.mod_add_mod]
    exact Nat.mod_eq_of_lt (by omega)
  rw [getSplatMapIndex, h.width_eq, UInt32.toNat_add, UInt32.toNat_mul, hrow,
    Triple.toNat_ofNat (by omega), Nat.mod_add_mod]
  exact Nat.mod_eq_of_lt (by omega)

/-- The two layouts of a cell agree on one line through the world. -/
theorem layouts_agree_iff (h : m.Painted I) {x y a : ℕ} (ha : a < m.data.splatCount.toNat) :
    (x * m.data.singleMapSize.toNat + y) * m.data.splatCount.toNat + a
        = (y * worldSize I + x) * m.data.splatCount.toNat + a ↔
      x = m.edgeCount I * y := by
  obtain ⟨k, hk⟩ : ∃ k, m.data.singleMapSize.toNat = k + 1 :=
    ⟨m.data.singleMapSize.toNat - 1, by have := h.two_le; omega⟩
  have hpos : 0 < k := by
    have := h.two_le
    omega
  have hsize := h.worldSize_eq
  rw [hk, Nat.add_sub_cancel] at hsize
  rw [Nat.add_right_cancel_iff, Nat.mul_left_inj (Nat.ne_of_gt (Nat.zero_lt_of_lt ha)), hk, hsize]
  have hleft : x * (k + 1) + y = x * k + (x + y) := by ring
  have hright : y * (m.edgeCount I * k + 1) + x = m.edgeCount I * y * k + (x + y) := by ring
  rw [hleft, hright, Nat.add_right_cancel_iff, Nat.mul_left_inj (Nat.ne_of_gt hpos)]

end Painted

/-- The generator with other weights in its splat map. -/
def withWeights (m : MapGenerator α) (weights : ℕ → α) : MapGenerator α :=
  { m with splatMap := { m.splatMap with content := weights } }

/-- The weight that a tile got for a cell and a channel. -/
def StoresAlpha [Zero α] (m : MapGenerator α) (I : ℕ) (terr : UInt32) (i j a : ℕ) : Prop :=
  ∃ m', m.generate terr = some m' ∧
    m'.splatMapCopy.content
        ((j * m.data.singleMapSize.toNat + i) * m.data.splatCount.toNat + a)
      = (m.painter I).getAlpha
        (tileCell (m.edgeCount I) m.data.singleMapSize.toNat terr.toNat i j).1
        (tileCell (m.edgeCount I) m.data.singleMapSize.toNat terr.toNat i j).2 a

/-- What a tile gets for a cell and a channel. -/
theorem Painted.generate_eq (h : m.Painted I) (hterr : m.IsTile I terr) {i j a : ℕ}
    (hi : i < m.data.singleMapSize.toNat) (hj : j < m.data.singleMapSize.toNat)
    (ha : a < m.data.splatCount.toNat) :
    ∃ m' x y, m.generate terr = some m' ∧ x < worldSize I ∧ y < worldSize I ∧
      tileCell (m.edgeCount I) m.data.singleMapSize.toNat terr.toNat i j = (x, y) ∧
      m'.splatMapCopy.content
          ((j * m.data.singleMapSize.toNat + i) * m.data.splatCount.toNat + a)
        = m.splatMap.content
          ((x * m.data.singleMapSize.toNat + y) * m.data.splatCount.toNat + a) := by
  obtain ⟨world, hworld, hsize⟩ := h.worldMap
  obtain ⟨xIndex, yIndex, hindex, hxIndex, hyIndex⟩ := h.tileIndex_eq hterr.1
  obtain ⟨hx, hy⟩ := index_lt hterr.1 hterr.2
  rw [← hxIndex] at hx
  rw [← hyIndex] at hy
  obtain ⟨m', st, hgenerate, -, hcopy, -, hst⟩ :=
    generate_spec h.run hindex hworld (h.fits hx hy)
  obtain ⟨hwx, hwx_lt⟩ := h.toNat_coordinate hx hi
  obtain ⟨hwy, hwy_lt⟩ := h.toNat_coordinate hy hj
  obtain ⟨hdiv, hmod⟩ := div_mod_of_lt (a := j) hi
  obtain ⟨hcell, hchannel⟩ := div_mod_of_lt (a := j * m.data.singleMapSize.toNat + i) ha
  have hk : (j * m.data.singleMapSize.toNat + i) * m.data.splatCount.toNat + a
      < m.data.singleMapSize.toNat * m.data.singleMapSize.toNat * m.data.splatCount.toNat := by
    have hrow := Nat.mul_le_mul_right m.data.singleMapSize.toNat (Nat.succ_le_of_lt hj)
    rw [Nat.succ_mul] at hrow
    have hall := Nat.mul_le_mul_right m.data.splatCount.toNat
      (show j * m.data.singleMapSize.toNat + i + 1
        ≤ m.data.singleMapSize.toNat * m.data.singleMapSize.toNat by omega)
    rw [Nat.succ_mul] at hall
    omega
  refine ⟨m', _, _, hgenerate, hwx_lt, hwy_lt, ?_, ?_⟩
  · rw [tileCell, hxIndex, hyIndex]
  · rw [hcopy, hst.splats _ hk, splatSource, hcell, hchannel, hdiv, hmod,
      h.splatIndex_eq (by rw [hwx]; exact hwx_lt) (by rw [hwy]; exact hwy_lt) ha, hwx, hwy]

/-- **Weights come from the wrong place.**  Whatever was painted, a tile gets the
weight of its cell if and only if the cell is on the line `x = n * y` of the world,
with `n` tiles to its edge. -/
theorem copies_weight_iff [Zero α] [Nontrivial α] (h : m.Painted I) (hterr : m.IsTile I terr) {i j a : ℕ}
    (hi : i < m.data.singleMapSize.toNat) (hj : j < m.data.singleMapSize.toNat)
    (ha : a < m.data.splatCount.toNat) :
    (∀ weights, (m.withWeights weights).StoresAlpha I terr i j a) ↔
      (tileCell (m.edgeCount I) m.data.singleMapSize.toNat terr.toNat i j).1
        = m.edgeCount I * (tileCell (m.edgeCount I) m.data.singleMapSize.toNat terr.toNat i j).2 := by
  have hgenerate (weights : ℕ → α) :
      ∃ m' x y, (m.withWeights weights).generate terr = some m' ∧ x < worldSize I ∧
        y < worldSize I ∧
        tileCell (m.edgeCount I) m.data.singleMapSize.toNat terr.toNat i j = (x, y) ∧
        m'.splatMapCopy.content
            ((j * m.data.singleMapSize.toNat + i) * m.data.splatCount.toNat + a)
          = weights ((x * m.data.singleMapSize.toNat + y) * m.data.splatCount.toNat + a) :=
    Painted.generate_eq (m := m.withWeights weights)
      ⟨⟨h.run, h.worldMap, h.two_le, h.dvd, h.world_lt, h.splat_lt⟩, h.width_eq, h.map_lt⟩
      hterr hi hj ha
  constructor
  · intro hall
    obtain ⟨u, v, hne⟩ := exists_pair_ne α
    obtain ⟨-, x, y, -, hx, hy, hcell, -⟩ := hgenerate fun _ => u
    -- a splat map in which one weight differs from all others
    let weights : ℕ → α := fun k =>
      if k = (x * m.data.singleMapSize.toNat + y) * m.data.splatCount.toNat + a then u else v
    obtain ⟨m', x', y', hm', -, -, hcell', hcopy⟩ := hgenerate weights
    obtain ⟨rfl, rfl⟩ := Prod.mk.inj (hcell.symm.trans hcell')
    obtain ⟨m'', hm'', halpha⟩ := hall weights
    obtain rfl : m' = m'' := Option.some.inj (hm'.symm.trans hm'')
    have hsame : u = weights ((y * worldSize I + x) * m.data.splatCount.toNat + a) := by
      calc u = weights ((x * m.data.singleMapSize.toNat + y) * m.data.splatCount.toNat + a) :=
            (if_pos rfl).symm
        _ = _ := hcopy.symm
        _ = ((m.withWeights weights).painter I).getAlpha x y a := by
            have hread : _ = ((m.withWeights weights).painter I).getAlpha
              (tileCell (m.edgeCount I) m.data.singleMapSize.toNat terr.toNat i j).1
              (tileCell (m.edgeCount I) m.data.singleMapSize.toNat terr.toNat i j).2 a := halpha
            rw [hcell] at hread
            exact hread
        _ = _ := getAlpha_eq hx hy ha
    rw [hcell]
    refine (h.layouts_agree_iff ha).mp ?_
    by_contra hother
    exact hne (hsame.trans (if_neg (Ne.symm hother)))
  · intro hline weights
    obtain ⟨m', x, y, hm', hx, hy, hcell, hcopy⟩ := hgenerate weights
    rw [hcell] at hline
    refine ⟨m', hm', hcopy.trans ?_⟩
    show _ = ((m.withWeights weights).painter I).getAlpha
      (tileCell (m.edgeCount I) m.data.singleMapSize.toNat terr.toNat i j).1
      (tileCell (m.edgeCount I) m.data.singleMapSize.toNat terr.toNat i j).2 a
    rw [hcell]
    refine Eq.trans ?_ (getAlpha_eq (m := m.withWeights weights) hx hy ha).symm
    exact congrArg weights ((h.layouts_agree_iff ha).mpr hline)

theorem fourTiles_painted : fourTiles.Painted 1 :=
  ⟨⟨rfl, ⟨_, rfl, rfl⟩, by decide, by decide, by decide, by decide⟩, rfl, by decide⟩

/-- The second cell of the first row. -/
theorem copies_weight_iff_of_four :
    (∀ weights, (fourTiles.withWeights weights).StoresAlpha 1 1 1 0 0) ↔
      (tileCell (fourTiles.edgeCount 1) 3 1 1 0).1
        = fourTiles.edgeCount 1 * (tileCell (fourTiles.edgeCount 1) 3 1 1 0).2 :=
  copies_weight_iff fourTiles_painted ⟨by decide, by decide⟩ (by decide) (by decide) (by decide)

/-- That cell gets the weight painted for another one. -/
theorem stores_other_alpha : ¬ fourTiles.StoresAlpha 1 1 1 0 0 := by
  rintro ⟨m', hm', halpha⟩
  obtain ⟨m'', x, y, hm'', hx, hy, hcell, hcopy⟩ :=
    fourTiles_painted.generate_eq (show fourTiles.IsTile 1 1 from ⟨by decide, by decide⟩)
      (i := 1) (j := 0) (a := 0) (by decide) (by decide) (by decide)
  obtain rfl : m' = m'' := Option.some.inj (hm'.symm.trans hm'')
  obtain ⟨rfl, rfl⟩ := Prod.mk.inj hcell
  rw [hcopy] at halpha
  exact absurd halpha (by decide)

end MapGenerator

end PCGForUnity
