/-
PCGForUnity/Generator/HeightTiles.lean

The height tiles that `Generate` cuts from the world map (`cuts_tiles`).  If the world has
been made and tiles divide it, then every tile has a result and

* the tile `terr` has the heights of its part of the world, cell for cell, and reads no
  others;
* two tiles beside each other agree on the column they share, and two above each other on
  the row;
* every cell of the world is a cell of some tile.

Design.  `Tiled` is the state that the claim is about: the generator runs, the world map
is there, the edge of a tile divides that of the world, and the indices fit in 32 bits.
`tileCell` is the cell of the world that a cell of a tile stands for, told by quotient and
remainder of the id as in `Generate`; all three parts follow from what it is at the edges
of a tile, and from `CopyTile.copyTerrain_spec` for what the loops copy.
-/
import PCGForUnity.Generator.CopyTile
import Mathlib.Tactic.Ring

namespace PCGForUnity

/-- The world cell of a tile's entry in column `i` and row `j`, with `n` tiles to an
edge of the world and tiles of size `s`. -/
def tileCell (n s terr i j : ℕ) : ℕ × ℕ :=
  ((terr - 1) % n * (s - 1) + i, (terr - 1) / n * (s - 1) + j)

section

variable {n s terr i j x y : ℕ}

/-- The tile at some index of the world has that index. -/
theorem tileCell_of_index (hx : x < n) :
    tileCell n s (x + y * n + 1) i j = (x * (s - 1) + i, y * (s - 1) + j) := by
  have hmod : (x + y * n) % n = x := by rw [Nat.add_mul_mod_self_right, Nat.mod_eq_of_lt hx]
  have hdiv : (x + y * n) / n = y := by
    rw [Nat.add_mul_div_right _ _ (by omega), Nat.div_eq_of_lt hx, Nat.zero_add]
  rw [tileCell, Nat.add_sub_cancel, hmod, hdiv]

theorem index_lt (hterr : 1 ≤ terr) (hle : terr ≤ n * n) : (terr - 1) % n < n ∧ (terr - 1) / n < n := by
  have hn : 0 < n := Nat.pos_of_mul_pos_right (Nat.lt_of_lt_of_le hterr hle)
  exact ⟨Nat.mod_lt _ hn, Nat.div_lt_of_lt_mul (by omega)⟩

/-- A column, or a row, of a tile is one of the world. -/
theorem index_mul_add_le (hx : x < n) (hi : i < s) : x * (s - 1) + i ≤ n * (s - 1) := by
  have h := Nat.mul_le_mul_right (s - 1) (Nat.succ_le_of_lt hx)
  rw [Nat.succ_mul] at h
  omega

/-- A column of the world is one of a tile. -/
theorem exists_index (hn : 0 < n) (hs : 2 ≤ s) (hx : x ≤ n * (s - 1)) :
    ∃ q i, q < n ∧ i < s ∧ x = q * (s - 1) + i := by
  rcases Nat.lt_or_eq_of_le hx with hx | rfl
  · refine ⟨x / (s - 1), x % (s - 1), Nat.div_lt_of_lt_mul (by rwa [Nat.mul_comm]), ?_, ?_⟩
    · have := Nat.mod_lt x (show 0 < s - 1 by omega)
      omega
    · rw [Nat.mul_comm]
      exact (Nat.div_add_mod x (s - 1)).symm
  · refine ⟨n - 1, s - 1, by omega, by omega, ?_⟩
    have h := Nat.succ_mul (n - 1) (s - 1)
    rw [Nat.succ_eq_add_one, Nat.sub_add_cancel hn] at h
    exact h

end

namespace MapGenerator

variable {α : Type} {m m₁ m₂ : MapGenerator α} {terr : UInt32} {I : ℕ}

/-- The number of tiles to an edge of the world. -/
def edgeCount (m : MapGenerator α) (I : ℕ) : ℕ := worldSize I / (m.data.singleMapSize.toNat - 1)

/-- The height of a cell of the world. -/
def worldHeight (m : MapGenerator α) (I : ℕ) (c : ℕ × ℕ) : α :=
  m.worldMapHeightMap.content (c.1 + c.2 * worldSize I)

/-- A generator that runs and has made the world map, which tiles divide. -/
structure Tiled (m : MapGenerator α) (I : ℕ) : Prop where
  run : m.run = true
  worldMap : ∃ world, m.worldMap = some world ∧ world.size.toNat = worldSize I
  two_le : 2 ≤ m.data.singleMapSize.toNat - 1
  dvd : m.data.singleMapSize.toNat - 1 ∣ 2 ^ (2 * I)
  world_lt : worldSize I * worldSize I < 2 ^ 32
  splat_lt : m.data.singleMapSize.toNat * m.data.singleMapSize.toNat *
    m.data.splatCount.toNat < 2 ^ 32

/-- A tile's id. -/
def IsTile (m : MapGenerator α) (I : ℕ) (terr : UInt32) : Prop :=
  1 ≤ terr.toNat ∧ terr.toNat ≤ m.edgeCount I * m.edgeCount I

/-- A tile is the part of the world at its index: heights are read inside the world
map, and the entries of the copy are written in order and no others. -/
def CopiesTile (m : MapGenerator α) (I : ℕ) (terr : UInt32) (m' : MapGenerator α) : Prop :=
  (∃ reads, m'.worldMapHeightMap.reads = m.worldMapHeightMap.reads ++ reads ∧
    ∀ i ∈ reads, i < worldSize I * worldSize I) ∧
  m'.heightMapCopy.writes = m.heightMapCopy.writes ++
    List.range (m.data.singleMapSize.toNat * m.data.singleMapSize.toNat) ∧
  ∀ i j, i < m.data.singleMapSize.toNat → j < m.data.singleMapSize.toNat →
    m'.heightMapCopy.content (i + j * m.data.singleMapSize.toNat)
      = m.worldHeight I (tileCell (m.edgeCount I) m.data.singleMapSize.toNat terr.toNat i j)

/-- Every tile is cut out as it should be, and the tiles fit together. -/
structure CutsTiles (m : MapGenerator α) (I : ℕ) : Prop where
  copies : ∀ terr, m.IsTile I terr → ∃ m', m.generate terr = some m' ∧ m.CopiesTile I terr m'
  beside : ∀ t t' m₁ m₂, m.IsTile I t → m.IsTile I t' →
    m.generate t = some m₁ → m.generate t' = some m₂ →
    (t'.toNat - 1) % m.edgeCount I = (t.toNat - 1) % m.edgeCount I + 1 →
    (t'.toNat - 1) / m.edgeCount I = (t.toNat - 1) / m.edgeCount I →
    ∀ j, j < m.data.singleMapSize.toNat →
      m₁.heightMapCopy.content (m.data.singleMapSize.toNat - 1 + j * m.data.singleMapSize.toNat)
        = m₂.heightMapCopy.content (0 + j * m.data.singleMapSize.toNat)
  above : ∀ t t' m₁ m₂, m.IsTile I t → m.IsTile I t' →
    m.generate t = some m₁ → m.generate t' = some m₂ →
    (t'.toNat - 1) % m.edgeCount I = (t.toNat - 1) % m.edgeCount I →
    (t'.toNat - 1) / m.edgeCount I = (t.toNat - 1) / m.edgeCount I + 1 →
    ∀ i, i < m.data.singleMapSize.toNat →
      m₁.heightMapCopy.content
          (i + (m.data.singleMapSize.toNat - 1) * m.data.singleMapSize.toNat)
        = m₂.heightMapCopy.content (i + 0 * m.data.singleMapSize.toNat)
  covers : ∀ x y, x < worldSize I → y < worldSize I → ∃ (terr : UInt32) (i j : ℕ),
    m.IsTile I terr ∧ i < m.data.singleMapSize.toNat ∧ j < m.data.singleMapSize.toNat ∧
      tileCell (m.edgeCount I) m.data.singleMapSize.toNat terr.toNat i j = (x, y)

namespace Tiled

theorem worldSize_eq (h : m.Tiled I) :
    worldSize I = m.edgeCount I * (m.data.singleMapSize.toNat - 1) + 1 := by
  obtain ⟨n, hn⟩ := h.dvd
  have htwo := h.two_le
  have hcount : m.edgeCount I = n := by
    rw [edgeCount, worldSize, hn, Nat.mul_add_div (by omega), Nat.div_eq_of_lt (by omega),
      Nat.add_zero]
  rw [hcount, worldSize, hn, Nat.mul_comm]

theorem edgeCount_pos (h : m.Tiled I) : 0 < m.edgeCount I := by
  have htwo := h.two_le
  have hsize := h.worldSize_eq
  have hpow : 0 < 2 ^ (2 * I) := Nat.two_pow_pos _
  rw [worldSize] at hsize
  by_contra hzero
  rw [Nat.eq_zero_of_not_pos hzero, Nat.zero_mul] at hsize
  omega

theorem worldSize_lt (h : m.Tiled I) : worldSize I < 2 ^ 32 :=
  Nat.lt_of_le_of_lt (Nat.le_mul_self _) h.world_lt

/-- A tile is no larger than the world. -/
theorem singleMapSize_le (h : m.Tiled I) : m.data.singleMapSize.toNat ≤ worldSize I := by
  have hle := Nat.mul_le_mul_right (m.data.singleMapSize.toNat - 1) h.edgeCount_pos
  rw [h.worldSize_eq]
  omega

/-- `x_index` and `y_index` -/
theorem tileIndex_eq (h : m.Tiled I) (hterr : 1 ≤ terr.toNat) :
    ∃ xIndex yIndex, m.tileIndex terr = some (xIndex, yIndex) ∧
      xIndex.toNat = (terr.toNat - 1) % m.edgeCount I ∧
      yIndex.toNat = (terr.toNat - 1) / m.edgeCount I := by
  obtain ⟨world, hworld, hsize⟩ := h.worldMap
  have htwo := h.two_le
  have hsingle := toNat_sub_one (show 1 ≤ m.data.singleMapSize.toNat by omega)
  have hone := toNat_sub_one hterr
  have hcount : (world.size / (m.data.singleMapSize - 1)).toNat = m.edgeCount I := by
    rw [UInt32.toNat_div, hsize, hsingle, edgeCount]
  have hsingle₀ : ¬ m.data.singleMapSize - 1 = 0 := by
    intro hzero
    rw [hzero] at hsingle
    exact absurd hsingle (by rw [UInt32.toNat_zero]; omega)
  have hcount₀ : ¬ world.size / (m.data.singleMapSize - 1) = 0 := by
    intro hzero
    rw [hzero] at hcount
    exact absurd hcount (Nat.ne_of_lt h.edgeCount_pos)
  refine ⟨(terr - 1) % (world.size / (m.data.singleMapSize - 1)),
    (terr - 1) / (world.size / (m.data.singleMapSize - 1)), ?_, ?_, ?_⟩
  · simp only [tileIndex, mapCountPerEdge, hworld, Option.bind_eq_bind, Option.bind_some,
      if_neg hsingle₀, if_neg hcount₀]
  · rw [UInt32.toNat_mod, hone, hcount]
  · rw [UInt32.toNat_div, hone, hcount]

theorem fits (h : m.Tiled I) {xIndex yIndex : UInt32} (hx : xIndex.toNat < m.edgeCount I)
    (hy : yIndex.toNat < m.edgeCount I) : m.Fits xIndex yIndex := by
  have hsize := h.worldSize_eq
  have hlt := h.worldSize_lt
  refine ⟨?_, ?_, ?_, ?_, h.splat_lt⟩
  · have := h.two_le
    omega
  · have := Nat.mul_le_mul_right (m.data.singleMapSize.toNat - 1)
      (show xIndex.toNat + 1 ≤ m.edgeCount I from hx)
    omega
  · have := Nat.mul_le_mul_right (m.data.singleMapSize.toNat - 1)
      (show yIndex.toNat + 1 ≤ m.edgeCount I from hy)
    omega
  · exact Nat.lt_of_le_of_lt (Nat.mul_le_mul h.singleMapSize_le h.singleMapSize_le) h.world_lt

/-- The number of a column, or a row, of the world. -/
theorem toNat_coordinate (h : m.Tiled I) {index : UInt32} {k : ℕ}
    (hindex : index.toNat < m.edgeCount I) (hk : k < m.data.singleMapSize.toNat) :
    (index * (m.data.singleMapSize - 1) + UInt32.ofNat k).toNat
        = index.toNat * (m.data.singleMapSize.toNat - 1) + k ∧
      index.toNat * (m.data.singleMapSize.toNat - 1) + k < worldSize I := by
  have hle := index_mul_add_le hindex hk
  have hsize := h.worldSize_eq
  have hlt := h.worldSize_lt
  have hfits := h.fits hindex hindex
  obtain ⟨hmin, -⟩ := toNat_bounds hfits.size_pos hfits.column_lt
  refine ⟨?_, by omega⟩
  rw [Triple.toNat_add_ofNat (by omega), hmin]

/-- A height is copied from its cell, which is one of the world. -/
theorem heightSource_eq (h : m.Tiled I) {xIndex yIndex size : UInt32} {i j : ℕ}
    (hx : xIndex.toNat < m.edgeCount I) (hy : yIndex.toNat < m.edgeCount I)
    (hsize : size.toNat = worldSize I) (hi : i < m.data.singleMapSize.toNat)
    (hj : j < m.data.singleMapSize.toNat) :
    m.heightSource size xIndex yIndex (i + j * m.data.singleMapSize.toNat)
        = xIndex.toNat * (m.data.singleMapSize.toNat - 1) + i
          + (yIndex.toNat * (m.data.singleMapSize.toNat - 1) + j) * worldSize I ∧
      xIndex.toNat * (m.data.singleMapSize.toNat - 1) + i
          + (yIndex.toNat * (m.data.singleMapSize.toNat - 1) + j) * worldSize I
        < worldSize I * worldSize I := by
  obtain ⟨hwx, hwx_lt⟩ := h.toNat_coordinate hx hi
  obtain ⟨hwy, hwy_lt⟩ := h.toNat_coordinate hy hj
  obtain ⟨hdiv, hmod⟩ := div_mod_of_lt (a := j) hi
  have hlt := Nat.mul_le_mul_right (worldSize I) (Nat.succ_le_of_lt hwy_lt)
  rw [Nat.succ_mul] at hlt
  have hworld := h.world_lt
  refine ⟨?_, by omega⟩
  rw [heightSource, Nat.add_comm i, hdiv, hmod, getHeightMapIndexN, UInt32.toNat_add,
    UInt32.toNat_mul, hwx, hwy, hsize, Nat.add_mod_mod]
  exact Nat.mod_eq_of_lt (by omega)

/-- What generating a tile does. -/
theorem copiesTile (h : m.Tiled I) (hterr : m.IsTile I terr) :
    ∃ m', m.generate terr = some m' ∧ m.CopiesTile I terr m' := by
  obtain ⟨hterr, hle⟩ := hterr
  obtain ⟨world, hworld, hsize⟩ := h.worldMap
  obtain ⟨xIndex, yIndex, hindex, hxIndex, hyIndex⟩ := h.tileIndex_eq hterr
  obtain ⟨hx, hy⟩ := index_lt hterr hle
  rw [← hxIndex] at hx
  rw [← hyIndex] at hy
  obtain ⟨m', st, hgenerate, hcopy, -, hworldMap, hst⟩ :=
    generate_spec h.run hindex hworld (h.fits hx hy)
  have hreads := hst.reads
  rw [← hworldMap] at hreads
  refine ⟨m', hgenerate, ⟨_, hreads, fun i hi => ?_⟩, ?_, fun i j hi hj => ?_⟩
  · obtain ⟨k, hk, rfl⟩ := List.mem_map.mp hi
    rw [List.mem_range] at hk
    have hpos : 0 < m.data.singleMapSize.toNat := Nat.pos_of_mul_pos_right (Nat.zero_lt_of_lt hk)
    obtain ⟨hsource, hlt⟩ := h.heightSource_eq hx hy hsize (Nat.mod_lt k hpos)
      (Nat.div_lt_of_lt_mul hk)
    rw [Nat.mod_add_div'] at hsource
    rw [hsource]
    exact hlt
  · rw [hcopy]
    exact hst.writes
  · have hk : i + j * m.data.singleMapSize.toNat
        < m.data.singleMapSize.toNat * m.data.singleMapSize.toNat := by
      have := Nat.mul_le_mul_right m.data.singleMapSize.toNat (Nat.succ_le_of_lt hj)
      rw [Nat.succ_mul] at this
      omega
    rw [hcopy, hst.heights _ hk, (h.heightSource_eq hx hy hsize hi hj).1, worldHeight, tileCell,
      hxIndex, hyIndex]

end Tiled

/-- **Tiles are exact and seamless.**  Every tile has the heights of its part of the
world; two tiles beside or above each other agree on the edge they share; and every
cell of the world is in some tile. -/
theorem cuts_tiles (h : m.Tiled I) : m.CutsTiles I := by
  have hs : 2 ≤ m.data.singleMapSize.toNat := by
    have := h.two_le
    omega
  refine ⟨fun terr hterr => h.copiesTile hterr, ?_, ?_, fun x y hx hy => ?_⟩
  · -- beside each other: the last column of one is the first of the next
    intro t t' m₁ m₂ ht ht' h₁ h₂ hx hy j hj
    obtain ⟨m₁', hm₁, -, -, hcopy₁⟩ := h.copiesTile ht
    obtain ⟨m₂', hm₂, -, -, hcopy₂⟩ := h.copiesTile ht'
    obtain rfl : m₁' = m₁ := Option.some.inj (hm₁.symm.trans h₁)
    obtain rfl : m₂' = m₂ := Option.some.inj (hm₂.symm.trans h₂)
    rw [hcopy₁ _ _ (by omega) hj, hcopy₂ _ _ (by omega) hj, tileCell, tileCell, hx, hy,
      Nat.succ_mul]
    rfl
  · -- above each other
    intro t t' m₁ m₂ ht ht' h₁ h₂ hx hy i hi
    obtain ⟨m₁', hm₁, -, -, hcopy₁⟩ := h.copiesTile ht
    obtain ⟨m₂', hm₂, -, -, hcopy₂⟩ := h.copiesTile ht'
    obtain rfl : m₁' = m₁ := Option.some.inj (hm₁.symm.trans h₁)
    obtain rfl : m₂' = m₂ := Option.some.inj (hm₂.symm.trans h₂)
    rw [hcopy₁ _ _ hi (by omega), hcopy₂ _ _ hi (by omega), tileCell, tileCell, hx, hy,
      Nat.succ_mul]
    rfl
  · rw [h.worldSize_eq] at hx hy
    obtain ⟨q, i, hq, hi, rfl⟩ := exists_index h.edgeCount_pos hs (Nat.le_of_lt_succ hx)
    obtain ⟨r, j, hr, hj, rfl⟩ := exists_index h.edgeCount_pos hs (Nat.le_of_lt_succ hy)
    have hle : q + r * m.edgeCount I + 1 ≤ m.edgeCount I * m.edgeCount I := by
      have := Nat.mul_le_mul_right (m.edgeCount I) (Nat.succ_le_of_lt hr)
      rw [Nat.succ_mul] at this
      omega
    have hcount : m.edgeCount I ≤ worldSize I := Nat.div_le_self _ _
    have hlt : q + r * m.edgeCount I + 1 < 2 ^ 32 :=
      Nat.lt_of_le_of_lt hle (Nat.lt_of_le_of_lt (Nat.mul_le_mul hcount hcount) h.world_lt)
    refine ⟨UInt32.ofNat (q + r * m.edgeCount I + 1), i, j, ?_, hi, hj, ?_⟩
    · rw [IsTile, Triple.toNat_ofNat hlt]
      omega
    · rw [Triple.toNat_ofNat hlt, tileCell_of_index hq]

/-- A world of 5 × 5 cells for four tiles, with a height that tells a cell. -/
def fourTiles : MapGenerator ℕ :=
  { data := { I := 1, singleMapSize := 3, splatWidth := 3, splatCount := 2 }
    terrainData := []
    finishQueue := []
    worldMap := some (.new 0xffffffff 5)
    currentMap := none
    worldMapHeightMap := { content := id, reads := [], writes := [] }
    splatMap := { content := id, reads := [], writes := [] }
    heightMapCopy := { content := fun _ => 0, reads := [], writes := [] }
    splatMapCopy := { content := fun _ => 0, reads := [], writes := [] }
    currentTerrain := 0
    run := true
    totalMapCount := 4 }

theorem cuts_tiles_of_four : fourTiles.CutsTiles 1 :=
  cuts_tiles ⟨rfl, ⟨_, rfl, rfl⟩, by decide, by decide, by decide, by decide⟩

end MapGenerator

end PCGForUnity
