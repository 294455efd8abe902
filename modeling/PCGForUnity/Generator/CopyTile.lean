/-
PCGForUnity/Generator/CopyTile.lean

What the loops of `Generate` copy (`copyTerrain_spec`): if the tile is inside the world
map, the copying of it has a result, and

    heightMapCopy[k]  =  worldMapHeightMap[heightSource k]
    splatMapCopy[l]   =  splatMap[splatSource l]

for all `k` and `l` below the number of cells, and of weights, of a tile; nothing else is
written, and nothing is read that is not a source.

Design.  The loops do not compute the positions in the copies: `idx` and `splatIdx` count the
turns.  `Copied m f g k l` is therefore what has been done when the counters are `k` and `l`,
for any sources `f` and `g`, and one turn of the inner loop takes it on by one height and the
weights of one cell.  Indices are 32-bit numbers as in the code; `Fits` is what keeps them from
wrapping.
-/
import PCGForUnity.Generator.MapGenerator

namespace PCGForUnity

namespace MapGenerator

variable {α : Type}

/-- The index in the world map of the `k`-th height that is copied. -/
def heightSource (m : MapGenerator α) (size xIndex yIndex : UInt32) (k : ℕ) : ℕ :=
  let s := m.data.singleMapSize
  (getHeightMapIndexN (xIndex * (s - 1) + UInt32.ofNat (k % s.toNat))
    (yIndex * (s - 1) + UInt32.ofNat (k / s.toNat)) size).toNat

/-- The index in the splat map of the `l`-th weight that is copied. -/
def splatSource (m : MapGenerator α) (xIndex yIndex : UInt32) (l : ℕ) : ℕ :=
  let s := m.data.singleMapSize
  let c := m.data.splatCount
  (getSplatMapIndex (xIndex * (s - 1) + UInt32.ofNat (l / c.toNat % s.toNat))
    (yIndex * (s - 1) + UInt32.ofNat (l / c.toNat / s.toNat)) (UInt32.ofNat (l % c.toNat))
    m.data.splatWidth c).toNat

/-- The generator after some heights and weights were copied from where `f` and `g` say. -/
structure Copied (m : MapGenerator α) (f g : ℕ → ℕ) (k l : ℕ) (st : Copying α) : Prop where
  idx : st.idx.toNat = k
  splatIdx : st.splatIdx.toNat = l
  frame : st.toMapGenerator =
    { m with
      worldMapHeightMap := st.worldMapHeightMap
      splatMap := st.splatMap
      heightMapCopy := st.heightMapCopy
      splatMapCopy := st.splatMapCopy }
  heightMap : st.worldMapHeightMap.content = m.worldMapHeightMap.content
  splatMap : st.splatMap.content = m.splatMap.content
  heights : ∀ i, i < k → st.heightMapCopy.content i = m.worldMapHeightMap.content (f i)
  splats : ∀ i, i < l → st.splatMapCopy.content i = m.splatMap.content (g i)
  reads : st.worldMapHeightMap.reads = m.worldMapHeightMap.reads ++ (List.range k).map f
  writes : st.heightMapCopy.writes = m.heightMapCopy.writes ++ List.range k

variable {m : MapGenerator α} {f g : ℕ → ℕ} {k l : ℕ} {size wx wy a xIndex yIndex terr : UInt32}

theorem toNat_add_one {i : UInt32} {n : ℕ} (hi : i.toNat = n) (h : n + 1 < 2 ^ 32) :
    (i + 1).toNat = n + 1 := by
  rw [UInt32.toNat_add, hi]
  exact Nat.mod_eq_of_lt h

/-- Writing the next entry of an array whose first ones are known. -/
theorem content_write {b : Buffer α} {i : UInt32} {value : α} {t : ℕ → α} {n : ℕ}
    (hi : i.toNat = n) (hb : ∀ j, j < n → b.content j = t j) (hvalue : value = t n) :
    ∀ j, j < n + 1 → (b.write i value).content j = t j := by
  intro j hj
  show (if j = i.toNat then value else b.content j) = t j
  rw [hi]
  by_cases h : j = n
  · rw [if_pos h, h, hvalue]
  · rw [if_neg h]
    exact hb j (by omega)

theorem copyHeight_spec (hf : f k = (getHeightMapIndexN wx wy size).toNat) (hk : k + 1 < 2 ^ 32) :
    Triple (Copied m f g k l) (copyHeight size wx wy) fun _ => Copied m f g (k + 1) l := by
  refine Triple.modify _ fun st h => ?_
  have hvalue : st.worldMapHeightMap.content (getHeightMapIndexN wx wy size).toNat
      = m.worldMapHeightMap.content (f k) := by rw [hf, h.heightMap]
  exact { h with
    idx := toNat_add_one h.idx hk
    frame := by rw [h.frame]
    heights := content_write h.idx h.heights hvalue
    reads := by
      rw [List.range_succ, List.map_append, ← List.append_assoc, ← h.reads, List.map_singleton, hf]
      rfl
    writes := by
      rw [List.range_succ, ← List.append_assoc, ← h.writes, ← h.idx]
      rfl }

theorem copyAlpha_spec
    (hg : g l = (getSplatMapIndex wx wy a m.data.splatWidth m.data.splatCount).toNat)
    (hl : l + 1 < 2 ^ 32) :
    Triple (Copied m f g k l) (copyAlpha wx wy a) fun _ => Copied m f g k (l + 1) := by
  refine Triple.modify _ fun st h => ?_
  have hdata : st.data = m.data := by rw [h.frame]
  have hvalue : st.splatMap.content
      (getSplatMapIndex wx wy a st.data.splatWidth st.data.splatCount).toNat
      = m.splatMap.content (g l) := by rw [hg, h.splatMap, hdata]
  exact { h with
    splatIdx := toNat_add_one h.splatIdx hl
    frame := by rw [h.frame]
    splats := content_write h.splatIdx h.splats hvalue }

/-- The numbers of a row and of an entry of the row. -/
theorem div_mod_of_lt {a b n : ℕ} (h : b < n) : (a * n + b) / n = a ∧ (a * n + b) % n = b := by
  refine ⟨?_, Nat.mul_add_mod_of_lt h⟩
  rw [Nat.mul_comm, Nat.mul_add_div (by omega), Nat.div_eq_of_lt h, Nat.add_zero]

/-- The cell in column `i` and row `j` of a tile. -/
theorem copyCell_spec {i j : ℕ} (hi : i < m.data.singleMapSize.toNat)
    (hk : j * m.data.singleMapSize.toNat + i + 1 < 2 ^ 32)
    (hl : (j * m.data.singleMapSize.toNat + i + 1) * m.data.splatCount.toNat < 2 ^ 32) :
    Triple
      (Copied m (m.heightSource size xIndex yIndex) (m.splatSource xIndex yIndex)
        (j * m.data.singleMapSize.toNat + i)
        ((j * m.data.singleMapSize.toNat + i) * m.data.splatCount.toNat))
      (copyCell size (xIndex * (m.data.singleMapSize - 1) + UInt32.ofNat i)
        (yIndex * (m.data.singleMapSize - 1) + UInt32.ofNat j)) fun _ =>
      Copied m (m.heightSource size xIndex yIndex) (m.splatSource xIndex yIndex)
        (j * m.data.singleMapSize.toNat + i + 1)
        ((j * m.data.singleMapSize.toNat + i + 1) * m.data.splatCount.toNat) := by
  obtain ⟨hdiv, hmod⟩ := div_mod_of_lt (a := j) hi
  have hheight : m.heightSource size xIndex yIndex (j * m.data.singleMapSize.toNat + i)
      = (getHeightMapIndexN (xIndex * (m.data.singleMapSize - 1) + UInt32.ofNat i)
        (yIndex * (m.data.singleMapSize - 1) + UInt32.ofNat j) size).toNat := by
    rw [heightSource, hmod, hdiv]
  refine Triple.bind (copyHeight_spec hheight hk) fun _ => Triple.get_bind fun st hst => ?_
  have hdata : st.data = m.data := by rw [hst.frame]
  rw [hdata]
  rw [Nat.succ_mul] at hl ⊢
  refine Triple.forLoop_lt (fun a => Copied m _ _ _
    ((j * m.data.singleMapSize.toNat + i) * m.data.splatCount.toNat + a)) fun a ha => ?_
  refine copyAlpha_spec ?_ (by omega)
  obtain ⟨hcell, hchannel⟩ :=
    div_mod_of_lt (a := j * m.data.singleMapSize.toNat + i) ha
  rw [splatSource, hcell, hchannel, hmod, hdiv]

/-- The tile is inside a world map whose size is a number of 32 bits. -/
structure Fits (m : MapGenerator α) (xIndex yIndex : UInt32) : Prop where
  size_pos : 1 ≤ m.data.singleMapSize.toNat
  column_lt : (xIndex.toNat + 1) * (m.data.singleMapSize.toNat - 1) + 1 < 2 ^ 32
  row_lt : (yIndex.toNat + 1) * (m.data.singleMapSize.toNat - 1) + 1 < 2 ^ 32
  heights_lt : m.data.singleMapSize.toNat * m.data.singleMapSize.toNat < 2 ^ 32
  splats_lt : m.data.singleMapSize.toNat * m.data.singleMapSize.toNat *
    m.data.splatCount.toNat < 2 ^ 32

theorem toNat_sub_one {i : UInt32} (h : 1 ≤ i.toNat) : (i - 1).toNat = i.toNat - 1 :=
  UInt32.toNat_sub_of_le i 1 (UInt32.le_iff_toNat_le.mpr h)

/-- The first and the last column, or row, of a tile. -/
theorem toNat_bounds {i s : UInt32} (hs : 1 ≤ s.toNat)
    (h : (i.toNat + 1) * (s.toNat - 1) + 1 < 2 ^ 32) :
    (i * (s - 1)).toNat = i.toNat * (s.toNat - 1) ∧
      ((i + 1) * (s - 1)).toNat = i.toNat * (s.toNat - 1) + (s.toNat - 1) := by
  have hsub := toNat_sub_one hs
  have hsucc : (i.toNat + 1) * (s.toNat - 1) = i.toNat * (s.toNat - 1) + (s.toNat - 1) :=
    Nat.succ_mul _ _
  constructor
  · rw [UInt32.toNat_mul, hsub, Nat.mod_eq_of_lt (by omega)]
  · rw [UInt32.toNat_mul, UInt32.toNat_add, hsub, Nat.mod_mul_mod, ← hsucc]
    exact Nat.mod_eq_of_lt (Nat.lt_of_succ_lt h)

/-- The loops of `Generate`. -/
theorem copyTile_spec (h : m.Fits xIndex yIndex) :
    Triple (Copied m (m.heightSource size xIndex yIndex) (m.splatSource xIndex yIndex) 0 0)
      (copyTile size xIndex yIndex) fun _ =>
      Copied m (m.heightSource size xIndex yIndex) (m.splatSource xIndex yIndex)
        (m.data.singleMapSize.toNat * m.data.singleMapSize.toNat)
        (m.data.singleMapSize.toNat * m.data.singleMapSize.toNat * m.data.splatCount.toNat) := by
  refine Triple.get_bind fun st hst => ?_
  have hdata : st.data = m.data := by rw [hst.frame]
  rw [hdata]
  obtain ⟨hxmin, hxmax⟩ := toNat_bounds h.size_pos h.column_lt
  obtain ⟨hymin, hymax⟩ := toNat_bounds h.size_pos h.row_lt
  have hpos := h.size_pos
  have hcol := h.column_lt
  have hrow := h.row_lt
  rw [Nat.succ_mul] at hcol hrow
  have hmul {j : ℕ} (hj : j < m.data.singleMapSize.toNat) :
      (j + 1) * m.data.singleMapSize.toNat
        ≤ m.data.singleMapSize.toNat * m.data.singleMapSize.toNat :=
    Nat.mul_le_mul_right _ hj
  -- both counters go on row by row
  refine Triple.mono (Triple.forLoop_le (k := m.data.singleMapSize.toNat) (by omega) (by omega)
    (fun j => Copied m (m.heightSource size xIndex yIndex) (m.splatSource xIndex yIndex)
      (j * m.data.singleMapSize.toNat)
      (j * m.data.singleMapSize.toNat * m.data.splatCount.toNat)) fun j hj => ?_)
    (fun _ hm => ?_) fun _ _ hm => hm
  swap
  · rw [Nat.zero_mul, Nat.zero_mul]
    exact hm
  rw [Nat.succ_mul]
  refine Triple.forLoop_le (k := m.data.singleMapSize.toNat)
    (by omega) (by omega)
    (fun i => Copied m (m.heightSource size xIndex yIndex) (m.splatSource xIndex yIndex)
      (j * m.data.singleMapSize.toNat + i)
      ((j * m.data.singleMapSize.toNat + i) * m.data.splatCount.toNat)) fun i hi => ?_
  have hk := hmul hj
  rw [Nat.succ_mul] at hk
  refine copyCell_spec hi (by have := h.heights_lt; omega) ?_
  refine Nat.lt_of_le_of_lt (Nat.mul_le_mul_right _ ?_) h.splats_lt
  omega

/-- The part of `Generate` under the lock. -/
theorem copyTerrain_spec (terr : UInt32) {world map : Terrain} (hindex : m.tileIndex terr = some (xIndex, yIndex))
    (hworld : m.worldMap = some world) (hmap : m.currentMap = some map)
    (h : m.Fits xIndex yIndex) :
    ∃ st, m.copyTerrain terr = some { m with
        worldMapHeightMap := st.worldMapHeightMap
        splatMap := st.splatMap
        heightMapCopy := st.heightMapCopy
        splatMapCopy := st.splatMapCopy
        terrainData := m.insertTerrain terr map
        finishQueue := m.finishQueue ++ [terr] } ∧
      Copied m (m.heightSource world.size xIndex yIndex) (m.splatSource xIndex yIndex)
        (m.data.singleMapSize.toNat * m.data.singleMapSize.toNat)
        (m.data.singleMapSize.toNat * m.data.singleMapSize.toNat * m.data.splatCount.toNat)
        st := by
  have hstart : Copied m (m.heightSource world.size xIndex yIndex) (m.splatSource xIndex yIndex)
      0 0 { m with idx := 0, splatIdx := 0 } :=
    { idx := rfl
      splatIdx := rfl
      frame := rfl
      heightMap := rfl
      splatMap := rfl
      heights := fun _ hi => absurd hi (Nat.not_lt_zero _)
      splats := fun _ hi => absurd hi (Nat.not_lt_zero _)
      reads := (List.append_nil _).symm
      writes := (List.append_nil _).symm }
  obtain ⟨_, st, hrun, hst⟩ := copyTile_spec h _ hstart
  refine ⟨st, ?_, hst⟩
  simp only [copyTerrain, hindex, hworld, hmap, hrun, Option.bind_eq_bind, Option.bind_some]

/-- The terrain that is being generated. -/
def terrainAt (m : MapGenerator α) (terr xIndex yIndex : UInt32) : Terrain :=
  { instanceId := terr
    size := m.data.singleMapSize
    realWidth := m.data.singleMapSize
    position := (xIndex * m.data.singleMapSize, yIndex * m.data.singleMapSize) }

/-- A tile that is generated while nothing else runs. -/
theorem generate_spec {world : Terrain} (hrun : m.run = true)
    (hindex : m.tileIndex terr = some (xIndex, yIndex)) (hworld : m.worldMap = some world)
    (h : m.Fits xIndex yIndex) :
    ∃ m' st, m.generate terr = some m' ∧ m'.heightMapCopy = st.heightMapCopy ∧
      m'.splatMapCopy = st.splatMapCopy ∧ m'.worldMapHeightMap = st.worldMapHeightMap ∧
      Copied { m with
          currentTerrain := terr
          currentMap := some (m.terrainAt terr xIndex yIndex) }
        (m.heightSource world.size xIndex yIndex) (m.splatSource xIndex yIndex)
        (m.data.singleMapSize.toNat * m.data.singleMapSize.toNat)
        (m.data.singleMapSize.toNat * m.data.singleMapSize.toNat * m.data.splatCount.toNat)
        st := by
  obtain ⟨st, hcopy, hst⟩ := copyTerrain_spec terr
    (m := { m with currentTerrain := terr, currentMap := some (m.terrainAt terr xIndex yIndex) })
    hindex hworld rfl ⟨h.1, h.2, h.3, h.4, h.5⟩
  have hgenerate : m.generate terr = copyTerrain
      { m with currentTerrain := terr, currentMap := some (m.terrainAt terr xIndex yIndex) }
      terr := by
    have hgo : ¬ (!m.run) = true := by
      rw [hrun]
      exact Bool.false_ne_true
    rw [generate, beginTerrain, hindex]
    exact if_neg hgo
  exact ⟨_, st, hgenerate.trans hcopy, rfl, rfl, rfl, hst⟩

end MapGenerator

end PCGForUnity
