/-
PCGForUnity/Generator/MapGenerator.lean

`MapGenerator`, as far as it cuts tiles from the world map: `Generate`, with what it takes
from `Init` and from `Terrain`.

Design.  A buffer has a value behind every index, allocated or not, and logs the indices that
are read and written; so results can say which cells a tile is copied from, and that no other
was touched.  Indices are `UInt32`s, and wrap as in the code, but for the one product of `int`s
in `Init`, which has no result if it overflows.

The position of a terrain is kept as the integers it is converted from.  A division by zero,
for tiles whose edge has no length, has no result.

Left out: the directory, `LoadFromNative`, which loads nothing, and the heights of neighbours,
which nothing that is called asks for.  What the two threads do with all this is in
`TileHandOff`.
-/
import PCGForUnity.Generator.Generator
import PCGForUnity.Lib.Loop

namespace PCGForUnity

/-- `GetSplatMapIndex`, over the integers of its arguments. -/
def getSplatMapIndex {ι : Type} [Add ι] [Mul ι] (x y z size sizeAlpha : ι) : ι :=
  (x * size + y) * sizeAlpha + z

/-- `GetHeightMapIndexN`. -/
def getHeightMapIndexN (x y n : UInt32) : UInt32 := x + y * n

/-- An array of `float`, with the indices read and written so far. -/
structure Buffer (α : Type) where
  content : ℕ → α
  reads : List ℕ
  writes : List ℕ

namespace Buffer

variable {α : Type}

/-- A read of the cell `i`. -/
def read (b : Buffer α) (i : UInt32) : α × Buffer α :=
  (b.content i.toNat, { b with reads := b.reads ++ [i.toNat] })

/-- A write to the cell `i`. -/
def write (b : Buffer α) (i : UInt32) (value : α) : Buffer α :=
  { b with
    content := fun j => if j = i.toNat then value else b.content j
    writes := b.writes ++ [i.toNat] }

end Buffer

/-- The members of `MapGeneratorData` that are used here. -/
structure MapGeneratorData where
  I : ℕ
  singleMapSize : UInt32
  splatWidth : UInt32
  splatCount : UInt32
deriving DecidableEq, Repr

/-- The members of `Terrain` that are used here. -/
structure Terrain where
  instanceId : UInt32
  size : UInt32
  realWidth : UInt32
  position : UInt32 × UInt32
deriving DecidableEq, Repr

/-- The constructor, with the position that is set later. -/
def Terrain.new (ins heightMapSize : UInt32) : Terrain :=
  { instanceId := ins, size := heightMapSize, realWidth := heightMapSize, position := (0, 0) }

/-- The members of `MapGenerator`; `terrainData` are the entries of the map. -/
structure MapGenerator (α : Type) where
  data : MapGeneratorData
  terrainData : List (UInt32 × Terrain)
  finishQueue : List UInt32
  worldMap : Option Terrain
  currentMap : Option Terrain
  worldMapHeightMap : Buffer α
  splatMap : Buffer α
  heightMapCopy : Buffer α
  splatMapCopy : Buffer α
  currentTerrain : UInt32
  run : Bool
  totalMapCount : UInt32

namespace MapGenerator

variable {α : Type}

/-- `GetSquareSize` of a generator that was initialised for the world map. -/
def worldSize (I : ℕ) : ℕ := 2 ^ (2 * I) + 1

/-- The constructor; the arrays are those that `Init` allocates, with any values. -/
def create (worldMapHeightMap splatMap heightMapCopy splatMapCopy : Buffer α) : MapGenerator α :=
  { data := { I := 0, singleMapSize := 0, splatWidth := 0, splatCount := 0 }
    terrainData := []
    finishQueue := []
    worldMap := none
    currentMap := none
    worldMapHeightMap
    splatMap
    heightMapCopy
    splatMapCopy
    currentTerrain := 0
    run := false
    totalMapCount := 0 }

/-- `Init` -/
def init (m : MapGenerator α) (data : MapGeneratorData) : Option (MapGenerator α) :=
  if data.singleMapSize - 1 = 0 then none
  else
    let singleSize := UInt32.ofNat (worldSize data.I) / (data.singleMapSize - 1)
    -- the product is one of `int`s, and there is none if it overflows
    if singleSize.toNat * singleSize.toNat < 2 ^ 31 then
      some { m with data, totalMapCount := singleSize * singleSize }
    else none

/-- `GenWorldMap`, with what it makes of the two world maps. -/
def genWorldMap (m : MapGenerator α) (heights splats : ℕ → α) : MapGenerator α :=
  { m with
    worldMap := some (.new 0xffffffff (UInt32.ofNat (worldSize m.data.I)))
    worldMapHeightMap := { m.worldMapHeightMap with content := heights }
    splatMap := { m.splatMap with content := splats } }

/-- `InitTerrainInMainThread`: what it copies to the arrays it is given, if their
sizes are right. -/
def initTerrainInMainThread (m : MapGenerator α) (terrain heightMapSize splatWidth
    splatCount : UInt32) : Option (List α × List α) :=
  if heightMapSize ≠ m.data.singleMapSize ∨ splatWidth ≠ m.data.splatWidth ∨
      splatCount ≠ m.data.splatCount then none
  else
    match m.terrainData.find? fun entry => entry.1 = terrain with
    | some (_, map) =>
        if map.instanceId ≠ terrain then none
        else
          some ((List.range (m.data.singleMapSize * m.data.singleMapSize).toNat).map
              m.heightMapCopy.content,
            (List.range (m.data.splatWidth * m.data.splatWidth * m.data.splatCount).toNat).map
              m.splatMapCopy.content)
    | none => none

/-- `InitilizeNext` -/
def initilizeNext (m : MapGenerator α) : UInt32 := UInt32.ofNat m.terrainData.length + 1

/-- `std::map::insert`: an entry that is there stays. -/
def insertTerrain (m : MapGenerator α) (terr : UInt32) (map : Terrain) : List (UInt32 × Terrain) :=
  if m.terrainData.any fun entry => entry.1 = terr then m.terrainData
  else m.terrainData ++ [(terr, map)]

/-- `mapCountPerEdge`; there is none if an edge of a tile has no length. -/
def mapCountPerEdge (m : MapGenerator α) : Option UInt32 := do
  let world ← m.worldMap
  if m.data.singleMapSize - 1 = 0 then none
  else some (world.size / (m.data.singleMapSize - 1))

/-- `x_index` and `y_index` -/
def tileIndex (m : MapGenerator α) (terr : UInt32) : Option (UInt32 × UInt32) := do
  let mapIndex := terr - 1
  let mapCountPerEdge ← m.mapCountPerEdge
  if mapCountPerEdge = 0 then none
  else some (mapIndex % mapCountPerEdge, mapIndex / mapCountPerEdge)

/-- The part of `Generate` before the lock is taken. -/
def beginTerrain (m : MapGenerator α) (terr : UInt32) : Option (MapGenerator α) := do
  let (xIndex, yIndex) ← m.tileIndex terr
  let map := Terrain.new terr m.data.singleMapSize
  let position := (xIndex * map.realWidth, yIndex * map.realWidth)
  some { m with currentTerrain := terr, currentMap := some { map with position } }

/-- The generator in the loops of `Generate`, with their counters. -/
structure Copying (α : Type) extends MapGenerator α where
  idx : UInt32
  splatIdx : UInt32

/-- The innermost statement. -/
def copyAlpha (wx wy a : UInt32) : StateT (Copying α) Option Unit :=
  modify fun m =>
    let index := getSplatMapIndex wx wy a m.data.splatWidth m.data.splatCount
    let (value, splatMap) := m.splatMap.read index
    { m with splatMap, splatMapCopy := m.splatMapCopy.write m.splatIdx value,
             splatIdx := m.splatIdx + 1 }

/-- The copying of a cell's height. -/
def copyHeight (size wx wy : UInt32) : StateT (Copying α) Option Unit :=
  modify fun m =>
    let (value, worldMapHeightMap) := m.worldMapHeightMap.read (getHeightMapIndexN wx wy size)
    { m with worldMapHeightMap, heightMapCopy := m.heightMapCopy.write m.idx value,
             idx := m.idx + 1 }

/-- The body of the inner loop of `Generate`: the height, then all channels. -/
def copyCell (size wx wy : UInt32) : StateT (Copying α) Option Unit := do
  copyHeight size wx wy
  let m ← get
  forLoop (fun a => decide (a < m.data.splatCount)) (· + 1) (copyAlpha wx wy) 0

/-- The loops of `Generate`. -/
def copyTile (size xIndex yIndex : UInt32) : StateT (Copying α) Option Unit := do
  let m ← get
  let singleMax := m.data.singleMapSize - 1
  let wxMin := xIndex * singleMax
  let wxMax := (xIndex + 1) * singleMax
  let wyMin := yIndex * singleMax
  let wyMax := (yIndex + 1) * singleMax
  forLoop (fun wy => decide (wy ≤ wyMax)) (· + 1) (fun wy =>
    forLoop (fun wx => decide (wx ≤ wxMax)) (· + 1) (fun wx => copyCell size wx wy) wxMin) wyMin

/-- The part of `Generate` under the lock. -/
def copyTerrain (m : MapGenerator α) (terr : UInt32) : Option (MapGenerator α) := do
  let (xIndex, yIndex) ← m.tileIndex terr
  let world ← m.worldMap
  let map ← m.currentMap
  let (_, copied) ← (copyTile world.size xIndex yIndex).run { m with idx := 0, splatIdx := 0 }
  some { m with
    worldMapHeightMap := copied.worldMapHeightMap
    splatMap := copied.splatMap
    heightMapCopy := copied.heightMapCopy
    splatMapCopy := copied.splatMapCopy
    terrainData := m.insertTerrain terr map
    finishQueue := m.finishQueue ++ [terr] }

/-- `Generate`, while nothing else runs. -/
def generate (m : MapGenerator α) (terr : UInt32) : Option (MapGenerator α) := do
  let m ← m.beginTerrain terr
  if !m.run then some m
  else m.copyTerrain terr

end MapGenerator

end PCGForUnity
