/-
PCGForUnity/Generator/DiamondSquare.lean

The diamond-square generator (`Diamond_Square.h`, `Diamond_Square.cpp`).

Design.  The height map is memory that the caller allocated: reading a cell outside it, or one
that was not set, has no result, and neither has reading a point of the buffer of `Diamond`
before it is set.  A work state logs the cells read, as they were asked for, and the cells that
`Square` and `Diamond` were called for, when the call is over.

Numbers are of any type with the operations of `float`, and random values are those of any
sequence (`Generator`).  Loops are the least fixed points of `Lib/Loop`, with the bounds and
steps of the source.  `PerlinNoise::noise`, the weight map and the callback that asks for the
heights of a neighbour are parameters of a run.

The log of the program, the callback that reports the progress, `m_nFlushDepth`, which nothing
reads, and `return_if_exit` are left out: a run is one that is not stopped.
-/
import PCGForUnity.Generator.Generator
import PCGForUnity.Lib.Loop
import PCGForUnity.Lib.VisitLog

namespace PCGForUnity

/-- The members of `Diamond_Square`. -/
structure DiamondSquare (F : Type) where
  owner : UInt32
  heightMap : ℤ → Option F
  cbGetNeighborHeight : ℤ → ℤ → NeighborType → UInt32 → Option F
  weightMap : ℤ → Option F
  size : ℤ
  H : F
  max : ℤ
  deltaSize : F
  isFinished : Bool
  edgeExtended : Bool

namespace DiamondSquare

variable {F : Type}

/-- `Initilize`; the seed only tells which values `std::rand()` returns. -/
def initilize [FloatOps F] (m : DiamondSquare F) (owner : UInt32) (I : ℕ) (H : F)
    (heightMap : ℤ → Option F) : DiamondSquare F :=
  let size : ℤ := 2 ^ (2 * I) + 1
  { m with
    H := H / FloatOps.ofRat 100
    isFinished := false
    heightMap
    size
    max := size - 1
    owner }

/-- The generator at work. -/
structure Work (F : Type) extends DiamondSquare F where
  rand : Rand
  log : List (Access (ℤ × ℤ))

/-- A generator that is about to work. -/
def start (m : DiamondSquare F) (rand : Rand) : Work F := { m with rand, log := [] }

/-- What the thread runs in: `none` is a read of what was never written. -/
abbrev M (F : Type) := StateT (Work F) Option

/-! ### Heights -/

/-- `GetHeight`, which clamps the position. -/
def getHeight (x y : ℤ) : M F F := do
  let m ← get
  let x' := generatorClamp (fun a b => decide (a < b)) x 0 m.max
  let y' := generatorClamp (fun a b => decide (a < b)) y 0 m.max
  modify fun m => { m with log := m.log ++ [.read (x, y)] }
  m.heightMap (getHeightMapIndex x' y' m.size)

/-- `SetHeight`, which does not. -/
def setHeight (x y : ℤ) (val : F) : M F Unit :=
  modify fun m =>
    { m with
      heightMap := fun i => if i = getHeightMapIndex x y m.size then some val else m.heightMap i }

/-- `GetWeightMapHeight`. -/
def getWeightMapHeight (x y : ℤ) : M F (Option F) := do
  let m ← get
  pure (m.weightMap (getHeightMapIndex x y m.size))

/-- `GetHeightOnWorldMap`. -/
def getHeightOnWorldMap (x y : ℤ) (neighbor : NeighborType) : M F (Option F) := do
  let m ← get
  if m.edgeExtended then
    pure (m.cbGetNeighborHeight x y neighbor m.owner)
  else
    pure none

/-- `_irandom` -/
def irandom (min max : ℤ) : M F ℤ :=
  modifyGet fun m => ((m.rand.irandom min max).1, { m with rand := (m.rand.irandom min max).2 })

/-- `Randomize`. -/
def randomize [FloatOps F] (h : F) : M F F :=
  modifyGet fun m => ((m.rand.frandomF (-h) h).1, { m with rand := (m.rand.frandomF (-h) h).2 })

/-- The weight map's height for a cell, which is asked for only if an edge was extended. -/
def extendedHeight (x y : ℤ) : M F (Option F) := do
  let m ← get
  if m.edgeExtended then
    getWeightMapHeight x y
  else
    pure none

/-! ### `Square` and `Diamond` -/

/-- `Square` -/
def square [FloatOps F] (x y size : ℤ) (h : F) : M F Unit := do
  match ← extendedHeight x y with
  | some height => setHeight x y height
  | none =>
      let p₀ ← getHeight (x - size) (y - size)
      let p₁ ← getHeight (x + size) (y - size)
      let p₂ ← getHeight (x - size) (y + size)
      let p₃ ← getHeight (x + size) (y + size)
      let p := (p₀ + p₁ + p₂ + p₃) / FloatOps.ofRat 4
      let p := match ← extendedHeight x y with
        | some height => (p + height) / FloatOps.ofRat 2
        | none => p
      setHeight x y (p + h * p)

/-- `m_aPointBuffer`, of which nothing is set at first. -/
abbrev PointBuffer (F : Type) := ℤ → Option F

namespace PointBuffer

/-- The buffer of points as it is declared. -/
def uninitialised : PointBuffer F := fun _ => none

/-- `points[i] = height` -/
def set (p : PointBuffer F) (i : ℤ) (height : F) : PointBuffer F :=
  fun j => if j = i then some height else p j

/-- `p[i]`. -/
def read (p : PointBuffer F) (i : ℤ) : M F F := liftM (p i)

end PointBuffer

/-- The four points around a cell.  The one behind an edge is that of the
neighbouring map, or one of the others. -/
def diamondPoints (x y size : ℤ) : M F (PointBuffer F) := do
  let m ← get
  let p : PointBuffer F := .uninitialised
  if x - size < 0 then
    let p := p.set 1 (← getHeight x (y - size))
    let p := p.set 2 (← getHeight size y)
    let p := p.set 3 (← getHeight x (y + size))
    match ← getHeightOnWorldMap (x - size) y .neighborPositionLeft with
    | some height => pure ((p.set 4 height).set 0 height)
    | none =>
        let i ← irandom 1 3
        pure (p.set 0 (← p.read i))
  else if x + size > m.max then
    let p := p.set 0 (← getHeight (x - size) y)
    let p := p.set 1 (← getHeight x (y - size))
    let height ← getHeight x (y + size)
    let p := (p.set 3 height).set 2 height
    match ← getHeightOnWorldMap (x + size) y .neighborPositionRight with
    | some height => pure ((p.set 4 height).set 2 height)
    | none =>
        let i ← irandom 0 2
        let i := if i = 2 then i + 1 else i
        pure (p.set 2 (← p.read i))
  else if y - size < 0 then
    let p := p.set 0 (← getHeight (x - size) 0)
    let p := p.set 2 (← getHeight (x + size) 0)
    let p := p.set 3 (← getHeight x size)
    match ← getHeightOnWorldMap x (y - size) .neighborPositionBottom with
    | some height => pure ((p.set 4 height).set 1 height)
    | none =>
        let i ← irandom 1 3
        let i := if i = 1 then i - 1 else i
        pure (p.set 1 (← p.read i))
  else if y + size > m.max then
    let p := p.set 0 (← getHeight (x - size) y)
    let p := p.set 1 (← getHeight x (y - size))
    let p := p.set 2 (← getHeight (x + size) y)
    -- the height at the bottom is asked for, as one on the right
    match ← getHeightOnWorldMap x (y - size) .neighborPositionRight with
    | some height => pure ((p.set 4 height).set 3 height)
    | none =>
        let i ← irandom 0 2
        pure (p.set 3 (← p.read i))
  else
    let p := p.set 0 (← getHeight (x - size) y)
    let p := p.set 1 (← getHeight x (y - size))
    let p := p.set 2 (← getHeight (x + size) y)
    pure (p.set 3 (← getHeight x (y + size)))

/-- `Diamond` -/
def diamond [FloatOps F] (x y size : ℤ) (h : F) : M F Unit := do
  match ← extendedHeight x y with
  | some height => setHeight x y height
  | none =>
      let p ← diamondPoints x y size
      let p₀ ← p.read 0
      let p₁ ← p.read 1
      let p₂ ← p.read 2
      let p₃ ← p.read 3
      let p₄ := (p₀ + p₁ + p₂ + p₃) / FloatOps.ofRat 4
      let p₄ := match ← extendedHeight x y with
        | some height => (p₄ + height) / FloatOps.ofRat 2
        | none => p₄
      setHeight x y (p₄ + h * p₄)

/-! ### `WorkThread` -/

/-- `Smooth`. -/
def smooth [FloatOps F] (x y : ℤ) : M F Unit := do
  let h := FloatOps.ofRat 0
  let h := h + (← getHeight x y)
  let h := h + (← getHeight (x + 1) y)
  let h := h + (← getHeight (x - 1) y)
  let h := h + (← getHeight (x + 1) (y + 1)) * FloatOps.ofRat (3 / 4)
  let h := h + (← getHeight (x - 1) (y + 1)) * FloatOps.ofRat (3 / 4)
  let h := h + (← getHeight (x + 1) (y - 1)) * FloatOps.ofRat (3 / 4)
  let h := h + (← getHeight (x - 1) (y - 1)) * FloatOps.ofRat (3 / 4)
  let h := h + (← getHeight x (y + 1))
  let h := h + (← getHeight x (y - 1))
  let h := h / FloatOps.ofRat 8
  setHeight x y h

/-- The part of `Blur` for one cell. -/
def blurCell [FloatOps F] (noise : F → F → F → F) (perlin : Bool) (x y : ℤ) : M F Unit := do
  if perlin then
    let height ← getHeight x y
    let m ← get
    let noise := noise (FloatOps.ofRat x * m.deltaSize) (FloatOps.ofRat y * m.deltaSize) height
    let noise := generatorClamp FloatOps.lt noise (FloatOps.ofRat (-1 / 2)) (FloatOps.ofRat (1 / 2))
    setHeight x y (height * (FloatOps.ofRat 1 + noise))
  smooth x y

/-- `Blur`, with `PerlinNoise::noise`. -/
def blur [FloatOps F] (noise : F → F → F → F) (perlin : Bool) : M F Unit := do
  let m ← get
  forLoop (fun y : ℤ => decide (y < m.max)) (· + 1) (fun y =>
    forLoop (fun x : ℤ => decide (x < m.max)) (· + 1) (fun x => blurCell noise perlin x y) 1) 1

/-- A call of `Square` or `Diamond` for a cell. -/
def call (x y : ℤ) (f : M F Unit) : M F Unit := do
  f
  modify fun m => { m with log := m.log ++ [.visit (x, y)] }

/-- A height that is logged. -/
def warnHeight (x y : ℤ) : M F Unit := do
  if x % 64 = 0 ∧ y % 64 = 0 then
    let _ ← getHeight x y

/-- `Flush` returns at once. -/
def flush : M F Unit := pure ()

/-- "generate square" -/
def generateSquares [FloatOps F] (generateSize prevSize : ℤ) (H : F) : M F Unit := do
  let m ← get
  forLoop (fun y => decide (y < m.max)) (· + prevSize) (fun y =>
    forLoop (fun x => decide (x < m.max)) (· + prevSize) (fun x => do
      call x y (do square x y generateSize (← randomize H))
      warnHeight x y) generateSize) generateSize

/-- "genrate diamond" -/
def generateDiamonds [FloatOps F] (generateSize prevSize : ℤ) (H : F) : M F Unit := do
  let m ← get
  forLoop (fun y => decide (y ≤ m.max)) (· + generateSize) (fun y =>
    forLoop (fun x => decide (x ≤ m.max)) (· + prevSize) (fun x => do
      call x y (do diamond x y generateSize (← randomize H))
      warnHeight x y) ((y + generateSize) % prevSize)) 0

/-- The local variables of `WorkThread`. -/
structure Sizes (F : Type) where
  generateSize : ℤ
  prevSize : ℤ
  H : F

/-- "prepare for next generate" -/
def Sizes.next [FloatOps F] (v : Sizes F) : Sizes F :=
  { prevSize := v.generateSize
    generateSize := v.generateSize / 2
    H := v.H / FloatOps.ofRat 2 }

/-- `WorkThread`: the heights from coarse to fine, then the two calls of `Blur`. -/
def workThread [FloatOps F] (noise : F → F → F → F) : M F Unit := do
  let m ← get
  if m.owner ≠ 0xffffffff then
    flush
  forLoop (fun v => decide (0 < v.generateSize)) Sizes.next
    (fun v => do
      generateSquares v.generateSize v.prevSize v.H
      generateDiamonds v.generateSize v.prevSize v.H)
    { generateSize := m.max / 2, prevSize := m.max, H := m.H }
  blur noise (FloatOps.lt (FloatOps.ofRat 0) m.deltaSize)
  blur noise false
  modify fun m => { m with isFinished := true }

/-! ### `Start` -/

/-- `MAX_MAP_HEIGHT` -/
def maxMapHeight [FloatOps F] : F := FloatOps.ofRat 2000

/-- A corner has the height that the weight map has for it, or the one that is given. -/
def setCorner [FloatOps F] (x y : ℤ) (height : F) : M F Unit := do
  match ← getWeightMapHeight x y with
  | none => setHeight x y (height / maxMapHeight)
  | some height => setHeight x y height

/-- The four corners. -/
def setCorners [FloatOps F] (corner : ℕ → F) : M F Unit := do
  let m ← get
  setCorner 0 0 (corner 0)
  setCorner m.max 0 (corner 1)
  setCorner 0 m.max (corner 2)
  setCorner m.max m.max (corner 3)

/-- `m_fDeltaSize` -/
def deltaSizeOf [FloatOps F] (mapWidth size : ℤ) : F :=
  let deltaSize : F := FloatOps.ofRat mapWidth / FloatOps.ofRat size
  if FloatOps.lt deltaSize (FloatOps.ofRat (1 / 1000)) then FloatOps.ofRat (-1 / 100)
  else deltaSize

/-- The part of `Start` after the check of its arguments. -/
def startChecked [FloatOps F] (noise : F → F → F → F) (corner : ℕ → F) (mapWidth : ℤ) :
    M F Unit := do
  modify fun m => { m with deltaSize := deltaSizeOf mapWidth m.size }
  let m ← get
  if m.owner = 0xffffffff then
    setCorners corner
  workThread noise

/-- `Start`, with the numbers behind `corner`, if that is not null, and no callback. -/
def startGenerate [FloatOps F] (noise : F → F → F → F) (corner : Option (ℕ → F))
    (size mapWidth : ℤ) : M F Unit := do
  modify fun m => { m with isFinished := false }
  match corner with
  | none => pure ()
  | some corner =>
      if size = 4 then
        startChecked noise corner mapWidth

end DiamondSquare

end PCGForUnity
