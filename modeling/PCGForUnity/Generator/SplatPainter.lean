/-
PCGForUnity/Generator/SplatPainter.lean

`SplatPainter`, which paints the texture weights of a map with a brush (`SplatPainter.cpp`,
`PainterBrush.cpp`), and `AutomaticPainter::InitSplatMap`.

Design.  `m_pAlphaMap` has an element behind every index here, but only so many are
allocated: an access outside them has no result, so that a run with a result has none.  The
cells that `Normalize` was called for are recorded, in order.

The numbers are of any type with the operations of `float`, sizes and positions are
integers, and division cuts off as in C++.  The strengths of the brush are left out, since
`GetStrength` returns before it looks at them; the strength of a stroke is a parameter.

What `Normalize` and `Paint` do is proved in `SplatBrush`; the two results about them, on
weights and on cells, are `SplatWeights` and `BrushFootprint`.
-/
import PCGForUnity.Generator.SplatTiles

namespace PCGForUnity

namespace SplatPainter

/-- A painter at work, and the cells that `Normalize` was called for. -/
structure Work (F : Type) extends SplatPainter F where
  allocated : ℕ
  brushSize : ℤ
  brushStrength : F
  normalised : List (ℤ × ℤ)

/-- What the painter runs in: `none` is an access outside an array. -/
abbrev M (F : Type) := StateT (Work F) Option

variable {F : Type}

/-- An access to an element that is there. -/
def Work.InBounds (m : Work F) (i : ℤ) : Prop := 0 ≤ i ∧ i < m.allocated

instance (m : Work F) (i : ℤ) : Decidable (m.InBounds i) := inferInstanceAs (Decidable (_ ∧ _))

/-- `m_pAlphaMap[i]`. -/
def readAlpha (i : ℤ) : M F F := do
  let m ← get
  liftM (if m.InBounds i then some (m.alphaMap i.toNat) else none)

/-- `m_pAlphaMap[i] = value`. -/
def writeAlpha (i : ℤ) (value : F) : M F Unit := do
  let m ← get
  if m.InBounds i then
    set { m with alphaMap := Function.update m.alphaMap i.toNat value }
  else
    liftM (none : Option Unit)

/-- A new painter after `Init`, whose caller allocates the map. -/
def Work.init [FloatOps F] (alphaMap : ℕ → F) (sizeXY splatCount : ℕ) : Work F where
  alphaMap := alphaMap
  alphaCount := splatCount
  size := sizeXY
  allocated := sizeXY * sizeXY * splatCount
  brushSize := 5
  brushStrength := FloatOps.ofRat 1
  normalised := []

/-- `ResetBrush`. -/
def resetBrush (brushSize : ℤ) : M F Unit := modify fun m => { m with brushSize }

/-- `SetBaseBrushStrength`. -/
def setBaseBrushStrength (strength : F) : M F Unit :=
  modify fun m => { m with brushStrength := strength }

/-- `for (i = 0; i < n; i++)` -/
abbrev forEach (n : ℤ) (body : ℤ → M F Unit) : M F Unit :=
  forLoop (fun i => decide (i < n)) (· + 1) body 0

variable [FloatOps F]

/-- `PainterBrush::GetStrength`. -/
def getStrength (_xOffset _yOffset : ℤ) : F := FloatOps.ofRat 1

/-- `Normalize`: a weight is set and the others share the rest. -/
def normalize (x y : ℤ) (newAlpha : F) (splatIndex : ℤ) : M F Unit := do
  let m ← get
  let line := getSplatMapIndex y x 0 m.size m.alphaCount
  let newAlpha := generatorClamp FloatOps.lt newAlpha (FloatOps.ofRat 0) (FloatOps.ofRat 1)
  writeAlpha (line + splatIndex) newAlpha
  let totalAlphaOthers ← (List.range m.alphaCount.toNat).foldlM (fun total (i : ℕ) => do
    if (i : ℤ) ≠ splatIndex then
      pure (total + (← readAlpha (line + i)))
    else
      pure total) (FloatOps.ofRat 0)
  if FloatOps.lt (FloatOps.ofRat (1 / 100)) totalAlphaOthers then
    let adjust := (FloatOps.ofRat 1 + -newAlpha) / totalAlphaOthers
    forEach m.alphaCount fun a => do
      if a ≠ splatIndex then
        writeAlpha (line + a) ((← readAlpha (line + a)) * adjust)
  else
    forEach m.alphaCount fun a =>
      writeAlpha (line + a) (if a = splatIndex then FloatOps.ofRat 1 else FloatOps.ofRat 0)

/-- A call of `Normalize`, which is logged. -/
def call (x y : ℤ) (newAlpha : F) (splatIndex : ℤ) : M F Unit := do
  normalize x y newAlpha splatIndex
  modify fun m => { m with normalised := m.normalised ++ [(x, y)] }

/-- `generator_clamp` for `int`. -/
abbrev clampInt (x low high : ℤ) : ℤ := generatorClamp (fun a b => decide (a < b)) x low high

/-- `Paint` -/
def paint (xCenter yCenter splatIndex : ℤ) : M F Unit := do
  let m ← get
  if splatIndex ≥ m.alphaCount then
    return
  let intRadius := m.brushSize.tdiv 2
  let intFraction := m.brushSize.tmod 2
  let xmin := clampInt (xCenter - intRadius) 0 (m.size - 1)
  let ymin := clampInt (yCenter - intRadius) 0 (m.size - 1)
  let xmax := clampInt (xCenter + intRadius + intFraction) 0 m.size
  let ymax := clampInt (yCenter + intRadius + intFraction) 0 m.size
  let width := xmax - xmin
  let height := ymax - ymin
  let nMax := m.size - 1
  forEach width fun x =>
    forEach height fun y => do
      let xBrushOffset := (xmin + x) - (xCenter - intRadius + intFraction)
      let yBrushOffset := (ymin + y) - (yCenter - intRadius + intFraction)
      let rx := clampInt (xBrushOffset + xCenter) 0 nMax
      let ry := clampInt (yBrushOffset + yCenter) 0 nMax
      let brushStrength := getStrength xBrushOffset yBrushOffset * m.brushStrength
      let index := getSplatMapIndex ry rx splatIndex m.size m.alphaCount
      let alpha := (← readAlpha index) + brushStrength
      writeAlpha index alpha
      call rx ry alpha splatIndex

/-- `AutomaticPainter::InitSplatMap`. -/
def initSplatMap : M F Unit := do
  let m ← get
  forEach m.size fun x =>
    forEach m.size fun y =>
      forEach m.alphaCount fun a =>
        writeAlpha (getSplatMapIndex y x a m.size m.alphaCount)
          (if a = 1 then FloatOps.ofRat 1 else FloatOps.ofRat 0)

end SplatPainter

end PCGForUnity
