/-
PCGForUnity/Generator/Mountain.lean

`MountainGen`, which grows a mountain by an L-system (`Mountain.cpp`).

`Gen` rewrites the symbols by the rules, with the parts that a `^` stands before kept or
dropped by chance, and `Start` reads what it made as the moves of a turtle.

Design.  An iterator is a position of its string, so a read outside of it has no result, and
neither has a loop that never ends: the functions that scan are `partial_fixpoint`s in
`Option`, and that they end is proved where it is needed.  Errors are what the code logs,
with their text, or the position it logs.

`std::cos`, `std::sin` and `PerlinNoise::noise` are parameters, and the numbers are of any
type with the operations of `float`.  The blocks that were finished are recorded with the
turtle before and after, which the code does not do; what it restores is `_currentPoint` and
`_currentDir` alone.  Left out is what comes after the points are there: their sorting, of
which only the comparator is modelled, and the mesh.
-/
import PCGForUnity.Generator.Generator
import PCGForUnity.Lib.Loop

namespace PCGForUnity

/-- `_frandom`. -/
def Rand.frandom {F : Type} [FloatOps F] (r : Rand) (min max : ℤ) : F × Rand :=
  if min ≥ max then (FloatOps.ofRat min, r)
  else
    let (whole, r) := r.rand
    let (fraction, r) := r.rand
    (FloatOps.ofRat (((whole : ℤ) % (max - min) + min : ℤ) : ℚ)
      + FloatOps.ofRat ((fraction % 10000 : ℕ) : ℚ) / FloatOps.ofRat 10000, r)

/-- `Vector3` -/
structure Vector3 (F : Type) where
  x : F
  y : F
  z : F
deriving DecidableEq

/-- `L_M_Point`. -/
structure LMPoint (F : Type) where
  z : Char
  v : Vector3 F
  idx : ℤ

namespace MountainGen

/-- `'\0'` -/
def nul : Char := Char.ofNat 0

/-- `isvariables` -/
def isVariables (c : Char) : Bool := c == 'S' || c == 'T' || c == 'C' || c == 'R'

/-- `isdir` -/
def isDir (c : Char) : Bool := c == '+' || c == '-' || c == '>' || c == '<'

/-- `GetDirection`: the angle after a symbol of direction. -/
def getDirection {F : Type} [FloatOps F] (d : Char) (curDir : F) : F :=
  if d = '<' then curDir + -FloatOps.ofRat 30
  else if d = '>' then curDir + FloatOps.ofRat 30
  else if d = '+' then curDir + FloatOps.ofRat 15
  else if d = '-' then curDir + -FloatOps.ofRat 15
  else curDir

/-- The rules of `MountainGen::MountainGen`. -/
def rules (c : Char) : Option String :=
  if c = 'C' then some "^S^T^C^R"
  else if c = 'T' then some "^[C]^S^[>S^<S^T^+T^-T]^<T^>T^+S^-S"
  else if c = 'S' then some "S^T^[+SS^-T]^[-S]^[>S]^[<S]^[+T>S^-S]^[-T]^[>T]^[<T^+S]^C^[>CT^S]^[<C]"
  else none

/-! ### `Gen` -/

/-- `GetChangeF`: the chance that a variable comes behind another. -/
def getChangeF {F : Type} [FloatOps F] (source target : Char) : F :=
  if source = 'S' then
    if target = 'S' then FloatOps.ofRat (8 / 10)
    else if target = 'T' then FloatOps.ofRat (15 / 100)
    else if target = 'C' then FloatOps.ofRat (5 / 100)
    else FloatOps.ofRat 0
  else if source = 'T' then
    if target = 'S' then FloatOps.ofRat (88 / 100)
    else if target = 'T' then FloatOps.ofRat (10 / 100)
    else if target = 'C' then FloatOps.ofRat (2 / 100)
    else FloatOps.ofRat 0
  else if source = 'C' then
    if target = 'C' then FloatOps.ofRat (47 / 100)
    else if target = 'S' then FloatOps.ofRat (21 / 100)
    else if target = 'T' then FloatOps.ofRat (32 / 100)
    else FloatOps.ofRat 0
  else FloatOps.ofRat 0

/-- What `FlushGen` works with. -/
structure Scan where
  headItr : ℕ
  genList : List Char
  rand : Rand

/-- What scans a text: `none` is an iterator outside it. -/
abbrev ScanM := StateT Scan Option

/-- `headItr++` -/
def advance : ScanM Unit := modify fun m => { m with headItr := m.headItr + 1 }

/-- `genList.push_back(c)` -/
def pushBack (c : Char) : ScanM Unit := modify fun m => { m with genList := m.genList ++ [c] }

/-- `headItr == end` -/
def atEnd (s : List Char) : ScanM Bool := do return decide ((← get).headItr = s.length)

/-- `*headItr` -/
def deref (s : List Char) : ScanM Char := do liftM s[(← get).headItr]?

/-- `GetChance`: a number is drawn and compared with the chance. -/
def getChance (F : Type) [FloatOps F] (source target : Char) : ScanM Bool := do
  let m ← get
  let (chance, rand) := m.rand.frandom (F := F) 0 1
  set { m with rand }
  return FloatOps.le chance (getChangeF source target)

/-- A string that iterators go through. -/
abbrev Text := List Char

/-- `IIgnoreBlockReverse`, and where it leaves its iterator. -/
def Text.iIgnoreBlockReverse (s : Text) (start i : ℕ) : Option (Bool × ℕ) :=
  if i = 0 then none
  else if i - 1 = start then some (false, i - 1)
  else do
    let c ← s[i - 1]?
    if c = '[' then some (true, i - 1)
    else if c = ']' then do
      let (ok, i) ← s |>.iIgnoreBlockReverse start (i - 1)
      if ok then s |>.iIgnoreBlockReverse start i else some (false, i)
    else s |>.iIgnoreBlockReverse start (i - 1)
partial_fixpoint

/-- `i--` -/
def decrement (i : ℕ) : Option ℕ := if i = 0 then none else some (i - 1)

/-- `GetMstate`: the variable before a position, blocks being skipped. -/
def Text.getMstate (s : Text) (start i : ℕ) : Option Char :=
  if i = start then s[start]?
  else do
    let c ← s[i]?
    if c = ']' then do
      let (ok, i) ← s |>.iIgnoreBlockReverse start i
      if ok then do s |>.getMstate start (← decrement i) else some nul
    else if isVariables c then some c
    else do s |>.getMstate start (← decrement i)
partial_fixpoint

/-- `IIgnoreBlock`: the end of the block that the iterator is in. -/
def Text.iIgnoreBlock (s : Text) : ScanM Bool := do
  advance
  if ← atEnd s then return false
  else
    let c ← deref s
    if c = ']' then return true
    else if c = '[' then
      if ← s |>.iIgnoreBlock then s |>.iIgnoreBlock else return false
    else s |>.iIgnoreBlock
partial_fixpoint

section

variable (F : Type) [FloatOps F]

mutual

/-- `IFlushGen`: what follows a `^` is kept or left out by chance. -/
def Text.iFlushGen (prevGenV : Char) (s : Text) : ScanM Bool := do
  if ← atEnd s then return false
  else
    let itrBegin := (← get).headItr
    let tmp ← deref s
    if isDir tmp then
      advance
      if ← atEnd s then return false
      else
        let c ← deref s
        if !isVariables c then return false
        else
          if ← getChance F prevGenV c then
            pushBack tmp
            pushBack c
          return true
    else if isVariables tmp then
      if ← getChance F prevGenV tmp then
        pushBack tmp
      return true
    else if tmp = '[' then
      advance
      if ← atEnd s then return false
      else
        let c ← deref s
        if c = ']' then return false
        else if isVariables c then
          if ← getChance F prevGenV c then
            pushBack tmp
            pushBack c
            s |>.findBracket itrBegin
          else s |>.iIgnoreBlock
        else if isDir c then
          advance
          if ← atEnd s then return false
          else
            let c' ← deref s
            if isVariables c' then
              if ← getChance F prevGenV c' then
                pushBack tmp
                pushBack c
                pushBack c'
                s |>.findBracket itrBegin
              else s |>.iIgnoreBlock
            else return false
        else s |>.iIgnoreBlock
    else return true
partial_fixpoint

/-- The loop of `IFlushGen` that looks for the `]`. -/
def Text.findBracket (itrBegin : ℕ) (s : Text) : ScanM Bool := do
  advance
  if ← atEnd s then return false
  else
    let c ← deref s
    if c = ']' then
      pushBack ']'
      return true
    else if c = '^' then
      let itrTmp ← liftM (decrement (← get).headItr)
      let prevV ← liftM (s |>.getMstate itrBegin itrTmp)
      if !isVariables prevV then return false
      else
        advance
        if ← s |>.iFlushGen prevV then
          if ← atEnd s then return false else s |>.findBracket itrBegin
        else return false
    else
      pushBack c
      s |>.findBracket itrBegin
partial_fixpoint

end

/-- The loop of `FlushGen`; an error is its text. -/
def Text.flushGenLoop (prevGenV prevV : Char) (s : Text) : ScanM (Except String Unit) := do
  if ← atEnd s then return .ok ()
  else
    let c ← deref s
    if c = '^' then
      if prevV = nul ∧ prevGenV = nul then
        return .error ("MountainGen content error ^ must have followed by var " ++ String.ofList s)
      else
        advance
        let prevV := if prevV = nul then prevGenV else prevV
        if ← s |>.iFlushGen F prevV then
          if ← atEnd s then return .ok ()
          else
            advance
            s |>.flushGenLoop prevGenV prevV
        else
          return .error ("MountainGen content error ^ must have a Var following "
            ++ String.ofList s)
    else if isVariables c then
      pushBack c
      advance
      s |>.flushGenLoop prevGenV c
    else
      advance
      s |>.flushGenLoop prevGenV prevV
partial_fixpoint

export Text (iIgnoreBlockReverse getMstate iIgnoreBlock iFlushGen findBracket flushGenLoop)

/-- `FlushGen`, with the string that replaces its argument. -/
def flushGen (prevGenV : Char) (genList : List Char) (rand : Rand) :
    Option (Except String (List Char) × Rand) :=
  if prevGenV = '^' then
    some (.error ("content error ^ must have followed by var " ++ String.ofList genList), rand)
  else do
    let (r, m) ← (flushGenLoop F prevGenV nul genList).run ⟨0, [], rand⟩
    match r with
    | .ok () => some (.ok m.genList, m.rand)
    | .error e => some (.error e, m.rand)

/-- What `Gen` puts after `gen` for a symbol. -/
def expand (c : Char) (gen : List Char) (rand : Rand) :
    Option (Except String (List Char) × Rand) :=
  match rules c with
  | none => some (.ok gen, rand)
  | some rule => do
      let prev ← if gen.length > 0 then getMstate gen 0 (gen.length - 1) else some nul
      match ← flushGen F prev rule.toList rand with
      | (.ok tmp, rand) => some (.ok (gen ++ tmp), rand)
      | (.error e, rand) => some (.error e, rand)

/-- The loop of `Gen`. -/
def expandAll (tmpList gen : List Char) (rand : Rand) :
    Option (Except String (List Char) × Rand) :=
  match tmpList with
  | [] => some (.ok gen, rand)
  | c :: tmpList => do
      match ← expand F c gen rand with
      | (.ok gen, rand) => expandAll tmpList gen rand
      | (.error e, rand) => some (.error e, rand)

/-- `Gen`: what `_tmpList` is when it returns `true`; an error is what `_tmpList` is then, the
list of the generation before, and the text that was logged. -/
def gen (genDepth : ℤ) (tmpList : List Char) (rand : Rand) :
    Option (Except (List Char × String) (List Char) × Rand) := do
  match ← expandAll F tmpList [] rand with
  | (.error e, rand) => some (.error (tmpList, e), rand)
  | (.ok tmpList, rand) =>
      if genDepth - 1 ≤ 0 then some (.ok tmpList, rand) else gen (genDepth - 1) tmpList rand
termination_by genDepth.toNat

end

/-! ### `Start` -/

end MountainGen

/-- A block that was finished: what `_currentPoint` and `_currentDir` were when its `[`
was read, and what they are. -/
structure MountainBlock (F : Type) where
  point : Vector3 F
  dir : F
  pointAfter : Vector3 F
  dirAfter : F

/-- The members of `MountainGen` that are used here, the variable `rpos` of `Start`, the
positions that errors were logged with and the blocks. -/
structure MountainGen (F : Type) where
  mother : List (LMPoint F)
  tmpList : List Char
  step : ℤ
  maxHeight : ℤ
  c : ℤ
  t : ℤ
  s : ℤ
  minc : ℤ
  mint : ℤ
  currentDir : F
  usePerlin : Bool
  currentPoint : Vector3 F
  recored : F × F × F
  rand : Rand
  rpos : ℕ
  errors : List ℕ
  blocks : List (MountainBlock F)

namespace MountainGen

variable {F : Type} [FloatOps F]

/-- `Init`, after the constructor: the members that depend on the step. -/
def init (p : Vector3 F) (step maxHeight : ℤ) (usePerlin : Bool) (rand : Rand) : MountainGen F :=
  let step := if step ≤ 0 then 1000 else step
  let c := step.tdiv 2
  let t := step.tdiv 3
  { mother := []
    tmpList := ['S']
    step
    maxHeight := if maxHeight ≤ step * 10 then step * 10 else maxHeight
    c
    t
    s := step.tdiv 5
    minc := min 1 (c.tdiv 5)
    mint := min 3 (t.tdiv 5)
    currentDir := FloatOps.ofRat 0
    usePerlin
    currentPoint := p
    recored := (FloatOps.ofRat 0, FloatOps.ofRat 0, FloatOps.ofRat 0)
    rand
    rpos := 0
    errors := []
    blocks := [] }

/-- What `Start` runs in: `none` is a read outside a list. -/
abbrev M (F : Type) := StateT (MountainGen F) Option

/-- `PerlinNoise` -/
abbrev Noise (F : Type) := F → F → F → F

/-- `_frandom` -/
def frandom (min max : ℤ) : M F F := do
  let m ← get
  let (value, rand) := m.rand.frandom min max
  set { m with rand }
  return value

/-- `Next` -/
def next : M F Char := do
  let m ← get
  match m.tmpList[m.rpos]? with
  | some c =>
      set { m with rpos := m.rpos + 1 }
      return c
  | none => return nul

/-- `LogErrorFormat`, of which the position is kept. -/
def logError : M F Unit := modify fun m => { m with errors := m.errors ++ [m.rpos] }

/-- `height` in `GenVar`. -/
def varHeight (v : Char) : M F F := do
  let m ← get
  if v = 'C' then (fun r => FloatOps.ofRat 0 + -r) <$> frandom m.minc m.c
  else if v = 'T' then (fun r => FloatOps.ofRat 0 + r) <$> frandom m.mint m.t
  else if v = 'S' then (fun r => FloatOps.ofRat 0 + r) <$> frandom (-m.s) m.s
  else pure (FloatOps.ofRat 0)

/-- A point that is too high is lowered. -/
def lower (z : F) : M F F := do
  let m ← get
  if FloatOps.lt (FloatOps.ofRat m.maxHeight) z then (fun r => z + -r) <$> frandom m.minc m.c
  else pure z

section

variable (cos sin : F → F) (noise : F → F → F → F)

/-- `GenVar`: one step on, with a height for the variable. -/
def genVar (v : Char) : M F Unit := do
  let m ← get
  let x := m.currentPoint.x + FloatOps.ofRat m.step * cos m.currentDir
  let y := m.currentPoint.y + FloatOps.ofRat m.step * sin m.currentDir
  let height ← varHeight v
  let z ← lower (m.currentPoint.z + height)
  let z :=
    if m.usePerlin && decide (2 < m.mother.length) then
      z + noise m.recored.1 m.recored.2.1 m.recored.2.2 * z
    else z
  modify fun m =>
    { m with
      recored := (m.recored.2.1, m.recored.2.2, z)
      currentPoint := ⟨x, y, z⟩
      mother := m.mother ++ [⟨v, ⟨x, y, z⟩, m.rpos - 1⟩] }

/-- `GenNext`: a variable, or a direction with its variable. -/
def genNext (v : Char) : M F Unit := do
  if isVariables v then genVar cos sin noise v
  else if isDir v then
    let second ← next
    modify fun m => { m with currentDir := getDirection v m.currentDir }
    if isVariables second then genVar cos sin noise second else logError
  else logError

/-- A block is finished that was opened at `m`. -/
def finish (m : MountainGen F) : M F Unit := modify fun m' =>
  { m' with
    blocks := m'.blocks ++ [⟨m.currentPoint, m.currentDir, m'.currentPoint, m'.currentDir⟩] }

/-- `GenNextBlock`, up to the `]` that closes the block. -/
def Noise.genNextBlock (cos sin : F → F) (noise : Noise F) : M F Unit := do
  let c ← next
  if c = ']' then return
  else if c = '[' then
    let m ← get
    noise |>.genNextBlock cos sin
    finish m
    noise |>.genNextBlock cos sin
  else
    genNext cos sin noise c
    noise |>.genNextBlock cos sin
partial_fixpoint

/-- The loop of `Start`, and whether it gets to the end: at a `^` it throws. -/
def Noise.startLoop (cos sin : F → F) (noise : Noise F) : M F Bool := do
  let m ← get
  if m.rpos < m.tmpList.length then
    let c ← next
    if c = '^' then return false
    else if c = '[' then
      let m ← get
      noise |>.genNextBlock cos sin
      modify fun m' =>
        { m' with currentDir := FloatOps.ofRat (m.rpos : ℚ), currentPoint := m.currentPoint }
      finish m
      noise |>.startLoop cos sin
    else
      genNext cos sin noise c
      noise |>.startLoop cos sin
  else return true
partial_fixpoint

export Noise (genNextBlock startLoop)

/-- `Start` up to the sorting of the points; what `Gen` returns is ignored. -/
def start (genDepth : ℤ) : M F Bool := do
  let m ← get
  match ← liftM (gen F genDepth m.tmpList m.rand) with
  | (.ok tmpList, rand) => set { m with tmpList, rand, rpos := 0 }
  | (.error (tmpList, _), rand) => set { m with tmpList, rand, rpos := 0 }
  startLoop cos sin noise

end

/-- `sort_vector3` -/
def sortVector3 (cmpStep : ℤ) (obj1 obj2 : LMPoint F) : Bool :=
  let abs (x : F) := if FloatOps.lt x (FloatOps.ofRat 0) then -x else x
  if FloatOps.lt obj1.v.z (obj2.v.z + -FloatOps.ofRat cmpStep) then true
  else if FloatOps.lt (abs (obj1.v.z + -obj2.v.z)) (FloatOps.ofRat cmpStep) then
    FloatOps.lt obj1.v.x obj2.v.x
  else false

end MountainGen

end PCGForUnity
