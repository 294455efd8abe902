/-
PCGForUnity/Generator/AutomaticPainter.lean

`AutomaticPainter::DrawSplatMap`, which paints grass and rock over the world map
(`AutomaticPainter.cpp`).

The painter visits a grid of centres.  Where the height is out of the band in which grass
grows it paints rock, and else grass, by chance unless the centre has grass already.  The
neighbours that it counts before are never looked at: each time it reads the centre.  What
`IsStopped` answers and what `std::rand()` returns are any sequences.

A stroke has the strength one, so every cell ends with one texture alone.  Grass is only
where a centre of the band has reached, and, as the brush of size 5 is shifted by one cell,
never in the first row or column (`grass_in_reach`).
-/
import PCGForUnity.Generator.SplatWeights
import PCGForUnity.Generator.BrushFootprint
import Mathlib.Tactic.Linarith

namespace PCGForUnity

/-- The painter of a map at work.  `stops` is what `IsStopped` answers, and `asked` how
often it was asked. -/
structure AutomaticPainter (F : Type) extends SplatPainter.Work F where
  heightMap : ℕ → F
  heightSize : ℤ
  rand : Rand
  stops : ℕ → Bool
  asked : ℕ

namespace AutomaticPainter

open SplatPainter (Work Shape clampInt brushAxis brushCells cellNumber)

/-- What the painter runs in: `none` is an access outside an array. -/
abbrev M (F : Type) := StateT (AutomaticPainter F) Option

variable {F : Type}

/-! ### The painter as coded -/

/-- A new painter after `Init`, whose caller allocates the maps. -/
def init [FloatOps F] (heightMap : ℕ → F) (heightSizeXY : ℤ) (alphaMap : ℕ → F)
    (alphaSizeXY splatCount : ℕ) (rand : Rand) (stops : ℕ → Bool) : AutomaticPainter F where
  toWork := { Work.init alphaMap alphaSizeXY splatCount with brushSize := 5 }
  heightMap := heightMap
  heightSize := heightSizeXY
  rand := rand
  stops := stops
  asked := 0

/-- A call of the `SplatPainter`. -/
def painter {α : Type} (f : SplatPainter.M F α) : M F α := do
  let s ← get
  let (a, work) ← liftM (f.run s.toWork)
  set { s with toWork := work }
  pure a

/-- `MapGenerator::IsStopped`. -/
def isStopped : M F Bool :=
  modifyGet fun s => (s.stops s.asked, { s with asked := s.asked + 1 })

/-- `m_pHeightMap[i]`. -/
def readHeight (i : ℤ) : M F F := do
  let s ← get
  liftM (if 0 ≤ i ∧ i < s.heightSize * s.heightSize then some (s.heightMap i.toNat) else none)

/-- `for (i = start; i < stop; i += step)`, by the values of `i`. -/
def scan (start step stop : ℤ) : List ℤ :=
  (List.range ((stop - start + step - 1) / step).toNat).map fun i : ℕ => start + step * i

/-- The centres that `DrawSplatMap` visits.  In its second pass `x` is not set back, so that
only the first row has any. -/
def centres (alphaSize brushSize intFraction : ℤ) : List (ℤ × ℤ) :=
  let rest := scan (alphaSize - intFraction - 1) brushSize alphaSize
  ((scan 0 brushSize alphaSize).flatMap fun y => (scan 0 brushSize alphaSize).map fun x => (x, y))
    ++ (rest.take 1).flatMap fun y => rest.map fun x => (x, y)

variable [FloatOps F]

/-- `GetChance`. -/
def getChance (chance : F) : M F Bool :=
  modifyGet fun s =>
    let (value, rand) := s.rand.frandomF (FloatOps.ofRat 0) (FloatOps.ofRat 1)
    (FloatOps.le value chance, { s with rand })

/-- `SplatPainter::GetAlpha`, with the access. -/
def getAlpha (x y splatIndex : ℤ) : SplatPainter.M F F := do
  let m ← get
  if splatIndex ≥ m.alphaCount then pure (FloatOps.ofRat 0)
  else
    let x := clampInt x 0 (m.size - 1)
    let y := clampInt y 0 (m.size - 1)
    SplatPainter.readAlpha (getSplatMapIndex y x splatIndex m.size m.alphaCount)

/-- `SetBaseBrushStrength(1)` and `Paint`. -/
def stroke (x y splatIndex : ℤ) : SplatPainter.M F Unit := do
  SplatPainter.setBaseBrushStrength (FloatOps.ofRat 1)
  SplatPainter.paint x y splatIndex

/-- `neighborCnt`: for each neighbour the centre is read. -/
def neighborCnt (x y brushSize : ℤ) : M F ℕ :=
  let offsets := [-brushSize, 0, brushSize]
  (offsets.flatMap fun x0 => offsets.map fun y0 => (x0, y0)).foldlM (fun (cnt : ℕ) (o : ℤ × ℤ) => do
    if x = o.1 ∧ y = o.2 then pure cnt
    else
      let alpha ← painter (getAlpha x y 0)
      if FloatOps.lt (FloatOps.ofRat (1 / 2)) alpha then pure (cnt + 1) else pure cnt) 0

/-- `Paint` of one cell, by the height there. -/
def paint (x y brushSize : ℤ) (scale : F) : M F Unit := do
  let s ← get
  let heightMapX := clampInt (FloatOps.toInt (scale * FloatOps.ofRat x)) 0 (s.heightSize - 1)
  let heightMapY := clampInt (FloatOps.toInt (scale * FloatOps.ofRat y)) 0 (s.heightSize - 1)
  let height := (← readHeight (getHeightMapIndex heightMapX heightMapY s.heightSize)) *
    FloatOps.ofRat 2000
  if FloatOps.lt (FloatOps.ofRat 550) height then painter (stroke x y 1)
  else if FloatOps.lt height (FloatOps.ofRat 50) then painter (stroke x y 1)
  else
    let _alpha0 ← painter (getAlpha x y 0)
    let cnt ← neighborCnt x y brushSize
    let alpha0Chance ← if cnt < 5 then getChance (FloatOps.ofRat (1 / 2)) else pure true
    if alpha0Chance then painter (stroke x y 0) else pure ()

/-- The loops of `DrawSplatMap`. -/
def paintEach (brushSize : ℤ) (scale : F) : List (ℤ × ℤ) → M F Unit
  | [] => pure ()
  | c :: cs => do
      if ← isStopped then pure ()
      else
        paint c.1 c.2 brushSize scale
        paintEach brushSize scale cs

/-- `DrawSplatMap` -/
def drawSplatMap : M F Unit := do
  if ← isStopped then pure ()
  else
    painter SplatPainter.initSplatMap
    let s ← get
    let brushSize := if s.brushSize.tdiv 2 < 1 then 1 else s.brushSize.tdiv 2
    let scale := FloatOps.ofRat s.heightSize / FloatOps.ofRat s.size
    paintEach brushSize scale (centres s.size brushSize (s.brushSize.tmod 2))

/-! ### What it calls -/

section

omit [FloatOps F]

/-- The map of heights is only read. -/
structure Keeps (s₀ : AutomaticPainter F) (P : Work F → Prop) (s : AutomaticPainter F) : Prop where
  work : P s.toWork
  heightMap_eq : s.heightMap = s₀.heightMap
  heightSize_eq : s.heightSize = s₀.heightSize

variable {s₀ : AutomaticPainter F} {P : Work F → Prop}

theorem painter_spec {α : Type} {f : SplatPainter.M F α} {Q : α → Work F → Prop}
    (h : Triple P f Q) : Triple (Keeps s₀ P) (painter f) fun a => Keeps s₀ (Q a) := by
  intro s hs
  obtain ⟨a, m, hrun, hm⟩ := h s.toWork hs.work
  refine ⟨a, { s with toWork := m }, ?_, ⟨hm, hs.heightMap_eq, hs.heightSize_eq⟩⟩
  have hlift : (liftM (f.run s.toWork) : M F (α × Work F)).run s = some ((a, m), s) := by
    rw [hrun]
    rfl
  exact (run_bind_of_run (f := get) rfl).trans (run_bind_of_run hlift)

theorem isStopped_spec : Triple (Keeps s₀ P) isStopped fun _ => Keeps s₀ P :=
  fun s hs => ⟨s.stops s.asked, { s with asked := s.asked + 1 }, rfl, { hs with }⟩

theorem readHeight_spec {x y : ℤ} (hx : 0 ≤ x ∧ x < s₀.heightSize) (hy : 0 ≤ y ∧ y < s₀.heightSize) :
    Triple (Keeps s₀ P) (readHeight (getHeightMapIndex x y s₀.heightSize)) fun h s =>
      Keeps s₀ P s ∧ h = s₀.heightMap (getHeightMapIndex x y s₀.heightSize).toNat := by
  intro s hs
  have hmul : y * s₀.heightSize ≤ (s₀.heightSize - 1) * s₀.heightSize :=
    Int.mul_le_mul_of_nonneg_right (by omega) (by omega)
  have hthere : 0 ≤ getHeightMapIndex x y s₀.heightSize ∧
      getHeightMapIndex x y s₀.heightSize < s₀.heightSize * s₀.heightSize := by
    have hnonneg := Int.mul_nonneg hy.1 (show 0 ≤ s₀.heightSize by omega)
    rw [getHeightMapIndex]
    rw [Int.sub_mul, Int.one_mul] at hmul
    omega
  refine ⟨s.heightMap _, s, ?_, hs, congrFun hs.heightMap_eq _⟩
  show (liftM (if 0 ≤ _ ∧ _ < s.heightSize * s.heightSize then _ else none : Option F) : M F F).run s
    = _
  rw [hs.heightSize_eq, if_pos hthere]
  rfl

end

variable {N C : ℕ} {s₀ : AutomaticPainter F} {P : Work F → Prop}

theorem getChance_spec (chance : F) :
    Triple (Keeps s₀ P) (getChance chance) fun _ => Keeps s₀ P :=
  fun _ hs => ⟨_, _, rfl, { hs with }⟩

theorem getAlpha_spec (hN : 1 ≤ N) (hP : ∀ m, P m → Shape N C m) (x y : ℤ) :
    Triple P (getAlpha x y 0) fun _ => P := by
  intro m hm
  have hshape := hP m hm
  have hspec : Triple (· = m) (getAlpha x y 0) fun _ m' => m' = m := by
    refine Triple.get_bind ?_
    rintro m rfl
    refine Triple.ite (fun _ => Triple.pure _ fun _ hs => hs) fun hcount => ?_
    rw [hshape.count_eq] at hcount
    rw [hshape.size_eq, hshape.count_eq]
    obtain ⟨x, hx, hxe⟩ := SplatPainter.clampInt_natCast hN x
    obtain ⟨y, hy, hye⟩ := SplatPainter.clampInt_natCast hN y
    simp only [hxe, hye]
    rw [SplatPainter.getSplatMapIndex_eq]
    have hthere := hshape.inBounds (SplatPainter.cellNumber_lt hx hy) (le_refl 0) (not_le.mp hcount)
    exact Triple.mono (SplatPainter.readAlpha_spec hthere) (fun _ hs => hs) fun _ _ hs => hs.1
  obtain ⟨alpha, m', hrun, rfl⟩ := hspec m rfl
  exact ⟨alpha, m', hrun, hm⟩

theorem neighborCnt_spec (hN : 1 ≤ N) (hP : ∀ m, P m → Shape N C m) (x y brushSize : ℤ) :
    Triple (Keeps s₀ P) (neighborCnt x y brushSize) fun _ => Keeps s₀ P := by
  refine Triple.foldlM (fun _ _ => Keeps s₀ P) (fun _ o cnt _ => ?_) 0
  refine Triple.ite (fun _ => Triple.pure _ fun _ hs => hs) fun _ => ?_
  refine Triple.bind (painter_spec (getAlpha_spec hN hP x y)) fun alpha => ?_
  exact Triple.ite (fun _ => Triple.pure _ fun _ hs => hs) fun _ => Triple.pure _ fun _ hs => hs

/-! ### A stroke, in exact arithmetic -/

/-- A stroke of the strength one leaves its texture alone in the cell. -/
theorem dabbedRow_one {k : ℕ} {w : ℕ → ℚ} (hw : 0 ≤ w k) (a : ℕ) :
    SplatPainter.dabbedRow C k 1 w a = if a = k then 1 else 0 := by
  have hclamp : generatorClamp FloatOps.lt (w k + FloatOps.ofRat 1 * 1) (FloatOps.ofRat 0)
      (FloatOps.ofRat 1) = (1 : ℚ) := by
    -- at least one, so it is clamped
    show (if decide (w k + 1 * 1 < 0) = true then (0 : ℚ)
      else if decide (1 < w k + 1 * 1) = true then 1 else w k + 1 * 1) = 1
    simp only [decide_eq_true_iff]
    split
    · linarith
    · split
      · rfl
      · linarith
  rw [SplatPainter.dabbedRow, SplatPainter.normalizedRow, hclamp]
  set total : ℚ := SplatPainter.totalAlphaOthers C k _
  -- and nothing is left for the others
  have hrest (v : ℚ) : v * (((FloatOps.ofRat 1 : ℚ) + -1) / total) = 0 := by
    show v * ((1 + -1) / total) = 0
    simp
  simp only [hrest]
  by_cases ha : a = k
  · rw [if_pos ha, if_neg (not_not.mpr ha), if_pos ha]
    exact ite_self 1
  · rw [if_neg ha, if_pos ha, if_neg ha]
    exact ite_self 0

/-- Each cell has one texture alone, the first or the second, and the first only where
it may be. -/
structure Painted (N C : ℕ) (may : ℤ × ℤ → Prop) (m : Work ℚ) : Prop where
  shape : Shape N C m
  brushSize_eq : m.brushSize = 5
  cell : ∀ x < N, ∀ y < N, ∃ k, (k = 0 ∧ may (x, y) ∨ k = 1) ∧
    ∀ a < C, m.alphaMap (cellNumber N x y * C + a) = if a = k then 1 else 0

theorem Painted.mono {may may' : ℤ × ℤ → Prop} {m : Work ℚ} (h : Painted N C may m)
    (hmay : ∀ c, may c → may' c) : Painted N C may' m where
  shape := h.shape
  brushSize_eq := h.brushSize_eq
  cell x hx y hy := by
    obtain ⟨k, hk, hcell⟩ := h.cell x hx y hy
    exact ⟨k, hk.imp_left fun hk => ⟨hk.1, hmay _ hk.2⟩, hcell⟩

theorem cellNumber_inj {x y x' y' : ℕ} (hx : x < N) (hx' : x' < N)
    (h : cellNumber N x y = cellNumber N x' y') : x = x' ∧ y = y' := by
  have hy : y = y' := by
    rw [← SplatPainter.mul_add_div_of_lt (l := y) hx, ← cellNumber, h, cellNumber,
      SplatPainter.mul_add_div_of_lt hx']
  subst hy
  exact ⟨Nat.add_left_cancel h, rfl⟩

theorem dab_painted {may : ℤ × ℤ → Prop} {m : Work ℚ} (h : Painted N C may m) {x y k : ℕ}
    (hx : x < N) (hy : y < N) (hk : k = 0 ∨ k = 1) (hkC : k < C) :
    Painted N C (fun c => may c ∨ k = 0 ∧ c = ((x : ℤ), (y : ℤ))) (m.dabbed N C x y k 1) := by
  have hweight : 0 ≤ m.alphaMap (cellNumber N x y * C + k) := by
    obtain ⟨k', -, hcell⟩ := h.cell x hx y hy
    rw [hcell k hkC]
    split
    · exact zero_le_one
    · exact le_refl 0
  have hmap : (m.dabbed N C x y k 1).alphaMap = SplatPainter.withRow C (cellNumber N x y)
      (SplatPainter.dabbedRow C k 1 fun a => m.alphaMap (cellNumber N x y * C + a)) m.alphaMap := rfl
  refine ⟨{ h.shape with }, h.brushSize_eq, fun x' hx' y' hy' => ?_⟩
  rw [hmap]
  by_cases heq : cellNumber N x' y' = cellNumber N x y
  · obtain ⟨rfl, rfl⟩ := cellNumber_inj hx' hx heq
    refine ⟨k, ?_, fun a ha => ?_⟩
    · exact hk.imp_left fun hk => ⟨hk, .inr ⟨hk, rfl⟩⟩
    · rw [SplatPainter.withRow_self _ _ _ ha]
      exact dabbedRow_one (w := fun a => m.alphaMap (cellNumber N x' y' * C + a)) hweight a
  · obtain ⟨k', hk', hcell⟩ := h.cell x' hx' y' hy'
    refine ⟨k', ?_, fun a ha => ?_⟩
    · exact hk'.imp_left fun hk' => ⟨hk'.1, .inl hk'.2⟩
    · rw [SplatPainter.withRow_other _ _ heq ha]
      exact hcell a ha

theorem stroke_spec (hN : 1 ≤ N) {may : ℤ × ℤ → Prop} {k : ℕ} (hk : k = 0 ∨ k = 1) (hkC : k < C)
    {x y : ℤ} (hmay : k = 0 → ∀ c ∈ brushCells N 5 x y, may c) :
    Triple (Painted N C may) (stroke x y k) fun _ => Painted N C may := by
  -- the cells that were painted may have the first texture too
  let I (cells : List (ℤ × ℤ)) (m : Work ℚ) : Prop :=
    Painted N C (fun c => may c ∨ k = 0 ∧ c ∈ cells) m ∧ m.brushStrength = 1
  have hpaint : Triple (I []) (SplatPainter.paint x y k) fun _ => I (brushCells N 5 x y) := by
    refine SplatPainter.paint_spec hN hkC I
      (fun m hm => ⟨hm.1.shape, hm.1.brushSize_eq, hm.2⟩) fun cells x y hx hy m hm => ?_
    obtain ⟨_, m', hrun, rfl⟩ := SplatPainter.dab_spec hm.1.shape hx hy hkC 1 m rfl
    refine ⟨_, _, hrun, (dab_painted hm.1 hx hy hk hkC).mono fun c hc => ?_, hm.2⟩
    rcases hc with (hc | ⟨hk, hc⟩) | ⟨hk, rfl⟩
    · exact .inl hc
    · exact .inr ⟨hk, List.mem_append_left _ hc⟩
    · exact .inr ⟨hk, List.mem_append_right _ (List.mem_singleton.mpr rfl)⟩
  have hset : Triple (Painted N C may) (SplatPainter.setBaseBrushStrength (FloatOps.ofRat 1))
      fun _ => I [] := by
    refine Triple.modify _ fun m hm => ⟨?_, rfl⟩
    have hm : Painted N C (fun c => may c ∨ k = 0 ∧ c ∈ []) m := hm.mono fun c hc => .inl hc
    exact ⟨{ hm.shape with }, hm.brushSize_eq, hm.cell⟩
  refine Triple.bind hset fun _ => ?_
  refine Triple.mono hpaint (fun _ hm => hm) fun _ m hm => hm.1.mono fun c hc => ?_
  exact hc.elim id fun hc => hmay hc.1 c hc.2

/-! ### The painter's strokes -/

/-- The height that a centre is painted by. -/
def height (s : AutomaticPainter F) (scale : F) (x y : ℤ) : F :=
  let heightMapX := clampInt (FloatOps.toInt (scale * FloatOps.ofRat x)) 0 (s.heightSize - 1)
  let heightMapY := clampInt (FloatOps.toInt (scale * FloatOps.ofRat y)) 0 (s.heightSize - 1)
  s.heightMap (getHeightMapIndex heightMapX heightMapY s.heightSize).toNat * FloatOps.ofRat 2000

/-- Where grass grows. -/
def InBand (s : AutomaticPainter ℚ) (scale : ℚ) (c : ℤ × ℤ) : Prop :=
  50 ≤ s.height scale c.1 c.2 ∧ s.height scale c.1 c.2 ≤ 550

theorem paint_painted {s₀ : AutomaticPainter ℚ} (hN : 1 ≤ N) (hC : 2 ≤ C)
    (hheight : 1 ≤ s₀.heightSize) {may : ℤ × ℤ → Prop} {c : ℤ × ℤ} (brushSize : ℤ) {scale : ℚ}
    (hmay : s₀.InBand scale c → ∀ c' ∈ brushCells N 5 c.1 c.2, may c') :
    Triple (Keeps s₀ (Painted N C may)) (paint c.1 c.2 brushSize scale) fun _ =>
      Keeps s₀ (Painted N C may) := by
  refine Triple.get_bind fun s hs => ?_
  rw [hs.heightSize_eq]
  refine Triple.bind (readHeight_spec (SplatPainter.clampInt_mem hheight _) (SplatPainter.clampInt_mem hheight _)) fun h => ?_
  refine Triple.of_imp ?_
  rintro rfl
  have hrock : Triple (Keeps s₀ (Painted N C may)) (painter (stroke c.1 c.2 1)) fun _ =>
      Keeps s₀ (Painted N C may) :=
    painter_spec (stroke_spec hN (k := 1) (.inr rfl) hC fun h => absurd h one_ne_zero)
  refine Triple.ite (fun _ => hrock) fun hhigh => ?_
  refine Triple.ite (fun _ => hrock) fun hlow => ?_
  have hband : s₀.InBand scale c :=
    ⟨not_lt.mp fun h => hlow (decide_eq_true h), not_lt.mp fun h => hhigh (decide_eq_true h)⟩
  have hshape (m : Work ℚ) (hm : Painted N C may m) : Shape N C m := hm.shape
  refine Triple.bind (painter_spec (getAlpha_spec hN hshape c.1 c.2)) fun _ => ?_
  refine Triple.bind (neighborCnt_spec hN hshape c.1 c.2 brushSize) fun cnt => ?_
  have hgrass (alpha0Chance : Bool) : Triple (Keeps s₀ (Painted N C may))
      (if alpha0Chance then painter (stroke c.1 c.2 0) else pure ()) fun _ =>
        Keeps s₀ (Painted N C may) := by
    refine Triple.ite (fun _ => ?_) fun _ => Triple.pure _ fun _ hs => hs
    exact painter_spec (stroke_spec hN (k := 0) (.inl rfl) (by omega) fun _ => hmay hband)
  refine Triple.ite (fun _ => ?_) fun _ => hgrass true
  exact Triple.bind (getChance_spec _) hgrass

theorem paintEach_painted {s₀ : AutomaticPainter ℚ} (hN : 1 ≤ N) (hC : 2 ≤ C)
    (hheight : 1 ≤ s₀.heightSize) {may : ℤ × ℤ → Prop} (brushSize : ℤ) {scale : ℚ}
    {cs : List (ℤ × ℤ)}
    (hmay : ∀ c ∈ cs, s₀.InBand scale c → ∀ c' ∈ brushCells N 5 c.1 c.2, may c') :
    Triple (Keeps s₀ (Painted N C may)) (paintEach brushSize scale cs) fun _ =>
      Keeps s₀ (Painted N C may) := by
  induction cs with
  | nil => exact Triple.pure () fun _ hs => hs
  | cons c cs ih =>
      refine Triple.bind isStopped_spec fun stopped => ?_
      refine Triple.ite (fun _ => Triple.pure () fun _ hs => hs) fun _ => ?_
      refine Triple.bind (paint_painted hN hC hheight brushSize (hmay c List.mem_cons_self)) fun _ => ?_
      exact ih fun c' hc' => hmay c' (List.mem_cons_of_mem c hc')

/-! ### The map -/

theorem mem_scan {start stop x : ℤ} (h : x ∈ scan start 2 stop) : start ≤ x ∧ x < stop := by
  obtain ⟨i, hi, rfl⟩ := List.mem_map.mp h
  have hi := List.mem_range.mp hi
  omega

theorem mem_centres (hN : 2 ≤ N) {c : ℤ × ℤ} (h : c ∈ centres N 2 1) :
    (0 ≤ c.1 ∧ c.1 < N) ∧ (0 ≤ c.2 ∧ c.2 < N) := by
  rcases List.mem_append.mp h with h | h
  · obtain ⟨y, hy, h⟩ := List.mem_flatMap.mp h
    obtain ⟨x, hx, rfl⟩ := List.mem_map.mp h
    exact ⟨mem_scan hx, mem_scan hy⟩
  · obtain ⟨y, hy, h⟩ := List.mem_flatMap.mp h
    obtain ⟨x, hx, rfl⟩ := List.mem_map.mp h
    have hx := mem_scan hx
    have hy := mem_scan (List.mem_of_mem_take hy)
    omega

/-- The brush is shifted by one cell. -/
theorem one_le_of_mem_brushAxis (hN : 2 ≤ N) {center x : ℤ} (hcenter : 0 ≤ center ∧ center < N)
    (h : x ∈ brushAxis N 5 center) : 1 ≤ x := by
  obtain ⟨i, -, rfl⟩ := List.mem_map.mp h
  rw [SplatPainter.brushCell_eq (by omega) hcenter]
  omega

/-- A cell that a centre of the band reaches. -/
def Reached (N : ℕ) (s : AutomaticPainter ℚ) (c : ℤ × ℤ) : Prop :=
  ∃ centre ∈ centres N 2 1, s.InBand (s.heightSize / N) centre ∧
    c ∈ brushCells N 5 centre.1 centre.2

theorem Reached.one_le (hN : 2 ≤ N) {s : AutomaticPainter ℚ} {c : ℤ × ℤ} (h : Reached N s c) :
    1 ≤ c.1 ∧ 1 ≤ c.2 := by
  obtain ⟨centre, hcentre, -, hc⟩ := h
  obtain ⟨hx, hy⟩ := mem_centres hN hcentre
  obtain ⟨hcx, hcy⟩ := (SplatPainter.mem_brushCells c).mp hc
  exact ⟨one_le_of_mem_brushAxis hN hx hcx, one_le_of_mem_brushAxis hN hy hcy⟩

theorem drawSplatMap_painted (hN : 2 ≤ N) (hC : 2 ≤ C) {s : AutomaticPainter ℚ}
    (hs : Shape N C s.toWork) (hbrush : s.brushSize = 5) (hheight : 1 ≤ s.heightSize)
    (hstop : s.stops s.asked = false) :
    ∃ s', drawSplatMap.run s = some ((), s') ∧ Painted N C (Reached N s) s'.toWork := by
  have hinit : Triple (fun m : Work ℚ => Shape N C m ∧ m.brushSize = 5) SplatPainter.initSplatMap
      fun _ => Painted N C (Reached N s) := by
    refine Triple.mono (SplatPainter.initSplatMap_cells 5) (fun _ hm => hm) fun _ m hm => ?_
    refine ⟨hm.1.1, hm.1.2, fun x hx y hy => ⟨1, .inr rfl, ?_⟩⟩
    exact hm.2 _ (SplatPainter.cellNumber_lt hx hy)
  have hstart : Triple (· = s) isStopped fun stopped s' =>
      Keeps s (fun m => Shape N C m ∧ m.brushSize = 5) s' ∧ stopped = false := by
    rintro _ rfl
    exact ⟨_, _, rfl, ⟨⟨hs, hbrush⟩, rfl, rfl⟩, hstop⟩
  have hdraw : Triple (· = s) drawSplatMap fun _ => Keeps s (Painted N C (Reached N s)) := by
    refine Triple.bind hstart fun stopped => Triple.of_imp ?_
    rintro rfl
    refine Triple.ite (fun h => absurd h Bool.false_ne_true) fun _ => ?_
    refine Triple.bind (painter_spec hinit) fun _ => ?_
    refine Triple.get_bind fun s₁ hs₁ => ?_
    rw [hs₁.work.brushSize_eq, hs₁.work.shape.size_eq, hs₁.heightSize_eq]
    refine paintEach_painted (by omega) hC hheight 2 fun c hc hband c' hc' => ?_
    exact ⟨c, hc, hband, hc'⟩
  obtain ⟨_, s', hrun, hs'⟩ := hdraw s rfl
  exact ⟨s', hrun, hs'.work⟩

/-- Unless it is stopped before it begins, every cell ends with one texture alone.  Grass is
only where a centre of the band has reached, so never in the first row or column, and no
access was outside a map. -/
theorem grass_in_reach (hN : 2 ≤ N) (hC : 2 ≤ C) {s : AutomaticPainter ℚ}
    (hs : Shape N C s.toWork) (hbrush : s.brushSize = 5) (hheight : 1 ≤ s.heightSize)
    (hstop : s.stops s.asked = false) :
    ∃ s', drawSplatMap.run s = some ((), s') ∧ ∀ x < N, ∀ y < N, ∃ k : ℕ,
      (k = 0 ∧ 1 ≤ x ∧ 1 ≤ y ∧ Reached N s ((x : ℕ), (y : ℕ)) ∨ k = 1) ∧
        ∀ a < C, SplatPainter.weight s'.toWork x y a = if a = k then 1 else 0 := by
  obtain ⟨s', hrun, h⟩ := drawSplatMap_painted hN hC hs hbrush hheight hstop
  refine ⟨s', hrun, fun x hx y hy => ?_⟩
  obtain ⟨k, hk, hcell⟩ := h.cell x hx y hy
  refine ⟨k, ?_, fun a ha => ?_⟩
  · rcases hk with ⟨hk, hreached⟩ | hk
    · obtain ⟨hx, hy⟩ := hreached.one_le hN
      exact .inl ⟨hk, Int.ofNat_le.mp hx, Int.ofNat_le.mp hy, hreached⟩
    · exact .inr hk
  · rw [SplatPainter.weight, h.shape.size_eq, h.shape.count_eq, SplatPainter.getSplatMapIndex_eq,
      ← Nat.cast_add, Int.toNat_natCast]
    exact hcell a ha

/-- Where all heights are 200, on a map of sixteen cells. -/
theorem grass_in_reach_sixteen :
    ∃ s', drawSplatMap.run (init (fun _ => (1 / 10 : ℚ)) 8 (fun _ => 0) 4 2 ⟨fun _ => 0, 0⟩
        fun _ => false) = some ((), s') ∧
      ∀ x < 4, ∀ y < 4, ∃ k : ℕ,
        (k = 0 ∧ 1 ≤ x ∧ 1 ≤ y ∧ Reached 4 (init (fun _ => 1 / 10) 8 (fun _ => 0) 4 2
            ⟨fun _ => 0, 0⟩ fun _ => false) ((x : ℕ), (y : ℕ)) ∨ k = 1) ∧
          ∀ a < 2, SplatPainter.weight s'.toWork x y a = if a = k then 1 else 0 :=
  grass_in_reach (by decide) (by decide) ⟨rfl, rfl, rfl⟩ rfl (by decide) rfl

end AutomaticPainter

end PCGForUnity
