/-
PCGForUnity/Generator/SplatBrush.lean

What `Normalize` and `Paint` do to the map, over any `float`.

* `normalize_spec`: `Normalize` writes the weights of one cell, all of them, and they are
  `normalizedRow` of the weights that were there;
* `paint_spec`: `Paint` adds to a weight of each cell of its brush and normalises the cell,
  one after the other, in the order of its loops.

Design.  A row is a function of the channel, so that `normalizedRow` can be computed with
no map at hand; `withRow` puts it back.  The cells of a stroke are a list, `brushCells`,
with repetitions where the brush is cut off at the edge of the map.  `Shape` is what never
changes: the sizes of the map and that every access is inside.  The two uses of this are
`SplatWeights`, where a row is a partition of 1, and `BrushFootprint`, which counts cells.
-/
import PCGForUnity.Generator.SplatPainter

namespace PCGForUnity

namespace SplatPainter

variable {F : Type}

/-- A map of `N` times `N` cells with `C` weights each. -/
structure Shape (N C : ℕ) (m : Work F) : Prop where
  size_eq : m.size = N
  count_eq : m.alphaCount = C
  allocated_eq : m.allocated = N * N * C

theorem Shape.init [FloatOps F] (alphaMap : ℕ → F) (N C : ℕ) :
    Shape N C (Work.init alphaMap N C) := ⟨rfl, rfl, rfl⟩

/-- The number of a cell. -/
def cellNumber (N : ℕ) (x y : ℕ) : ℕ := y * N + x

variable {N C : ℕ} {m₀ : Work F} {x y : ℕ} {splatIndex : ℤ}

/-- A coordinate that was clamped. -/
theorem clampInt_mem {n : ℤ} (hn : 1 ≤ n) (z : ℤ) :
    0 ≤ clampInt z 0 (n - 1) ∧ clampInt z 0 (n - 1) < n := by
  rw [clampInt, generatorClamp]
  simp only [decide_eq_true_iff]
  omega

theorem clampInt_natCast (hN : 1 ≤ N) (z : ℤ) :
    ∃ x : ℕ, x < N ∧ clampInt z 0 (N - 1) = x := by
  obtain ⟨hle, hlt⟩ := clampInt_mem (Int.ofNat_le.mpr hN) z
  exact ⟨_, (Int.toNat_lt hle).mpr hlt, (Int.toNat_of_nonneg hle).symm⟩

theorem mul_add_div_of_lt {n l a : ℕ} (ha : a < n) : (l * n + a) / n = l := by
  rw [Nat.mul_comm, Nat.mul_add_div (Nat.zero_lt_of_lt ha), Nat.div_eq_of_lt ha, Nat.add_zero]

theorem cellNumber_lt (hx : x < N) (hy : y < N) : cellNumber N x y < N * N := by
  have hmul := Nat.mul_le_mul_right N (Nat.succ_le_of_lt hy)
  rw [Nat.succ_mul] at hmul
  rw [cellNumber]
  omega

theorem getSplatMapIndex_eq (N C x y : ℕ) (a : ℤ) :
    getSplatMapIndex (y : ℤ) x a N C = (cellNumber N x y * C : ℕ) + a := by
  rw [getSplatMapIndex, cellNumber]
  push_cast
  rfl

/-- The weights of a cell stand in the map. -/
theorem Shape.inBounds (h : Shape N C m₀) {l : ℕ} (hl : l < N * N) {a : ℤ} (ha : 0 ≤ a)
    (haC : a < C) : m₀.InBounds ((l * C : ℕ) + a) := by
  have hmul := Nat.mul_le_mul_right C (Nat.succ_le_of_lt hl)
  rw [Nat.succ_mul] at hmul
  rw [Work.InBounds, h.allocated_eq]
  omega

/-! ### Accesses -/

/-- The work with other weights. -/
def Work.withAlphaMap (m : Work F) (alphaMap : ℕ → F) : Work F := { m with alphaMap }

@[simp] theorem Work.withAlphaMap_alphaMap (m : Work F) (f : ℕ → F) :
    (m.withAlphaMap f).alphaMap = f := rfl

@[simp] theorem Work.withAlphaMap_withAlphaMap (m : Work F) (f g : ℕ → F) :
    (m.withAlphaMap f).withAlphaMap g = m.withAlphaMap g := rfl

theorem Shape.withAlphaMap (h : Shape N C m₀) (f : ℕ → F) : Shape N C (m₀.withAlphaMap f) :=
  { h with }

theorem readAlpha_spec {i : ℤ} (h : m₀.InBounds i) :
    Triple (· = m₀) (readAlpha i) fun v m => m = m₀ ∧ v = m₀.alphaMap i.toNat := by
  rintro m rfl
  refine ⟨m.alphaMap i.toNat, m, ?_, rfl, rfl⟩
  show (liftM (if m.InBounds i then some (m.alphaMap i.toNat) else none : Option F) : M F F).run m
    = _
  rw [if_pos h]
  rfl

theorem writeAlpha_spec {i : ℤ} (h : m₀.InBounds i) (value : F) :
    Triple (· = m₀) (writeAlpha i value) fun _ m =>
      m = m₀.withAlphaMap (Function.update m₀.alphaMap i.toNat value) := by
  rintro m rfl
  refine ⟨(), m.withAlphaMap _, ?_, rfl⟩
  show (if m.InBounds i then _ else _ : M F Unit).run m = _
  rw [if_pos h]
  rfl

/-- The weights of a cell are written one after the other, each from itself. -/
theorem writeRow_spec (h : Shape N C m₀) {l : ℕ} (g : ℕ → F → F)
    {body : ℤ → M F Unit}
    (hbody : ∀ a : ℕ, a < C → ∀ m, Shape N C m → Triple (· = m) (body a) fun _ m' =>
      m' = m.withAlphaMap
        (Function.update m.alphaMap (l * C + a) (g a (m.alphaMap (l * C + a))))) :
    Triple (· = m₀) (forEach C body) fun _ m => m = m₀.withAlphaMap fun p =>
      if l * C ≤ p ∧ p < l * C + C then g (p - l * C) (m₀.alphaMap p) else m₀.alphaMap p := by
  -- after the first `a` of them
  let f (a p : ℕ) : F :=
    if l * C ≤ p ∧ p < l * C + a then g (p - l * C) (m₀.alphaMap p) else m₀.alphaMap p
  have hstep (a : ℕ) (ha : a < C) : Triple (· = m₀.withAlphaMap (f a)) (body a) fun _ m =>
      m = m₀.withAlphaMap (f (a + 1)) := by
    refine Triple.mono (hbody a ha _ (h.withAlphaMap _)) (fun _ hm => hm) ?_
    rintro _ m rfl
    rw [Work.withAlphaMap_withAlphaMap]
    congr 1
    funext p
    by_cases hp : p = l * C + a
    · subst hp
      simp [f]
    · rw [Function.update_of_ne hp, Work.withAlphaMap_alphaMap]
      have hiff : p < l * C + (a + 1) ↔ p < l * C + a := by omega
      simp only [f, hiff]
  have hloop := Triple.forLoop_natCast (fun a m => m = m₀.withAlphaMap (f a)) hstep
  refine Triple.mono hloop ?_ fun _ m hm => hm
  rintro m rfl
  show m = m.withAlphaMap (f 0)
  have hf : f 0 = m.alphaMap := by
    funext p
    exact if_neg (by omega)
  rw [hf]
  rfl

section

variable [FloatOps F]

/-! ### `Normalize` -/

/-- The sum of the other weights of a cell. -/
def totalAlphaOthers (C : ℕ) (k : ℕ) (w : ℕ → F) : F :=
  (List.range C).foldl (fun total i => if i ≠ k then total + w i else total) (FloatOps.ofRat 0)

/-- The weights of a cell that was normalised. -/
def normalizedRow (C : ℕ) (k : ℕ) (newAlpha : F) (w : ℕ → F) (a : ℕ) : F :=
  let newAlpha := generatorClamp FloatOps.lt newAlpha (FloatOps.ofRat 0) (FloatOps.ofRat 1)
  let total := totalAlphaOthers C k w
  if FloatOps.lt (FloatOps.ofRat (1 / 100)) total then
    if a ≠ k then w a * ((FloatOps.ofRat 1 + -newAlpha) / total) else newAlpha
  else
    if a = k then FloatOps.ofRat 1 else FloatOps.ofRat 0

/-- A map with another row. -/
def withRow (C l : ℕ) (row : ℕ → F) (f : ℕ → F) (p : ℕ) : F :=
  if l * C ≤ p ∧ p < l * C + C then row (p - l * C) else f p

omit [FloatOps F] in
theorem withRow_self (row : ℕ → F) (f : ℕ → F) (l : ℕ) {a : ℕ} (ha : a < C) :
    withRow C l row f (l * C + a) = row a := by
  rw [withRow, if_pos ⟨Nat.le_add_right _ _, Nat.add_lt_add_left ha _⟩, Nat.add_sub_cancel_left]

omit [FloatOps F] in
theorem withRow_other (row : ℕ → F) (f : ℕ → F) {l l' : ℕ} (hne : l' ≠ l) {a : ℕ} (ha : a < C) :
    withRow C l row f (l' * C + a) = f (l' * C + a) := by
  refine if_neg fun hp => hne ?_
  have h := mul_add_div_of_lt (l := l) (show l' * C + a - l * C < C by omega)
  rw [Nat.add_sub_cancel' hp.1, mul_add_div_of_lt ha] at h
  exact h

theorem totalOthers_spec (h : Shape N C m₀) {l k : ℕ} (hl : l < N * N) :
    Triple (· = m₀) ((List.range C).foldlM (fun total i => do
        if (i : ℤ) ≠ (k : ℤ) then
          pure (total + (← readAlpha ((l * C : ℕ) + (i : ℤ))))
        else
          pure total : F → ℕ → M F F) (FloatOps.ofRat 0)) fun total m =>
      m = m₀ ∧ total = totalAlphaOthers C k fun a => m₀.alphaMap (l * C + a) := by
  have hfold := Triple.foldlM (l := List.range C) (f := fun total i => do
        if (i : ℤ) ≠ (k : ℤ) then
          pure (total + (← readAlpha ((l * C : ℕ) + (i : ℤ))))
        else
          pure total) (fun pre total m =>
      m = m₀ ∧ total = pre.foldl (fun total i =>
        if i ≠ k then total + m₀.alphaMap (l * C + i) else total) (FloatOps.ofRat 0))
    ?_ (FloatOps.ofRat 0)
  · exact Triple.mono hfold (fun m hm => ⟨hm, rfl⟩) fun _ _ hm => hm
  · intro pre i total hpre
    have hi : i < C := List.mem_range.mp (hpre.subset (by simp))
    refine Triple.ite (fun hik => ?_) fun hik => ?_
    · have hik : i ≠ k := fun heq => hik (congrArg _ heq)
      refine Triple.of_imp fun htotal => ?_
      refine Triple.bind (readAlpha_spec (h.inBounds hl (Int.natCast_nonneg i)
        (Int.ofNat_lt.mpr hi))) fun v => Triple.pure _ ?_
      rintro m ⟨rfl, rfl⟩
      rw [List.foldl_append, List.foldl_cons, List.foldl_nil, if_pos hik, htotal]
      exact ⟨rfl, rfl⟩
    · have hik : ¬ i ≠ k := fun hne => hik (Int.ofNat_inj.not.mpr hne)
      refine Triple.pure _ ?_
      rintro m ⟨rfl, rfl⟩
      rw [List.foldl_append, List.foldl_cons, List.foldl_nil, if_neg hik]
      exact ⟨rfl, rfl⟩

/-- The new weight of the layer itself does not count. -/
theorem totalAlphaOthers_congr {k : ℕ} {w w' : ℕ → F} (h : ∀ a, a ≠ k → w a = w' a) :
    totalAlphaOthers C k w = totalAlphaOthers C k w' := by
  rw [totalAlphaOthers, totalAlphaOthers]
  congr 1
  funext total i
  by_cases hi : i = k
  · rw [if_neg (not_not.mpr hi), if_neg (not_not.mpr hi)]
  · rw [if_pos hi, if_pos hi, h i hi]

omit [FloatOps F] in
/-- A row is written once more, from the one that has the new weight. -/
theorem rewriteRow_spec (h : Shape N C m₀) {l k : ℕ} (hk : k < C) (v : F) {row : ℕ → F}
    (g : ℕ → F → F)
    (hg : ∀ a < C, g a (Function.update m₀.alphaMap (l * C + k) v (l * C + a)) = row a)
    {body : ℤ → M F Unit}
    (hbody : ∀ a : ℕ, a < C → ∀ m, Shape N C m → Triple (· = m) (body a) fun _ m' =>
      m' = m.withAlphaMap
        (Function.update m.alphaMap (l * C + a) (g a (m.alphaMap (l * C + a))))) :
    Triple (· = m₀.withAlphaMap (Function.update m₀.alphaMap (l * C + k) v)) (forEach C body)
      fun _ m => m = m₀.withAlphaMap (withRow C l row m₀.alphaMap) := by
  refine Triple.mono (writeRow_spec (h.withAlphaMap _) g hbody) (fun _ hm => hm) ?_
  rintro _ _ rfl
  show m₀.withAlphaMap _ = m₀.withAlphaMap _
  congr 1
  funext p
  rw [withRow]
  split
  · rename_i hp
    have h := hg (p - l * C) (by omega)
    rwa [Nat.add_sub_cancel' hp.1] at h
  · exact Function.update_of_ne (by omega) _ _

theorem normalize_spec (h : Shape N C m₀) {k : ℕ} (hx : x < N) (hy : y < N) (hk : k < C)
    (newAlpha : F) :
    Triple (· = m₀) (normalize x y newAlpha k) fun _ m => m = m₀.withAlphaMap
      (withRow C (cellNumber N x y) (normalizedRow C k newAlpha fun a =>
        m₀.alphaMap (cellNumber N x y * C + a)) m₀.alphaMap) := by
  set l := cellNumber N x y
  have hl : l < N * N := cellNumber_lt hx hy
  set v := generatorClamp FloatOps.lt newAlpha (FloatOps.ofRat 0) (FloatOps.ofRat 1)
  refine Triple.get_bind ?_
  rintro m rfl
  have hline : getSplatMapIndex (y : ℤ) x 0 m.size m.alphaCount = (l * C : ℕ) := by
    rw [h.size_eq, h.count_eq, getSplatMapIndex_eq, Int.add_zero]
  rw [hline, h.count_eq]
  have hkZ : (k : ℤ) < C := Int.ofNat_lt.mpr hk
  refine Triple.bind (writeAlpha_spec (h.inBounds hl (Int.natCast_nonneg k) hkZ) v) fun _ => ?_
  have hindex (a : ℕ) : ((l * C : ℕ) + (a : ℤ)).toNat = l * C + a := by omega
  rw [hindex]
  have hother (a : ℕ) (ha : a ≠ k) : Function.update m.alphaMap (l * C + k) v (l * C + a)
      = m.alphaMap (l * C + a) := Function.update_of_ne (by omega) _ _
  set others := totalAlphaOthers C k fun a => m.alphaMap (l * C + a)
  have hthere (a : ℕ) (ha : a < C) {m' : Work F} (hm' : Shape N C m') :
      m'.InBounds ((l * C : ℕ) + (a : ℤ)) :=
    hm'.inBounds hl (Int.natCast_nonneg a) (Int.ofNat_lt.mpr ha)
  refine Triple.bind (totalOthers_spec (h.withAlphaMap _) hl) fun total => Triple.of_imp ?_
  rintro rfl
  rw [Work.withAlphaMap_alphaMap, totalAlphaOthers_congr hother]
  refine Triple.ite (fun hlt => ?_) fun hlt => ?_
  · -- the others share what is left
    refine rewriteRow_spec h hk v (fun a w => if a ≠ k then w * ((FloatOps.ofRat 1 + -v) / others) else w)
      (fun a ha => ?_) fun a ha m' hm' => ?_
    · rw [normalizedRow, if_pos hlt]
      by_cases hak : a ≠ k
      · rw [if_pos hak, if_pos hak, hother a hak]
      · rw [if_neg hak, if_neg hak, not_not.mp hak]
        exact Function.update_self _ _ _
    · refine Triple.ite (fun hak => ?_) fun hak => Triple.pure _ ?_
      · have hak : a ≠ k := fun heq => hak (congrArg _ heq)
        refine Triple.bind (readAlpha_spec (hthere a ha hm')) fun w => Triple.of_imp ?_
        rintro rfl
        have hwrite := writeAlpha_spec (hthere a ha hm')
          (m'.alphaMap ((l * C : ℕ) + (a : ℤ)).toNat * ((FloatOps.ofRat 1 + -v) / others))
        rw [hindex] at hwrite ⊢
        rw [if_pos hak]
        exact hwrite
      · rintro _ rfl
        have hak : ¬ a ≠ k := fun hne => hak (Int.ofNat_inj.not.mpr hne)
        rw [if_neg hak, Function.update_eq_self]
        rfl
  · refine rewriteRow_spec h hk v (fun a _ => if a = k then FloatOps.ofRat 1 else FloatOps.ofRat 0)
      (fun a ha => ?_) fun a ha m' hm' => ?_
    · rw [normalizedRow, if_neg hlt]
    · have hwrite := writeAlpha_spec (hthere a ha hm')
        (if (a : ℤ) = k then FloatOps.ofRat 1 else FloatOps.ofRat 0)
      rw [hindex] at hwrite
      simp only [Int.ofNat_inj] at hwrite ⊢
      exact hwrite

/-! ### `Paint` -/

/-- The body of `Paint`'s loops, for a cell. -/
def dab (N C : ℕ) (rx ry splatIndex : ℤ) (brushStrength : F) : M F Unit := do
  let index := getSplatMapIndex ry rx splatIndex N C
  let alpha := (← readAlpha index) + FloatOps.ofRat 1 * brushStrength
  writeAlpha index alpha
  call rx ry alpha splatIndex

/-- The row of a cell after it. -/
def dabbedRow (C k : ℕ) (brushStrength : F) (w : ℕ → F) : ℕ → F :=
  let alpha := w k + FloatOps.ofRat 1 * brushStrength
  normalizedRow C k alpha (Function.update w k alpha)

/-- The work behind `Normalize` of one cell. -/
def Work.dabbed (m : Work F) (N C x y k : ℕ) (brushStrength : F) : Work F :=
  { m with
    alphaMap := withRow C (cellNumber N x y)
      (dabbedRow C k brushStrength fun a => m.alphaMap (cellNumber N x y * C + a)) m.alphaMap
    normalised := m.normalised ++ [((x : ℤ), (y : ℤ))] }

theorem dab_spec (h : Shape N C m₀) {k : ℕ} (hx : x < N) (hy : y < N) (hk : k < C) (strength : F) :
    Triple (· = m₀) (dab N C x y k strength) fun _ m => m = m₀.dabbed N C x y k strength := by
  have hl := cellNumber_lt hx hy
  have hindex : getSplatMapIndex (y : ℤ) x k N C = (cellNumber N x y * C : ℕ) + (k : ℤ) :=
    getSplatMapIndex_eq N C x y k
  have hthere := h.inBounds hl (Int.natCast_nonneg k) (Int.ofNat_lt.mpr hk)
  have hnat : ((cellNumber N x y * C : ℕ) + (k : ℤ)).toNat = cellNumber N x y * C + k := by omega
  rw [dab, hindex]
  refine Triple.bind (readAlpha_spec hthere) fun w => Triple.of_imp ?_
  rintro rfl
  refine Triple.bind (writeAlpha_spec hthere _) fun _ => ?_
  refine Triple.bind (normalize_spec (h.withAlphaMap _) hx hy hk _) fun _ => ?_
  refine Triple.modify _ ?_
  rintro _ rfl
  rw [hnat]
  set l := cellNumber N x y
  set alpha := m₀.alphaMap (l * C + k) + FloatOps.ofRat 1 * strength
  have hrow : (fun a => Function.update m₀.alphaMap (l * C + k) alpha (l * C + a))
      = Function.update (fun a => m₀.alphaMap (l * C + a)) k alpha := by
    funext a
    by_cases ha : a = k
    · rw [ha, Function.update_self, Function.update_self]
    · rw [Function.update_of_ne ha, Function.update_of_ne (by omega)]
  have hmap (row : ℕ → F) : withRow C l row (Function.update m₀.alphaMap (l * C + k) alpha)
      = withRow C l row m₀.alphaMap := by
    funext p
    rw [withRow, withRow]
    split
    · rfl
    · exact Function.update_of_ne (by omega) _ _
  show ({ m₀.withAlphaMap _ with normalised := _ } : Work F) = _
  rw [Work.withAlphaMap_alphaMap, hrow, hmap]
  rfl

/-! ### The cells of the brush -/

/-- How many cells the brush covers on one axis, and where it paints the `i`-th of them. -/
def brushWidth (N b center : ℤ) : ℤ :=
  clampInt (center + b.tdiv 2 + b.tmod 2) 0 N - clampInt (center - b.tdiv 2) 0 (N - 1)

/-- The cell that column `i` of the brush is for, as coded. -/
def brushCell (N b center i : ℤ) : ℤ :=
  clampInt ((clampInt (center - b.tdiv 2) 0 (N - 1) + i) - (center - b.tdiv 2 + b.tmod 2) + center)
    0 (N - 1)

/-- The columns, or rows, that a stroke writes. -/
def brushAxis (N b center : ℤ) : List ℤ :=
  (List.range (brushWidth N b center).toNat).map fun i : ℕ => brushCell N b center i

/-- The cells that `Paint` normalises. -/
def brushCells (N b xCenter yCenter : ℤ) : List (ℤ × ℤ) :=
  (brushAxis N b xCenter).flatMap fun x => (brushAxis N b yCenter).map fun y => (x, y)

theorem brushCell_mem (hN : 1 ≤ N) (b center i : ℤ) :
    ∃ x : ℕ, x < N ∧ brushCell N b center i = x := clampInt_natCast hN _

/-- `Paint`, by what holds when some of the cells are done. -/
theorem paint_spec (hN : 1 ≤ N) {k : ℕ} (hk : k < C) {b xCenter yCenter : ℤ} {strength : F}
    (I : List (ℤ × ℤ) → Work F → Prop)
    (hI : ∀ m, I [] m → Shape N C m ∧ m.brushSize = b ∧ m.brushStrength = strength)
    (hdab : ∀ cells, ∀ x y : ℕ, x < N → y < N →
      Triple (I cells) (dab N C x y k strength) fun _ => I (cells ++ [((x : ℤ), (y : ℤ))])) :
    Triple (I []) (paint xCenter yCenter k) fun _ => I (brushCells N b xCenter yCenter) := by
  refine Triple.get_bind fun m hm => ?_
  obtain ⟨hm, rfl, rfl⟩ := hI m hm
  have hk : ¬ (k : ℤ) ≥ C := not_le.mpr (Int.ofNat_lt.mpr hk)
  rw [hm.count_eq, hm.size_eq, if_neg hk]
  -- the columns are appended one after the other, and to each its cells
  let column (i : ℕ) : List (ℤ × ℤ) :=
    (List.range (brushWidth N m.brushSize yCenter).toNat).flatMap fun j : ℕ =>
      [(brushCell N m.brushSize xCenter i, brushCell N m.brushSize yCenter j)]
  have hcells : brushCells N m.brushSize xCenter yCenter =
      [] ++ (List.range (brushWidth N m.brushSize xCenter).toNat).flatMap column := by
    rw [brushCells, brushAxis, brushAxis, List.nil_append, List.flatMap_map]
    congr 1
    funext i
    rw [List.map_map, List.map_eq_flatMap]
    rfl
  rw [hcells]
  refine Triple.forLoop_append I column (fun pre i _ => ?_) []
  refine Triple.forLoop_append I _ (fun pre j _ => ?_) pre
  obtain ⟨x, hx, hxe⟩ := brushCell_mem hN m.brushSize xCenter i
  obtain ⟨y, hy, hye⟩ := brushCell_mem hN m.brushSize yCenter j
  have h := hdab pre x y hx hy
  rw [← hxe, ← hye] at h
  exact h

/-! ### `InitSplatMap` -/

/-- Each cell has the second texture alone. -/
theorem initSplatMap_cells (b : ℤ) :
    Triple (fun m : Work F => Shape N C m ∧ m.brushSize = b) initSplatMap fun _ m =>
      (Shape N C m ∧ m.brushSize = b) ∧ ∀ l < N * N, ∀ a < C,
        m.alphaMap (l * C + a) = if a = 1 then FloatOps.ofRat 1 else FloatOps.ofRat 0 := by
  refine Triple.get_bind fun m hm => ?_
  rw [hm.1.size_eq, hm.1.count_eq]
  let row (a : ℕ) : F := if a = 1 then FloatOps.ofRat 1 else FloatOps.ofRat 0
  -- the cells of the columns done so far have it
  let I (cells : List (ℕ × ℕ)) (m : Work F) : Prop := (Shape N C m ∧ m.brushSize = b) ∧
    ∀ c ∈ cells, ∀ a < C, m.alphaMap (cellNumber N c.1 c.2 * C + a) = row a
  have hcell (pre : List (ℕ × ℕ)) {x y : ℕ} (hx : x < N) (hy : y < N) :
      Triple (I pre) (forEach C fun a => writeAlpha (getSplatMapIndex (y : ℤ) x a N C)
        (if a = 1 then FloatOps.ofRat 1 else FloatOps.ofRat 0) : M F Unit) fun _ =>
          I (pre ++ [(x, y)]) := by
    rintro m ⟨hm, hcells⟩
    have hl := cellNumber_lt hx hy
    have hrow : Triple (· = m) (forEach C fun a => writeAlpha (getSplatMapIndex (y : ℤ) x a N C)
        (if a = 1 then FloatOps.ofRat 1 else FloatOps.ofRat 0) : M F Unit) fun _ m' =>
          m' = m.withAlphaMap (withRow C (cellNumber N x y) row m.alphaMap) := by
      refine writeRow_spec hm.1 (fun a _ => row a) fun a ha m' hm' => ?_
      have hwrite := writeAlpha_spec
        (hm'.inBounds hl (Int.natCast_nonneg a) (Int.ofNat_lt.mpr ha))
        (if (a : ℤ) = 1 then (FloatOps.ofRat 1 : F) else FloatOps.ofRat 0)
      have hone : (a : ℤ) = 1 ↔ a = 1 := by omega
      rw [← Nat.cast_add, Int.toNat_natCast, Nat.cast_add] at hwrite
      rw [getSplatMapIndex_eq]
      simp only [hone] at hwrite ⊢
      exact hwrite
    obtain ⟨_, _, hrun, rfl⟩ := hrow m rfl
    refine ⟨_, _, hrun, ⟨hm.1.withAlphaMap _, hm.2⟩, fun c hc a ha => ?_⟩
    rw [Work.withAlphaMap_alphaMap]
    by_cases heq : cellNumber N c.1 c.2 = cellNumber N x y
    · rw [heq, withRow_self row m.alphaMap _ ha]
    · rw [withRow_other row m.alphaMap heq ha]
      rcases List.mem_append.mp hc with hc | hc
      · exact hcells c hc a ha
      · exact absurd (by rw [List.mem_singleton.mp hc]) heq
  refine Triple.mono (Triple.forLoop_append I (fun x => (List.range N).flatMap fun y => [(x, y)])
    (fun pre x hx => ?_) []) (fun m hm => ⟨hm, fun c hc => absurd hc List.not_mem_nil⟩) ?_
  · exact Triple.forLoop_append I (fun y => [(x, y)])
      (fun pre y hy => hcell pre (Int.ofNat_lt.mp hx) (Int.ofNat_lt.mp hy)) pre
  · rintro _ m ⟨hm, hcells⟩
    refine ⟨hm, fun l hl => ?_⟩
    have hN : 0 < N := Nat.pos_of_mul_pos_left (Nat.zero_lt_of_lt hl)
    have hmem : (l % N, l / N) ∈ [] ++ (List.range (N : ℤ).toNat).flatMap fun x =>
        (List.range N).flatMap fun y => [(x, y)] := by
      simp only [List.nil_append, List.mem_flatMap, List.mem_range, List.mem_singleton]
      exact ⟨l % N, Nat.mod_lt l hN, l / N, Nat.div_lt_of_lt_mul hl, rfl⟩
    have h := hcells _ hmem
    rwa [cellNumber, Nat.mul_comm (l / N), Nat.div_add_mod] at h

end

end SplatPainter

end PCGForUnity
