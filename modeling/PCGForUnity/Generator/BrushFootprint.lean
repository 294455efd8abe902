/-
PCGForUnity/Generator/BrushFootprint.lean

Which cells `Paint` normalises.  For a brush of size `b` with its centre on a map of `N`
times `N` cells,

    exactly the cells of the footprint, each once
      ↔  b = 3  ∨  N = 1  ∨  b = 1 and the centre is (0, 0)

(`paint_footprint_iff`).

The footprint of a brush is where its bounds are clamped to, but a cell is painted at its
offset from the centre, which has the radius added back and the fraction not: it is shifted
by the radius less the fraction.  The shift is zero for a brush of size 3 only.

Design.  The two axes do not depend on each other, so a stroke is a product of two lists of
coordinates, and the question is one about a list of clamped integers (`One axis`).  Counting
says both halves at once: a cell outside the footprint is hit no time, one inside once.
-/
import PCGForUnity.Generator.SplatBrush
import Mathlib.Data.List.Nodup
import Mathlib.Data.List.ProdSigma

namespace PCGForUnity

namespace SplatPainter

variable {F : Type} {N C : ℕ} {b center xCenter yCenter : ℤ}

/-- The footprint on one axis, and both. -/
def OnAxis (N b center x : ℤ) : Prop :=
  max 0 (center - b / 2) ≤ x ∧ x < min N (center + b / 2 + b % 2)

instance (N b center x : ℤ) : Decidable (OnAxis N b center x) :=
  inferInstanceAs (Decidable (_ ∧ _))

/-- The cells that a stroke should reach. -/
def InFootprint (N b xCenter yCenter : ℤ) (c : ℤ × ℤ) : Prop :=
  OnAxis N b xCenter c.1 ∧ OnAxis N b yCenter c.2

instance (N b xCenter yCenter : ℤ) (c : ℤ × ℤ) : Decidable (InFootprint N b xCenter yCenter c) :=
  inferInstanceAs (Decidable (_ ∧ _))

/-! ### One axis -/

theorem clampInt_eq {low high : ℤ} (h : low ≤ high) (x : ℤ) :
    clampInt x low high = max low (min high x) := by
  rw [clampInt, generatorClamp]
  simp only [decide_eq_true_iff]
  omega

theorem brushWidth_eq (hb : 1 ≤ b) (hcenter : 0 ≤ center ∧ center < N) :
    brushWidth N b center = min (N : ℤ) (center + b / 2 + b % 2) - max 0 (center - b / 2) := by
  have hN : (0 : ℤ) ≤ N - 1 := by omega
  rw [brushWidth, clampInt_eq (Int.natCast_nonneg N), clampInt_eq hN,
    Int.tdiv_eq_ediv_of_nonneg (by omega), Int.tmod_eq_emod_of_nonneg (by omega)]
  omega

theorem brushCell_eq (hb : 1 ≤ b) (hcenter : 0 ≤ center ∧ center < N) (i : ℤ) :
    brushCell N b center i =
      max 0 (min (N - 1 : ℤ) (max 0 (center - b / 2) + i + (b / 2 - b % 2))) := by
  have hN : (0 : ℤ) ≤ N - 1 := by omega
  rw [brushCell, clampInt_eq hN, clampInt_eq hN, Int.tdiv_eq_ediv_of_nonneg (by omega),
    Int.tmod_eq_emod_of_nonneg (by omega)]
  omega

/-- When the shift is zero, or the clamping undoes it. -/
def RightOn (N b center : ℤ) : Prop := b = 3 ∨ N = 1 ∨ b = 1 ∧ center = 0

theorem brushAxis_of_right (hb : 1 ≤ b) (hcenter : 0 ≤ center ∧ center < N)
    (h : RightOn N b center) :
    brushAxis N b center = (List.range (brushWidth N b center).toNat).map fun i : ℕ =>
      max 0 (center - b / 2) + (i : ℤ) := by
  refine List.map_congr_left fun i hi => ?_
  have hi : (i : ℤ) < brushWidth N b center := by
    have hi := List.mem_range.mp hi
    omega
  rw [brushWidth_eq hb hcenter] at hi
  rw [brushCell_eq hb hcenter]
  rcases h with rfl | hN | ⟨rfl, rfl⟩
  · omega
  · omega
  · omega

theorem brushAxis_nodup (hb : 1 ≤ b) (hcenter : 0 ≤ center ∧ center < N)
    (h : RightOn N b center) : (brushAxis N b center).Nodup := by
  rw [brushAxis_of_right hb hcenter h]
  exact List.Nodup.map (fun i j hij => by simpa using hij) List.nodup_range

theorem mem_brushAxis (hb : 1 ≤ b) (hcenter : 0 ≤ center ∧ center < N) (h : RightOn N b center)
    (x : ℤ) : x ∈ brushAxis N b center ↔ OnAxis N b center x := by
  rw [brushAxis_of_right hb hcenter h, List.mem_map, OnAxis, brushWidth_eq hb hcenter]
  constructor
  · rintro ⟨i, hi, rfl⟩
    have hi := List.mem_range.mp hi
    omega
  · rintro ⟨hle, hlt⟩
    refine ⟨(x - max 0 (center - b / 2)).toNat, List.mem_range.mpr ?_, ?_⟩
    · omega
    · omega

/-- The first cell of the axis. -/
theorem onAxis_first (hb : 1 ≤ b) (hcenter : 0 ≤ center ∧ center < N) :
    OnAxis N b center (max 0 (center - b / 2)) := by
  constructor
  · omega
  · omega

/-- A shift to the right leaves it out, and a shift to the left leaves out the only one. -/
theorem first_not_mem (hb : 1 ≤ b) (hcenter : 0 ≤ center ∧ center < N)
    (h : ¬ RightOn N b center) : max 0 (center - b / 2) ∉ brushAxis N b center := by
  intro hmem
  obtain ⟨i, hi, heq⟩ := List.mem_map.mp hmem
  have hi := List.mem_range.mp hi
  rw [brushWidth_eq hb hcenter] at hi
  rw [brushCell_eq hb hcenter] at heq
  refine h ?_
  rw [RightOn]
  omega

/-! ### The cells -/

theorem mem_brushCells (c : ℤ × ℤ) :
    c ∈ brushCells N b xCenter yCenter ↔
      c.1 ∈ brushAxis N b xCenter ∧ c.2 ∈ brushAxis N b yCenter :=
  List.mem_product (a := c.1) (b := c.2)

theorem count_brushCells_of_right (hb : 1 ≤ b) (hx : 0 ≤ xCenter ∧ xCenter < N)
    (hy : 0 ≤ yCenter ∧ yCenter < N) (hxr : RightOn N b xCenter) (hyr : RightOn N b yCenter)
    (c : ℤ × ℤ) :
    (brushCells N b xCenter yCenter).count c =
      if InFootprint N b xCenter yCenter c then 1 else 0 := by
  have hmem : c ∈ brushCells N b xCenter yCenter ↔ InFootprint N b xCenter yCenter c := by
    rw [mem_brushCells, mem_brushAxis hb hx hxr, mem_brushAxis hb hy hyr, InFootprint]
  have hnodup : (brushCells N b xCenter yCenter).Nodup :=
    (brushAxis_nodup hb hx hxr).product (brushAxis_nodup hb hy hyr)
  split
  · exact List.count_eq_one_of_mem hnodup (hmem.mpr ‹_›)
  · exact List.count_eq_zero_of_not_mem (mt hmem.mp ‹_›)

theorem count_brushCells_iff (hb : 1 ≤ b) (hx : 0 ≤ xCenter ∧ xCenter < N)
    (hy : 0 ≤ yCenter ∧ yCenter < N) :
    (∀ c, (brushCells N b xCenter yCenter).count c =
      if InFootprint N b xCenter yCenter c then 1 else 0) ↔
        RightOn N b xCenter ∧ RightOn N b yCenter := by
  constructor
  · intro h
    have hfirst := h (max 0 (xCenter - b / 2), max 0 (yCenter - b / 2))
    rw [if_pos ⟨onAxis_first hb hx, onAxis_first hb hy⟩] at hfirst
    have hmem := (mem_brushCells _).mp (List.count_pos_iff.mp (hfirst ▸ Nat.one_pos))
    constructor
    · by_contra hnot
      exact first_not_mem hb hx hnot hmem.1
    · by_contra hnot
      exact first_not_mem hb hy hnot hmem.2
  · rintro ⟨hxr, hyr⟩
    exact count_brushCells_of_right hb hx hy hxr hyr

/-! ### `Paint` -/

variable [FloatOps F] {m₀ : Work F}

/-- `Paint` normalises the cells of its brush, whatever they are. -/
theorem paint_normalised (hN : 1 ≤ N) (hm₀ : Shape N C m₀) (xCenter yCenter : ℤ) {k : ℕ}
    (hk : k < C) :
    ∃ m, (paint xCenter yCenter k).run m₀ = some ((), m) ∧
      m.normalised = m₀.normalised ++ brushCells N m₀.brushSize xCenter yCenter := by
  let I (cells : List (ℤ × ℤ)) (m : Work F) : Prop :=
    (Shape N C m ∧ m.brushSize = m₀.brushSize ∧ m.brushStrength = m₀.brushStrength) ∧
      m.normalised = m₀.normalised ++ cells
  have hpaint : Triple (I []) (paint xCenter yCenter k) fun _ =>
      I (brushCells N m₀.brushSize xCenter yCenter) :=
    paint_spec hN hk I (fun m hm => hm.1) fun cells x y hx hy m hm => by
      obtain ⟨_, m', hrun, rfl⟩ := dab_spec hm.1.1 hx hy hk m₀.brushStrength m rfl
      refine ⟨_, _, hrun, ⟨{ hm.1.1 with }, hm.1.2⟩, ?_⟩
      rw [← List.append_assoc, ← hm.2]
      rfl
  obtain ⟨_, m, hrun, -, hm⟩ := hpaint m₀ ⟨⟨hm₀, rfl, rfl⟩, (List.append_nil _).symm⟩
  exact ⟨m, hrun, hm⟩

/-- It normalises the cells of its footprint once each and no other, exactly when the
brush has size 3, or the map one cell, or the brush one cell and it stands in the first
corner. -/
theorem paint_footprint_iff (hN : 1 ≤ N) (hm₀ : Shape N C m₀) (hb : 1 ≤ m₀.brushSize)
    (hx : 0 ≤ xCenter ∧ xCenter < N) (hy : 0 ≤ yCenter ∧ yCenter < N) {k : ℕ} (hk : k < C) :
    ∃ m cells, (paint xCenter yCenter k).run m₀ = some ((), m) ∧
      m.normalised = m₀.normalised ++ cells ∧
      ((∀ c, cells.count c = if InFootprint N m₀.brushSize xCenter yCenter c then 1 else 0) ↔
        m₀.brushSize = 3 ∨ N = 1 ∨ m₀.brushSize = 1 ∧ xCenter = 0 ∧ yCenter = 0) := by
  obtain ⟨m, hrun, hm⟩ := paint_normalised hN hm₀ xCenter yCenter hk
  refine ⟨m, _, hrun, hm, (count_brushCells_iff hb hx hy).trans ?_⟩
  rw [RightOn, RightOn]
  omega

/-- The brush of 5 that `Init` sets, in the middle of a map. -/
theorem paint_footprint_iff_of_init :
    ∃ m cells, (paint 4 4 (0 : ℕ)).run (Work.init (fun _ => (0 : ℚ)) 8 2) = some ((), m) ∧
      m.normalised = [] ++ cells ∧
      ((∀ c, cells.count c = if InFootprint (8 : ℕ) 5 4 4 c then 1 else 0) ↔
        (5 : ℤ) = 3 ∨ 8 = 1 ∨ (5 : ℤ) = 1 ∧ (4 : ℤ) = 0 ∧ (4 : ℤ) = 0) :=
  paint_footprint_iff (by decide) (Shape.init _ 8 2) (by decide) (by decide) (by decide) (by decide)

/-- Its first cell is never painted. -/
theorem paint_misses_first :
    ∃ m, (paint 4 4 (0 : ℕ)).run (Work.init (fun _ => (0 : ℚ)) 8 2) = some ((), m) ∧
      InFootprint (8 : ℕ) 5 4 4 (2, 2) ∧ m.normalised.count (2, 2) = 0 := by
  obtain ⟨m, hrun, hm⟩ := paint_normalised (by decide) (Shape.init (fun _ => (0 : ℚ)) 8 2) 4 4
    (show 0 < 2 by decide)
  refine ⟨m, hrun, by decide, ?_⟩
  rw [hm]
  decide

end SplatPainter

end PCGForUnity
