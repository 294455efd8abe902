/-
PCGForUnity/Generator/SplatWeights.lean

The weights of a cell sum to one, in exact arithmetic (`weights_sum_to_one`).  After
`InitSplatMap` and any strokes, of any size and strength and anywhere, every cell of the map
has weights between 0 and 1 with the sum 1, and no stroke has accessed anything outside the
map.

Design.  `Paint` first adds to a weight, which breaks the sum; `Normalize` looks only at the
other weights of the cell, and whatever the new one is gives them the rest, or all of it to
the new one if they are nearly nothing.  So `Normal` is what `Normalize` makes of any row
whose other weights are not negative, and it is kept by every other cell because a stroke
writes one cell at a time (`SplatBrush.paint_spec`).

The induction over the cells of a stroke needs that all cells are normal before each dab,
also where the brush, cut off at the edge, comes to a cell for the second time.
-/
import PCGForUnity.Generator.SplatBrush
import Mathlib.Algebra.BigOperators.Group.Finset.Piecewise
import Mathlib.Algebra.BigOperators.Ring.Finset
import Mathlib.Algebra.Order.BigOperators.Group.Finset
import Mathlib.Data.Rat.Cast.Order
import Mathlib.Tactic.NormNum
import Mathlib.Tactic.Ring

namespace PCGForUnity

namespace SplatPainter

open Finset

variable {N C k : ℕ} {m m₀ : Work ℚ} {f : ℕ → ℚ}

/-- The weights of a cell. -/
structure Normal (C : ℕ) (w : ℕ → ℚ) : Prop where
  nonneg : ∀ a < C, 0 ≤ w a
  sum : ∑ a ∈ range C, w a = 1

theorem Normal.congr {w w' : ℕ → ℚ} (h : Normal C w) (heq : ∀ a < C, w' a = w a) : Normal C w' where
  nonneg a ha := by
    rw [heq a ha]
    exact h.nonneg a ha
  sum := by
    rw [← h.sum]
    exact sum_congr rfl fun a ha => heq a (mem_range.mp ha)

theorem Normal.le_one {w : ℕ → ℚ} (h : Normal C w) {a : ℕ} (ha : a < C) : w a ≤ 1 := by
  rw [← h.sum]
  exact single_le_sum (fun i hi => h.nonneg i (mem_range.mp hi)) (mem_range.mpr ha)

/-- One weight has it all. -/
theorem normal_single (hk : k < C) : Normal C fun a => if a = k then 1 else 0 where
  nonneg a _ := by
    split
    · exact zero_le_one
    · exact le_refl 0
  sum := by
    rw [sum_ite_eq' (range C) k, if_pos (mem_range.mpr hk)]

/-! ### `Normalize` -/

theorem totalAlphaOthers_eq (C k : ℕ) (w : ℕ → ℚ) :
    totalAlphaOthers C k w = ∑ a ∈ range C, if a ≠ k then w a else 0 := by
  induction C with
  | zero => rfl
  | succ C ih =>
      rw [totalAlphaOthers, List.range_succ, List.foldl_append, List.foldl_cons, List.foldl_nil,
        ← totalAlphaOthers, ih, sum_range_succ]
      split
      · rfl
      · rw [add_zero]

theorem clamp_mem (v : ℚ) :
    0 ≤ generatorClamp FloatOps.lt v (FloatOps.ofRat 0) (FloatOps.ofRat 1) ∧
      generatorClamp FloatOps.lt v (FloatOps.ofRat 0) (FloatOps.ofRat 1) ≤ 1 := by
  show 0 ≤ (if decide (v < 0) = true then (0 : ℚ) else if decide (1 < v) = true then 1 else v) ∧
    (if decide (v < 0) = true then (0 : ℚ) else if decide (1 < v) = true then 1 else v) ≤ 1
  simp only [decide_eq_true_iff]
  split
  · exact ⟨le_refl 0, zero_le_one⟩
  · split
    · exact ⟨zero_le_one, le_refl 1⟩
    · exact ⟨not_lt.mp ‹_›, not_lt.mp ‹_›⟩

/-- Whatever the new weight is. -/
theorem normalizedRow_normal {w : ℕ → ℚ} (hk : k < C) (hw : ∀ a < C, a ≠ k → 0 ≤ w a) (v : ℚ) :
    Normal C (normalizedRow C k v w) := by
  obtain ⟨hzero, hone⟩ := clamp_mem v
  set newAlpha := generatorClamp FloatOps.lt v (FloatOps.ofRat 0) (FloatOps.ofRat 1)
  set total := totalAlphaOthers C k w
  by_cases hlt : (1 / 100 : ℚ) < total
  · have hpos : 0 < total := lt_trans (by norm_num) hlt
    have hrow : ∀ a, normalizedRow C k v w a
        = if a ≠ k then w a * ((1 + -newAlpha) / total) else newAlpha :=
      fun a => if_pos (decide_eq_true hlt)
    refine Normal.congr (w := fun a =>
      if a ≠ k then w a * ((1 + -newAlpha) / total) else newAlpha) ?_ fun a _ => hrow a
    constructor
    · intro a ha
      split
      · rename_i hak
        refine mul_nonneg (hw a ha hak) (div_nonneg ?_ hpos.le)
        rw [← sub_eq_add_neg]
        exact sub_nonneg.mpr hone
      · exact hzero
    · -- the others get `1 - newAlpha` together
      have hsplit (a : ℕ) : (if a ≠ k then w a * ((1 + -newAlpha) / total) else newAlpha)
          = (if a ≠ k then w a else 0) * ((1 + -newAlpha) / total)
            + if a = k then newAlpha else 0 := by
        by_cases hak : a = k
        · rw [if_neg (not_not.mpr hak), if_neg (not_not.mpr hak), if_pos hak, zero_mul, zero_add]
        · rw [if_pos hak, if_pos hak, if_neg hak, add_zero]
      simp only [hsplit]
      rw [sum_add_distrib, ← sum_mul, ← totalAlphaOthers_eq, sum_ite_eq' (range C) k,
        if_pos (mem_range.mpr hk), mul_div_cancel₀ _ hpos.ne']
      ring
  · refine (normal_single hk).congr fun a _ => if_neg ?_
    show ¬ decide ((1 / 100 : ℚ) < total) = true
    simpa using hlt

/-! ### The map -/

/-- All cells are normalised. -/
def AllNormal (N C : ℕ) (m : Work ℚ) : Prop :=
  ∀ l < N * N, Normal C fun a => m.alphaMap (l * C + a)

theorem AllNormal.withRow (h : AllNormal N C m) {l : ℕ} {row : ℕ → ℚ} (hrow : Normal C row)
    {m' : Work ℚ} (hm' : m'.alphaMap = SplatPainter.withRow C l row m.alphaMap) :
    AllNormal N C m' := by
  intro l' hl'
  rw [hm']
  by_cases heq : l' = l
  · subst heq
    exact hrow.congr fun a ha => withRow_self row _ l' ha
  · exact (h l' hl').congr fun a ha => withRow_other row _ heq ha

/-- The row of a cell that was painted. -/
theorem AllNormal.dabbed (h : AllNormal N C m) {x y : ℕ} (hx : x < N) (hy : y < N) (hk : k < C)
    (strength : ℚ) : AllNormal N C (m.dabbed N C x y k strength) := by
  refine h.withRow (normalizedRow_normal hk ?_ _) rfl
  intro a ha hak
  rw [Function.update_of_ne hak]
  exact (h _ (cellNumber_lt hx hy)).nonneg a ha

/-! ### `InitSplatMap` and `Paint` -/

theorem initSplatMap_spec (hC : 2 ≤ C) :
    Triple (Shape N C) initSplatMap fun _ m => Shape N C m ∧ AllNormal N C m := by
  rintro m hm
  obtain ⟨_, m', hrun, hm', hcells⟩ := initSplatMap_cells m.brushSize m ⟨hm, rfl⟩
  exact ⟨_, m', hrun, hm'.1, fun l hl => (normal_single hC).congr fun a ha => hcells l hl a ha⟩

theorem paint_normal (hN : 1 ≤ N) {splatIndex : ℤ} (hsplat : 0 ≤ splatIndex)
    (xCenter yCenter : ℤ) :
    Triple (fun m => Shape N C m ∧ AllNormal N C m) (paint xCenter yCenter splatIndex) fun _ m =>
      Shape N C m ∧ AllNormal N C m := by
  rintro m₀ ⟨hm₀, hnormal⟩
  obtain ⟨k, rfl⟩ := Int.eq_ofNat_of_zero_le hsplat
  by_cases hk : k < C
  · let I (_ : List (ℤ × ℤ)) (m : Work ℚ) : Prop := (Shape N C m ∧ AllNormal N C m) ∧
      m.brushSize = m₀.brushSize ∧ m.brushStrength = m₀.brushStrength
    have hpaint : Triple (I []) (paint xCenter yCenter k) fun _ =>
        I (brushCells N m₀.brushSize xCenter yCenter) :=
      paint_spec hN hk I (fun m hm => ⟨hm.1.1, hm.2⟩) fun _ x y hx hy m hm => by
        obtain ⟨_, m', hrun, rfl⟩ := dab_spec hm.1.1 hx hy hk m₀.brushStrength m rfl
        exact ⟨_, _, hrun, ⟨{ hm.1.1 with }, hm.1.2.dabbed hx hy hk _⟩, hm.2⟩
    obtain ⟨_, m, hrun, hm, -⟩ := hpaint m₀ ⟨⟨hm₀, hnormal⟩, rfl, rfl⟩
    exact ⟨_, m, hrun, hm⟩
  · -- there is no such texture
    refine ⟨(), m₀, ?_, hm₀, hnormal⟩
    have hk : (k : ℤ) ≥ m₀.alphaCount := by
      rw [hm₀.count_eq]
      exact Int.ofNat_le.mpr (not_lt.mp hk)
    show (if (k : ℤ) ≥ m₀.alphaCount then _ else _ : M ℚ Unit).run m₀ = _
    rw [if_pos hk]
    rfl

/-- A call of `Paint`, and the brush that was set before it. -/
structure Stroke where
  brushSize : ℤ
  strength : ℚ
  xCenter : ℤ
  yCenter : ℤ
  splatIndex : ℤ

/-- A stroke: the brush is set, and then `Paint` is called. -/
def Stroke.paint (s : Stroke) : M ℚ Unit := do
  resetBrush s.brushSize
  setBaseBrushStrength s.strength
  SplatPainter.paint s.xCenter s.yCenter s.splatIndex

/-- Strokes, one after another. -/
def paintAll : List Stroke → M ℚ Unit
  | [] => pure ()
  | s :: strokes => do
      s.paint
      paintAll strokes

theorem Stroke.paint_normal (hN : 1 ≤ N) {s : Stroke} (hsplat : 0 ≤ s.splatIndex) :
    Triple (fun m => Shape N C m ∧ AllNormal N C m) s.paint fun _ m =>
      Shape N C m ∧ AllNormal N C m := by
  refine Triple.bind (Q := fun _ m => Shape N C m ∧ AllNormal N C m)
    (Triple.modify _ fun m hm => ⟨{ hm.1 with }, hm.2⟩) fun _ => ?_
  refine Triple.bind (Q := fun _ m => Shape N C m ∧ AllNormal N C m)
    (Triple.modify _ fun m hm => ⟨{ hm.1 with }, hm.2⟩) fun _ => ?_
  exact SplatPainter.paint_normal hN hsplat s.xCenter s.yCenter

theorem paintAll_normal (hN : 1 ≤ N) {strokes : List Stroke}
    (hsplat : ∀ s ∈ strokes, 0 ≤ s.splatIndex) :
    Triple (fun m => Shape N C m ∧ AllNormal N C m) (paintAll strokes) fun _ m =>
      Shape N C m ∧ AllNormal N C m := by
  induction strokes with
  | nil => exact Triple.pure () fun _ hm => hm
  | cons s strokes ih =>
      exact Triple.bind (Stroke.paint_normal hN (hsplat s List.mem_cons_self)) fun _ =>
        ih fun s hs => hsplat s (List.mem_cons_of_mem _ hs)

/-- A weight, where `GetAlpha` finds it. -/
def weight (m : Work ℚ) (x y a : ℕ) : ℚ :=
  m.alphaMap (getSplatMapIndex (y : ℤ) x a m.size m.alphaCount).toNat

/-- After any strokes, with whatever brush and wherever they are, the weights of each
cell sum to one, and no access was outside the map. -/
theorem weights_sum_to_one (hN : 1 ≤ N) (hC : 2 ≤ C) {m₀ : Work ℚ} (hm₀ : Shape N C m₀)
    {strokes : List Stroke} (hsplat : ∀ s ∈ strokes, 0 ≤ s.splatIndex) :
    ∃ m, (do initSplatMap; paintAll strokes : M ℚ Unit).run m₀ = some ((), m) ∧
      ∀ x < N, ∀ y < N, (∀ a < C, 0 ≤ weight m x y a ∧ weight m x y a ≤ 1) ∧
        ∑ a ∈ range C, weight m x y a = 1 := by
  have hrun := Triple.bind (initSplatMap_spec hC) fun _ =>
    paintAll_normal hN hsplat
  obtain ⟨_, m, hm, hshape, hnormal⟩ := hrun m₀ hm₀
  refine ⟨m, hm, fun x hx y hy => ?_⟩
  have hcell : Normal C fun a => weight m x y a := by
    refine (hnormal _ (cellNumber_lt hx hy)).congr fun a _ => ?_
    rw [weight, hshape.size_eq, hshape.count_eq, getSplatMapIndex_eq, ← Nat.cast_add,
      Int.toNat_natCast]
  exact ⟨fun a ha => ⟨hcell.nonneg a ha, hcell.le_one ha⟩, hcell.sum⟩

/-- Two strokes on a map of four cells, the first of them over its border. -/
theorem weights_sum_to_one_two_strokes :
    ∃ m, (do initSplatMap; paintAll [⟨5, 1 / 2, 1, 0, 0⟩, ⟨2, 3, 1, 1, 2⟩] : M ℚ Unit).run
        (Work.init (fun _ => 0) 2 3) = some ((), m) ∧
      ∀ x < 2, ∀ y < 2, (∀ a < 3, 0 ≤ weight m x y a ∧ weight m x y a ≤ 1) ∧
        ∑ a ∈ range 3, weight m x y a = 1 :=
  have hsplat : ∀ s ∈ [(⟨5, 1 / 2, 1, 0, 0⟩ : Stroke), ⟨2, 3, 1, 1, 2⟩], 0 ≤ s.splatIndex := by
    decide
  weights_sum_to_one (by decide) (by decide) (Shape.init _ 2 3) hsplat

end SplatPainter

end PCGForUnity
