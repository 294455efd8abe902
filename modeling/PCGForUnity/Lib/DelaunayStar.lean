/-
PCGForUnity/Lib/DelaunayStar.lean

The triangles around a point of an incremental triangulation.

They reach in all directions: from a point `o` that has a triangle at all, there is for
every `q` a triangle at `o` whose angle contains `q` (`exists_cone`).  So a point that was
inserted keeps some of them, and it has an edge to each point with which it is on an empty
circle: the triangles at the point are those that `Made` describes (`mem_foldl_of_empty`).

Design.  `BowyerWatson` says that every triangle of a run has an empty disc.  The converse
needs that a triangle with an empty disc is really made, and this is where the star of a
point comes in: when the last of the three corners is inserted, the edge between the other
two is there already, because they are on an empty circle, and the triangle on the inner
side of it is in the hole.  Points on a common circle are told apart by the order in which
they are inserted, as the test of the algorithm does.
-/
import PCGForUnity.Lib.BowyerWatson
import Mathlib.Data.Finset.Max
import Mathlib.Tactic.LinearCombination

namespace PCGForUnity

namespace BowyerWatson

open Plane

section

variable {F : Type*} [Field F] [LinearOrder F] [IsStrictOrderedRing F]
variable {s : (F × F) × (F × F) × (F × F)} {V : List (F × F)}
variable {T : List ((F × F) × (F × F) × (F × F))} {a b c e o p q w x y z : F × F}

/-- Of some points to one side, seen from `o`, there is a first and a last one. -/
theorem exists_extremal {S : Finset (F × F)} (hS : S.Nonempty) (hside : ∀ c ∈ S, 0 < side o c q) :
    (∃ c ∈ S, ∀ c' ∈ S, side o c c' ≤ 0) ∧ ∃ c ∈ S, ∀ c' ∈ S, 0 ≤ side o c c' := by
  obtain ⟨along, halong⟩ : ∃ along : F × F → F, ∀ c, along c =
      (c.1 - o.1) * (q.1 - o.1) + (c.2 - o.2) * (q.2 - o.2) := ⟨_, fun _ => rfl⟩
  have hdot {c : F × F} (hc : c ∈ S) : 0 < dot o o q := by
    refine dot_self_pos ?_
    rintro rfl
    have h := hside c hc
    rw [side_left] at h
    exact lt_irrefl 0 h
  have hcross (c c' : F × F) :
      along c' * side o c q - along c * side o c' q = dot o o q * side o c c' := by
    rw [halong, halong]
    simp only [side, dot]
    ring
  -- the cotangent of the angle
  have hle {c c' : F × F} (hc : c ∈ S) (hc' : c' ∈ S)
      (h : along c' / side o c' q ≤ along c / side o c q) : side o c c' ≤ 0 := by
    rw [div_le_div_iff₀ (hside c' hc') (hside c hc)] at h
    have hprod : dot o o q * side o c c' ≤ 0 := by
      rw [← hcross]
      linarith
    exact nonpos_of_mul_nonpos_right hprod (hdot hc)
  obtain ⟨c, hc, hmax⟩ := S.exists_max_image (fun c => along c / side o c q) hS
  obtain ⟨e, he, hmin⟩ := S.exists_min_image (fun c => along c / side o c q) hS
  refine ⟨⟨c, hc, fun c' hc' => hle hc hc' (hmax c' hc')⟩, e, he, fun c' hc' => ?_⟩
  have h := hle hc' he (hmin c' hc')
  rw [← side_rotate, side_rotate, side_swap_right] at h
  linarith

/-- Two points on a circle through `o` that are on a line with it are one. -/
theorem eq_of_collinear {r t : F} (hr : 0 < r) (hx : r * (w.1 - o.1) = t * (c.1 - o.1))
    (hy : r * (w.2 - o.2) = t * (c.2 - o.2)) (hlen : r * dot o o w = t * dot o o c) (hw : w ≠ o)
    (hc : c ≠ o) : w = c := by
  have hsq : r * r * dot o o w = t * t * dot o o c := by
    simp only [dot]
    linear_combination (r * (w.1 - o.1) + t * (c.1 - o.1)) * hx
      + (r * (w.2 - o.2) + t * (c.2 - o.2)) * hy
  have hprod : t * (r - t) * dot o o c = 0 := by
    linear_combination hsq - r * hlen
  have ht : t ≠ 0 := by
    rintro rfl
    rw [zero_mul, mul_eq_zero, sub_eq_zero] at hx hy
    exact hw (Prod.ext (hx.resolve_left hr.ne') (hy.resolve_left hr.ne'))
  have hrt : r = t := by
    rcases mul_eq_zero.mp hprod with hprod | hdot
    · exact sub_eq_zero.mp ((mul_eq_zero.mp hprod).resolve_left ht)
    · exact absurd hdot (dot_self_pos hc).ne'
  subst hrt
  exact Prod.ext (sub_left_inj.mp (mul_left_cancel₀ ht hx))
    (sub_left_inj.mp (mul_left_cancel₀ ht hy))

namespace Delaunay

variable (h : Delaunay s V T) (ho : ∀ a b, (a, b) ∈ edges s → a ≠ o ∧ b ≠ o)

include h ho

/-- The triangles around a point reach in all directions. -/
theorem exists_cone (hT : Has T o a b) (q : F × F) :
    ∃ c e, Has T o c e ∧ 0 ≤ side o c q ∧ side o e q ≤ 0 := by
  classical
  let N : Finset (F × F) := (((darts T).filter fun d => decide (d.1 = o)).map Prod.snd).toFinset
  have hN {c : F × F} : c ∈ N ↔ (o, c) ∈ darts T := by
    simp only [N, List.mem_toFinset, List.mem_map, List.mem_filter, decide_eq_true_eq]
    constructor
    · rintro ⟨⟨x, c⟩, ⟨hmem, rfl⟩, rfl⟩
      exact hmem
    · intro hmem
      exact ⟨(o, c), ⟨hmem, rfl⟩, rfl⟩
  have hmem {c e : F × F} (hce : Has T o c e) : c ∈ N ∧ e ∈ N := by
    obtain ⟨z, hz⟩ := h.exists_next ho hce
    exact ⟨hN.mpr (mem_darts.mpr ⟨e, hce⟩), hN.mpr (mem_darts.mpr ⟨z, hz⟩)⟩
  by_contra hnone
  have hcone {c e : F × F} (hce : Has T o c e) (hc : 0 ≤ side o c q) : 0 < side o e q :=
    not_le.mp fun he => hnone ⟨c, e, hce, hc, he⟩
  by_cases hleft : ∃ c ∈ N, 0 < side o c q
  · -- the one after the last of those to the left is one of them again
    obtain ⟨c₀, hc₀, hpos⟩ := hleft
    obtain ⟨⟨c, hc, hlast⟩, -⟩ := exists_extremal (S := N.filter fun c => 0 < side o c q)
      ⟨c₀, Finset.mem_filter.mpr ⟨hc₀, hpos⟩⟩ fun c hc => (Finset.mem_filter.mp hc).2
    obtain ⟨hc, hc'⟩ := Finset.mem_filter.mp hc
    obtain ⟨e, he⟩ := mem_darts.mp (hN.mp hc)
    have hle := hlast e (Finset.mem_filter.mpr ⟨(hmem he).2, hcone he hc'.le⟩)
    exact absurd (h.side_pos_of_has he) (not_lt.mpr hle)
  · -- the one before the first of all is one of them
    have hright (c : F × F) (hc : c ∈ N) : side o c q < 0 := by
      by_contra hge
      obtain ⟨e, he⟩ := mem_darts.mp (hN.mp hc)
      exact hleft ⟨e, (hmem he).2, hcone he (not_lt.mp hge)⟩
    have hopposite (c : F × F) : side o c (o + (o - q)) = -side o c q := by
      simp only [side, Prod.fst_add, Prod.snd_add, Prod.fst_sub, Prod.snd_sub]
      ring
    obtain ⟨-, c, hc, hfirst⟩ := exists_extremal (o := o) (q := o + (o - q)) (S := N)
      ⟨a, (hmem hT).1⟩ fun c hc => by
        rw [hopposite]
        exact neg_pos.mpr (hright c hc)
    obtain ⟨e, he⟩ := mem_darts.mp (hN.mp hc)
    obtain ⟨z, hz⟩ := h.exists_prev ho he
    have hle := hfirst z (hmem hz).1
    rw [side_swap_right] at hle
    exact absurd (h.side_pos_of_has hz) (by linarith)

/-- A point keeps some triangle when another one is inserted. -/
theorem exists_has_insertPoint (hT : Has T o a b) (hp : p ≠ o) :
    ∃ c e, Has (insertPoint T p) o c e := by
  -- one that reaches away from the new point
  obtain ⟨c, e, hce, hc, he⟩ := h.exists_cone ho hT (o + (o - p))
  have hopposite (c : F × F) : side o c (o + (o - p)) = -side o c p := by
    simp only [side, Prod.fst_add, Prod.snd_add, Prod.fst_sub, Prod.snd_sub]
    ring
  rw [hopposite] at hc he
  have hpos : 0 < power o c e p := by
    have h₁ : 0 < side o c e * dot o o p := mul_pos (h.side_pos_of_has hce) (dot_self_pos hp)
    have h₂ : side o c p * dot o o e ≤ 0 :=
      mul_nonpos_of_nonpos_of_nonneg (by linarith) (dot_self_nonneg o e)
    have h₃ : 0 ≤ side o e p * dot o o c := mul_nonneg (by linarith) (dot_self_nonneg o c)
    rw [power_origin]
    linarith
  obtain ⟨z, hz⟩ := mem_darts.mp (mem_darts_insertPoint.mpr (Or.inl ⟨e, hce, hpos⟩))
  exact ⟨c, z, hz⟩

/-- A point has an edge to another one, if a circle through both is empty, and other points on
it are all on one side. -/
theorem mem_darts_of_empty (hT : Has T o a b) (hw : w ∈ V) (hne : w ≠ o) (hxy : 0 < side o x y)
    (hpower : power o x y w = 0) (hempty : ∀ u ∈ V, 0 ≤ power o x y u)
    (hside : ∀ u ∈ V, ∀ v ∈ V, power o x y u = 0 → power o x y v = 0 →
      ¬ (side o w u < 0 ∧ 0 < side o w v)) :
    (o, w) ∈ darts T ∧ (w, o) ∈ darts T := by
  obtain ⟨c, e, hce, hc, he⟩ := h.exists_cone ho hT w
  have hcone := power_cone o c e x y w
  rw [hpower, mul_zero] at hcone
  have hpos := h.side_pos_of_has hce
  have hc_mem : c ∈ V := h.mem_of_has hce.rotate
  have he_mem : e ∈ V := h.mem_of_has hce.rotate.rotate
  have h₁ : 0 ≤ side o x y * power o c e w := mul_nonneg hxy.le (h.power_nonneg hce hw)
  have h₂ : 0 ≤ side o c w * power o x y e := mul_nonneg hc (hempty e he_mem)
  have h₃ : side o e w * power o x y c ≤ 0 := mul_nonpos_of_nonpos_of_nonneg he (hempty c hc_mem)
  have hzero : power o c e w = 0 :=
    (mul_eq_zero.mp (show side o x y * power o c e w = 0 by linarith)).resolve_left hxy.ne'
  -- the coordinates of `w` with respect to the edges of the triangle
  have hx : side o c e * (w.1 - o.1) = side o c w * (e.1 - o.1) - side o e w * (c.1 - o.1) := by
    simp only [side]
    ring
  have hy : side o c e * (w.2 - o.2) = side o c w * (e.2 - o.2) - side o e w * (c.2 - o.2) := by
    simp only [side]
    ring
  have horigin := power_origin o c e w
  rw [hzero] at horigin
  have hne_c : c ≠ o := (ne_of_side_ne_zero hpos.ne').1.symm
  have hne_e : e ≠ o := (ne_of_side_ne_zero hpos.ne').2.2
  rcases eq_or_lt_of_le hc with hc | hc
  · rw [← hc] at hx hy horigin
    obtain rfl : w = c := eq_of_collinear hpos (t := -side o e w) (by linear_combination hx)
      (by linear_combination hy) (by linear_combination -horigin) hne hne_c
    exact h.mate_of_ne ho (Or.inl (mem_darts.mpr ⟨e, hce⟩))
  rcases eq_or_lt_of_le he with he | he
  · rw [he] at hx hy horigin
    obtain rfl : w = e := eq_of_collinear hpos (t := side o c w) (by linear_combination hx)
      (by linear_combination hy) (by linear_combination -horigin) hne hne_e
    exact h.mate_of_ne ho (Or.inr (mem_darts.mpr ⟨c, hce.rotate.rotate⟩))
  · -- `w` is between the edges, whose ends are on the circle, one to either side
    exfalso
    have hon : power o x y c = 0 :=
      (mul_eq_zero.mp (show side o e w * power o x y c = 0 by linarith)).resolve_left he.ne
    have hon' : power o x y e = 0 :=
      (mul_eq_zero.mp (show side o c w * power o x y e = 0 by linarith)).resolve_left hc.ne'
    refine hside c hc_mem e he_mem hon hon' ⟨?_, ?_⟩
    · rw [side_swap_right]
      linarith
    · rw [side_swap_right]
      linarith

/-- A triangle at a point is made as `Made` says. -/
theorem mem_insertPoint_of_empty (hT : Has T o c e) (hab : a = o ∨ b = o) (ha : a ∈ V)
    (hb : b ∈ V) (hz : 0 < side a b z)
    (hempty : ∀ u ∈ V, 0 ≤ power a b z u ∧ (power a b z u = 0 → 0 ≤ side a b u)) :
    (a, b, z) ∈ insertPoint T z := by
  have hne := (ne_of_side_ne_zero hz.ne').1
  -- the edge is there, since the disc over it is empty
  have hdarts : (a, b) ∈ darts T ∧ (b, a) ∈ darts T := by
    rcases hab with rfl | rfl
    · refine h.mem_darts_of_empty ho hT hb hne.symm hz (power_right a b z)
        (fun u hu => (hempty u hu).1) fun u hu v _ hu' _ hlt => ?_
      exact absurd ((hempty u hu).2 hu') (not_le.mpr hlt.1)
    · refine (h.mem_darts_of_empty ho hT ha hne (x := z) (y := a) ?_ ?_ (fun u hu => ?_)
        fun u _ v hv _ hv' hlt => ?_).symm
      · rw [side_rotate]
        exact hz
      · exact power_self b z a
      · rw [power_rotate]
        exact (hempty u hu).1
      · rw [power_rotate] at hv'
        have hle := (hempty v hv).2 hv'
        rw [side_swap] at hle
        linarith [hlt.2]
  obtain ⟨c', hc'⟩ := mem_darts.mp hdarts.1
  have hhole : (a, b) ∈ hole T z := by
    refine mem_hole.mpr ⟨c', hc', ?_⟩
    rw [power_swap_right]
    exact neg_nonpos.mpr (hempty c' (h.mem_of_has hc'.rotate.rotate)).1
  -- and only one of its sides is in the hole
  have hhole' : (b, a) ∉ hole T z := by
    intro hmem
    obtain ⟨d, hd, hle⟩ := mem_hole.mp hmem
    rw [power_swap, power_swap_right, neg_neg] at hle
    obtain ⟨hge, hzero⟩ := hempty d (h.mem_of_has hd.rotate.rotate)
    have hpos := h.side_pos_of_has hd
    rw [side_swap] at hpos
    linarith [hzero (le_antisymm hle hge)]
  have houtline : (a, b) ∈ outline (hole T z) :=
    (mem_outline (h.nodup.sublist (hole_sublist T z)) hne).mpr ⟨hhole, hhole'⟩
  exact List.mem_append_right _ (List.mem_map.mpr ⟨(a, b), houtline, rfl⟩)

end Delaunay

/-! ### A run -/

theorem insertPoint_single (hs : 0 < side s.1 s.2.1 s.2.2) (ho : Within s o) :
    insertPoint [s] o = fan s o := by
  obtain ⟨h₁, h₂, h₃⟩ := ho.side_pos
  obtain ⟨a, b, c⟩ := s
  obtain ⟨hab, hbc, hca⟩ : a ≠ b ∧ b ≠ c ∧ c ≠ a := ne_of_side_ne_zero hs.ne'
  -- by the coordinates of the point with respect to the corners
  have hpower : side a b c * power a b c o = -(side b c o * side c a o * dot a a b
      + side c a o * side a b o * dot b b c + side a b o * side b c o * dot c c a) := by
    simp only [side, dot, power]
    ring
  have hdisc : inDisc o (a, b, c) = true := by
    refine decide_eq_true (nonpos_of_mul_nonpos_right (a := side a b c) ?_ hs)
    show side a b c * power a b c o ≤ 0
    rw [hpower]
    have hnonneg₁ := mul_nonneg (mul_pos h₂ h₃).le (dot_self_nonneg a b)
    have hnonneg₂ := mul_nonneg (mul_pos h₃ h₁).le (dot_self_nonneg b c)
    have hnonneg₃ := mul_nonneg (mul_pos h₁ h₂).le (dot_self_nonneg c a)
    linarith
  simp [insertPoint, hole, fan, outline, darts, edges, List.countP_cons, hdisc, hab, hbc, hca,
    hab.symm, hbc.symm, hca.symm]

theorem foldl_replicate (hs : 0 < side s.1 s.2.1 s.2.2) (ho : Within s o) (n : ℕ) :
    (List.replicate (n + 1) o).foldl insertPoint [s] = fan s o := by
  induction n with
  | zero => exact insertPoint_single hs ho
  | succ n ih =>
      rw [List.replicate_succ', List.foldl_append, ih]
      exact insertPoint_fan hs ho

theorem Delaunay.exists_has_foldl (h : Delaunay s V T) (ho : Within s o) (hT : ∃ c e, Has T o c e)
    {vs : List (F × F)} (hvs : ∀ v ∈ vs, Within s v ∧ v ≠ o) :
    ∃ c e, Has (vs.foldl insertPoint T) o c e := by
  induction vs generalizing V T with
  | nil => exact hT
  | cons v vs ih =>
      obtain ⟨c, e, hce⟩ := hT
      obtain ⟨hv, hne⟩ := hvs v List.mem_cons_self
      exact ih (h.insert hv) (h.exists_has_insertPoint (fun _ _ hab => ho.ne hab) hce hne)
        fun u hu => hvs u (List.mem_cons_of_mem _ hu)

/-- **The triangles at a point are those that `Made` describes.** -/
theorem Delaunay.mem_foldl_of_empty (h : Delaunay s V T) (ho : Within s o)
    (hT : ∃ c e, Has T o c e) {pre post : List (F × F)} (hpre : ∀ v ∈ pre, Within s v ∧ v ≠ o)
    (hab : a = o ∨ b = o) (ha : a ∈ V ++ pre) (hb : b ∈ V ++ pre) (hz : 0 < side a b z)
    (hempty : ∀ u ∈ V ++ pre, 0 ≤ power a b z u ∧ (power a b z u = 0 → 0 ≤ side a b u))
    (hpost : ∀ u ∈ post, 0 < power a b z u) :
    (a, b, z) ∈ (pre ++ z :: post).foldl insertPoint T := by
  obtain ⟨c, e, hce⟩ := h.exists_has_foldl ho hT hpre
  rw [List.foldl_append, List.foldl_cons]
  refine mem_foldl_of_pos ?_ hpost
  exact (h.foldl fun v hv => (hpre v hv).1).mem_insertPoint_of_empty (fun _ _ hab => ho.ne hab)
    hce hab ha hb hz hempty

end

end BowyerWatson

end PCGForUnity
