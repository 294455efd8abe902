/-
PCGForUnity/Generator/MeshIndices.lean

What the indices that `trianglate` appends refer to.  For every input that is not empty

    all of them are indices of the input
      ↔  a point of it is at (0, 0), or no two points of it make a triangle with (0, 0)

(`refersToInput_iff`).

Design.  By the positions of its corners, `triangulate` is a run of the incremental
triangulation of `Lib/BowyerWatson`, and a corner of a triangle is the last vertex at its
position.  `trianglate` resizes its list of vertices before it appends, so vertices at
`(0, 0)` without an index stand before the points of the input.  Such a vertex is a corner
where none of these is at `(0, 0)` and two of them make a triangle with it, for every point
of a triangulation that does not lie on one line with the others has triangles.

Arithmetic is exact, and the triangle around all points is the one that the code makes.
-/
import PCGForUnity.Generator.Delaunay
import PCGForUnity.Lib.DelaunayStar
import Mathlib.Tactic.FieldSimp

namespace PCGForUnity

open Plane BowyerWatson

/-! ### Positions -/

/-- The position of a vertex, without its index. -/
def Vector2.pos (v : Vector2) : ℚ × ℚ := (v.x, v.y)

/-- The positions of the ends. -/
def Edge.pos (e : Edge) : (ℚ × ℚ) × (ℚ × ℚ) := (e.p1.pos, e.p2.pos)

namespace Triangle2D

/-- The positions of the corners. -/
def pos (t : Triangle2D) : (ℚ × ℚ) × (ℚ × ℚ) × (ℚ × ℚ) := (t.p1.pos, t.p2.pos, t.p3.pos)

/-- The corners as vertices. -/
def corners (t : Triangle2D) : List Vector2 := [t.p1, t.p2, t.p3]

end Triangle2D

theorem Vector2.eq_iff {v w : Vector2} : v.eq w = true ↔ w.pos = v.pos := by
  rw [eq, Bool.and_eq_true, decide_eq_true_iff, decide_eq_true_iff, pos, pos, Prod.mk.injEq]
  exact and_congr eq_comm eq_comm

theorem Edge.eq_iff {e e2 : Edge} : e.eq e2 = true ↔ e2.pos = e.pos ∨ e2.pos = e.pos.swap := by
  have h : e2.pos = e.pos ↔ e2.p1.pos = e.p1.pos ∧ e2.p2.pos = e.p2.pos := Prod.ext_iff
  have h' : e2.pos = e.pos.swap ↔ e2.p1.pos = e.p2.pos ∧ e2.p2.pos = e.p1.pos := Prod.ext_iff
  rw [eq, Bool.or_eq_true, Bool.and_eq_true, Bool.and_eq_true, Vector2.eq_iff, Vector2.eq_iff,
    Vector2.eq_iff, Vector2.eq_iff, h, h']
  exact or_congr_right and_comm

namespace Triangle2D

theorem containsVertex_eq_false_iff {t : Triangle2D} {c : Vector2} :
    t.containsVertex c = false ↔ ∀ v ∈ t.corners, v.pos ≠ c.pos := by
  have heq (v : Vector2) : v.eq c = false ↔ v.pos ≠ c.pos := by
    rw [← Bool.not_eq_true, Vector2.eq_iff, eq_comm]
  simp only [containsVertex, Bool.or_eq_false_iff, heq, corners, List.forall_mem_cons,
    List.not_mem_nil, false_implies, implies_true, and_true, and_assoc]

/-- The centre is at the same distance from the corners. -/
theorem circumCircleContains_eq {t : Triangle2D} {v : Vector2}
    (ht : 0 < side t.p1.pos t.p2.pos t.p3.pos) :
    t.circumCircleContains v = inDisc v.pos t.pos := by
  obtain ⟨r, hr⟩ : ∃ r, r = side t.p1.pos t.p2.pos t.p3.pos := ⟨_, rfl⟩
  have hrx : t.p1.x * (t.p3.y - t.p2.y) + t.p2.x * (t.p1.y - t.p3.y) + t.p3.x * (t.p2.y - t.p1.y)
      = r := by
    rw [hr]
    simp only [side, Vector2.pos]
    ring
  have hry : t.p1.y * (t.p3.x - t.p2.x) + t.p2.y * (t.p1.x - t.p3.x) + t.p3.y * (t.p2.x - t.p1.x)
      = -r := by
    rw [hr]
    simp only [side, Vector2.pos]
    ring
  rw [← hr] at ht
  -- the difference of the squared distances is the power, up to the area
  have hpower : r * (((v.x - t.circumX) * (v.x - t.circumX) + (v.y - t.circumY) * (v.y - t.circumY))
      - ((t.p1.x - t.circumX) * (t.p1.x - t.circumX) + (t.p1.y - t.circumY) * (t.p1.y - t.circumY)))
      = discPower t.pos v.pos := by
    have hx : 2 * (r * t.circumX) = (t.p1.x * t.p1.x + t.p1.y * t.p1.y) * (t.p3.y - t.p2.y)
        + (t.p2.x * t.p2.x + t.p2.y * t.p2.y) * (t.p1.y - t.p3.y)
        + (t.p3.x * t.p3.x + t.p3.y * t.p3.y) * (t.p2.y - t.p1.y) := by
      rw [circumX, hrx]
      field_simp
    have hy : 2 * (r * t.circumY) = -((t.p1.x * t.p1.x + t.p1.y * t.p1.y) * (t.p3.x - t.p2.x)
        + (t.p2.x * t.p2.x + t.p2.y * t.p2.y) * (t.p1.x - t.p3.x)
        + (t.p3.x * t.p3.x + t.p3.y * t.p3.y) * (t.p2.x - t.p1.x)) := by
      rw [circumY, hry]
      field_simp
    have hexpand : discPower t.pos v.pos = r * (v.x * v.x + v.y * v.y - t.p1.x * t.p1.x
        - t.p1.y * t.p1.y) - 2 * (r * t.circumX) * (v.x - t.p1.x)
        - 2 * (r * t.circumY) * (v.y - t.p1.y) := by
      rw [hx, hy, ← hrx]
      simp only [discPower, power, side, dot, pos, Vector2.pos]
      ring
    rw [hexpand]
    ring
  rw [circumCircleContains, inDisc]
  refine decide_eq_decide.mpr ?_
  rw [← hpower, ← sub_nonpos]
  exact ⟨fun h => mul_nonpos_of_nonneg_of_nonpos ht.le h, fun h => nonpos_of_mul_nonpos_right h ht⟩

end Triangle2D

namespace Delaunay

theorem removeBad_pos (polygon : List Edge) :
    (removeBad polygon).map Edge.pos = outline (polygon.map Edge.pos) := by
  rw [removeBad, outline, List.filter_map]
  congr 1
  refine List.filter_congr fun e _ => ?_
  rw [Function.comp_apply, List.countP_map]
  refine decide_eq_decide.mpr ?_
  rw [List.countP_congr fun e2 _ => ?_]
  rw [Edge.eq_iff]
  exact decide_eq_true_iff.symm

/-- The edges of the triangles that a vertex removes, by the positions. -/
theorem polygon_pos {ts : List Triangle2D} {p : Vector2}
    (hts : ∀ t ∈ ts, 0 < side t.p1.pos t.p2.pos t.p3.pos) :
    ((ts.filter fun t => t.circumCircleContains p).flatMap fun t =>
      [t.e1, t.e2, t.e3]).map Edge.pos = hole (ts.map Triangle2D.pos) p.pos := by
  rw [hole, darts, List.filter_map, List.map_flatMap, List.flatMap_map,
    List.filter_congr fun t ht => Triangle2D.circumCircleContains_eq (hts t ht)]
  rfl

/-- An insertion, by the positions. -/
theorem insertVertex_pos {ts : List Triangle2D} {p : Vector2}
    (hts : ∀ t ∈ ts, 0 < side t.p1.pos t.p2.pos t.p3.pos) :
    (insertVertex ts p).map Triangle2D.pos = insertPoint (ts.map Triangle2D.pos) p.pos := by
  have hstay : (ts.filter fun t => !t.circumCircleContains p).map Triangle2D.pos
      = (ts.map Triangle2D.pos).filter fun t => !inDisc p.pos t := by
    rw [List.filter_map, List.filter_congr fun t ht => by
      rw [Triangle2D.circumCircleContains_eq (hts t ht)]]
    rfl
  rw [insertVertex, insertPoint, List.map_append, hstay, ← polygon_pos hts, ← removeBad_pos,
    List.map_map, List.map_map]
  rfl

/-! ### The corners of the triangles -/

/-- A vertex is the last one at its position. -/
def Newest (vs : List Vector2) (v : Vector2) : Prop :=
  ∃ pre post, vs = pre ++ v :: post ∧ ∀ u ∈ post, u.pos ≠ v.pos

theorem newest_concat (vs : List Vector2) (p : Vector2) : Newest (vs ++ [p]) p :=
  ⟨vs, [], rfl, fun u hu => by cases hu⟩

theorem Newest.concat {vs : List Vector2} {v p : Vector2} (h : Newest vs v) (hne : p.pos ≠ v.pos) :
    Newest (vs ++ [p]) v := by
  obtain ⟨pre, post, rfl, hpost⟩ := h
  refine ⟨pre, post ++ [p], by simp, fun u hu => ?_⟩
  rcases List.mem_append.mp hu with hu | hu
  · exact hpost u hu
  · rw [List.mem_singleton.mp hu]
    exact hne

/-- A corner comes from the triangles before, or it is the new vertex. -/
theorem exists_of_mem_insertVertex {ts : List Triangle2D} {p v : Vector2} {t : Triangle2D}
    (ht : t ∈ insertVertex ts p) (hv : v ∈ t.corners) : (∃ t' ∈ ts, v ∈ t'.corners) ∨ v = p := by
  rcases List.mem_append.mp ht with ht | ht
  · exact Or.inl ⟨t, (List.mem_filter.mp ht).1, hv⟩
  · obtain ⟨e, he, rfl⟩ := List.mem_map.mp ht
    obtain ⟨t', ht', he⟩ := List.mem_flatMap.mp (List.mem_filter.mp he).1
    have hends : e.p1 ∈ t'.corners ∧ e.p2 ∈ t'.corners := by
      simp only [List.mem_cons, List.not_mem_nil, or_false] at he
      rcases he with rfl | rfl | rfl <;>
        simp [Triangle2D.corners, Triangle2D.e1, Triangle2D.e2, Triangle2D.e3]
    simp only [Triangle2D.corners, List.mem_cons, List.not_mem_nil, or_false] at hv
    rcases hv with rfl | rfl | rfl
    · exact Or.inl ⟨t', (List.mem_filter.mp ht').1, hends.1⟩
    · exact Or.inl ⟨t', (List.mem_filter.mp ht').1, hends.2⟩
    · exact Or.inr rfl

theorem exists_of_mem_foldl {ts : List Triangle2D} {vs : List Vector2} {v : Vector2}
    {t : Triangle2D} (ht : t ∈ vs.foldl insertVertex ts) (hv : v ∈ t.corners) :
    (∃ t' ∈ ts, v ∈ t'.corners) ∨ v ∈ vs := by
  induction vs generalizing ts with
  | nil => exact Or.inl ⟨t, ht, hv⟩
  | cons p vs ih =>
      rcases ih ht with ⟨t', ht', hv'⟩ | hmem
      · refine (exists_of_mem_insertVertex ht' hv').imp_right ?_
        rintro rfl
        exact List.mem_cons_self
      · exact Or.inr (List.mem_cons_of_mem _ hmem)

/-- What the loop over the vertices keeps. -/
structure Tracked (s : Triangle2D) (vs : List Vector2) (ts : List Triangle2D) : Prop where
  delaunay : BowyerWatson.Delaunay s.pos (s.corners.map Vector2.pos ++ vs.map Vector2.pos)
    (ts.map Triangle2D.pos)
  newest : ∀ t ∈ ts, ∀ v ∈ t.corners, v ∈ s.corners ∨ Newest vs v

theorem Tracked.side_pos {s : Triangle2D} {vs : List Vector2} {ts : List Triangle2D}
    (h : Tracked s vs ts) : ∀ t ∈ ts, 0 < side t.p1.pos t.p2.pos t.p3.pos := fun _ ht =>
  h.delaunay.side_pos _ (List.mem_map_of_mem ht)

theorem tracked_initial {s : Triangle2D} (hs : 0 < side s.p1.pos s.p2.pos s.p3.pos) :
    Tracked s [] [s] where
  delaunay := BowyerWatson.Delaunay.initial (s := s.pos) hs
  newest := fun t ht v hv => by
    rw [List.mem_singleton.mp ht] at hv
    exact Or.inl hv

theorem Tracked.insertVertex {s : Triangle2D} {vs : List Vector2} {ts : List Triangle2D}
    {p : Vector2} (h : Tracked s vs ts) (hp : Within s.pos p.pos) :
    Tracked s (vs ++ [p]) (insertVertex ts p) where
  delaunay := by
    rw [insertVertex_pos h.side_pos, List.map_append, ← List.append_assoc]
    exact h.delaunay.insert hp
  newest := by
    intro t ht v hv
    rcases exists_of_mem_insertVertex ht hv with ⟨t', ht', hv'⟩ | rfl
    · -- the new vertex is outside the discs that stay, and off the lines around the hole
      refine (h.newest t' ht' v hv').imp_right fun hnew => ?_
      rcases List.mem_append.mp ht with ht | ht
      · obtain ⟨ht, hdisc⟩ := List.mem_filter.mp ht
        refine hnew.concat fun heq => ?_
        rw [Triangle2D.circumCircleContains_eq (h.side_pos t ht), Bool.not_eq_true', inDisc,
          decide_eq_false_iff_not, heq] at hdisc
        refine hdisc (le_of_eq ?_)
        simp only [Triangle2D.corners, List.mem_cons, List.not_mem_nil, or_false] at hv
        rcases hv with rfl | rfl | rfl
        · exact power_left _ _ _
        · exact power_right _ _ _
        · exact power_self _ _ _
      · obtain ⟨e, he, rfl⟩ := List.mem_map.mp ht
        have hedge : e.pos ∈ outline (hole (ts.map Triangle2D.pos) p.pos) := by
          rw [← polygon_pos h.side_pos, ← removeBad_pos]
          exact List.mem_map_of_mem he
        have hne := ne_of_side_ne_zero (h.delaunay.side_pos_of_mem_outline hp hedge).ne'
        by_cases hvp : v = p
        · rw [hvp]
          exact newest_concat vs p
        · simp only [Triangle2D.corners, List.mem_cons, List.not_mem_nil, or_false] at hv
          rcases hv with rfl | rfl | rfl
          · exact hnew.concat hne.2.2
          · exact hnew.concat hne.2.1.symm
          · exact absurd rfl hvp
    · exact Or.inr (newest_concat vs v)

theorem tracked_foldl {s : Triangle2D} {vs : List Vector2} {ts : List Triangle2D}
    (h : Tracked s vs ts) {us : List Vector2} (hus : ∀ u ∈ us, Within s.pos u.pos) :
    Tracked s (vs ++ us) (us.foldl Delaunay.insertVertex ts) ∧
      (us.foldl Delaunay.insertVertex ts).map Triangle2D.pos
        = (us.map Vector2.pos).foldl insertPoint (ts.map Triangle2D.pos) := by
  induction us generalizing vs ts with
  | nil =>
      rw [List.append_nil]
      exact ⟨h, rfl⟩
  | cons u us ih =>
      obtain ⟨htracked, hpos⟩ := ih (h.insertVertex (hus u List.mem_cons_self))
        fun v hv => hus v (List.mem_cons_of_mem _ hv)
      rw [List.append_assoc] at htracked
      rw [Delaunay.insertVertex_pos h.side_pos] at hpos
      exact ⟨htracked, hpos⟩

/-! ### The super triangle -/

/-- A vertex is between the bounds. -/
structure Bounds.Covers (b : Bounds) (v : Vector2) : Prop where
  minX_le : b.minX ≤ v.x
  le_maxX : v.x ≤ b.maxX
  minY_le : b.minY ≤ v.y
  le_maxY : v.y ≤ b.maxY

theorem Bounds.covers_add (b : Bounds) (v : Vector2) : (b.add v).Covers v := by
  constructor
  all_goals
    simp only [add]
    split <;> linarith

theorem Bounds.Covers.add {b : Bounds} {u : Vector2} (h : b.Covers u) (v : Vector2) :
    (b.add v).Covers u := by
  obtain ⟨h₁, h₂, h₃, h₄⟩ := h
  constructor
  all_goals
    simp only [Bounds.add]
    split <;> linarith

theorem Bounds.Covers.foldl {b : Bounds} {u : Vector2} (h : b.Covers u) (vs : List Vector2) :
    (vs.foldl Bounds.add b).Covers u := by
  induction vs generalizing b with
  | nil => exact h
  | cons v vs ih => exact ih (h.add v)

theorem bounds_covers {v : Vector2} {vertices : List Vector2} {u : Vector2} (hu : u ∈ vertices) :
    (bounds v vertices).Covers u := by
  obtain ⟨pre, post, rfl⟩ := List.append_of_mem hu
  rw [bounds, List.foldl_append, List.foldl_cons]
  exact (Bounds.covers_add _ u).foldl post

/-- The greater side of the bounds. -/
def Bounds.deltaMax (b : Bounds) : ℚ :=
  if b.maxX - b.minX > b.maxY - b.minY then b.maxX - b.minX else b.maxY - b.minY

theorem Bounds.le_deltaMax (b : Bounds) :
    b.maxX - b.minX ≤ b.deltaMax ∧ b.maxY - b.minY ≤ b.deltaMax := by
  rw [deltaMax]
  split <;> exact ⟨by linarith, by linarith⟩

theorem superTriangle_pos (b : Bounds) :
    (superTriangle b).pos =
      (((b.minX + b.maxX) / 2 - 20 * b.deltaMax, (b.minY + b.maxY) / 2 - b.deltaMax),
        ((b.minX + b.maxX) / 2, (b.minY + b.maxY) / 2 + 20 * b.deltaMax),
        ((b.minX + b.maxX) / 2 + 20 * b.deltaMax, (b.minY + b.maxY) / 2 - b.deltaMax)) := rfl

theorem superTriangle_side_pos {b : Bounds} (hb : 0 < b.deltaMax) :
    0 < side (superTriangle b).pos.1 (superTriangle b).pos.2.1 (superTriangle b).pos.2.2 := by
  have hside : side (superTriangle b).pos.1 (superTriangle b).pos.2.1 (superTriangle b).pos.2.2
      = 840 * (b.deltaMax * b.deltaMax) := by
    rw [superTriangle_pos]
    simp only [side]
    ring
  rw [hside]
  exact mul_pos (by norm_num) (mul_pos hb hb)

theorem Bounds.Covers.within {b : Bounds} {u : Vector2} (h : b.Covers u) (hb : 0 < b.deltaMax) :
    Within (superTriangle b).pos u.pos := by
  obtain ⟨h₁, h₂, h₃, h₄⟩ := h
  obtain ⟨hx, hy⟩ := b.le_deltaMax
  intro p q hpq
  rw [superTriangle_pos, mem_edges] at hpq
  -- each side is the greater side of the bounds, times a distance
  rcases hpq with ⟨rfl, rfl⟩ | ⟨rfl, rfl⟩ | ⟨rfl, rfl⟩
  · have hside : side ((b.minX + b.maxX) / 2 - 20 * b.deltaMax, (b.minY + b.maxY) / 2 - b.deltaMax)
        ((b.minX + b.maxX) / 2, (b.minY + b.maxY) / 2 + 20 * b.deltaMax) u.pos
        = b.deltaMax * (21 * (u.x - (b.minX + b.maxX) / 2)
            - 20 * (u.y - (b.minY + b.maxY) / 2) + 400 * b.deltaMax) := by
      simp only [side, Vector2.pos]
      ring
    rw [hside]
    exact mul_pos hb (by linarith)
  · have hside : side ((b.minX + b.maxX) / 2, (b.minY + b.maxY) / 2 + 20 * b.deltaMax)
        ((b.minX + b.maxX) / 2 + 20 * b.deltaMax, (b.minY + b.maxY) / 2 - b.deltaMax) u.pos
        = b.deltaMax * (400 * b.deltaMax - 21 * (u.x - (b.minX + b.maxX) / 2)
            - 20 * (u.y - (b.minY + b.maxY) / 2)) := by
      simp only [side, Vector2.pos]
      ring
    rw [hside]
    exact mul_pos hb (by linarith)
  · have hside : side ((b.minX + b.maxX) / 2 + 20 * b.deltaMax, (b.minY + b.maxY) / 2 - b.deltaMax)
        ((b.minX + b.maxX) / 2 - 20 * b.deltaMax, (b.minY + b.maxY) / 2 - b.deltaMax) u.pos
        = b.deltaMax * (40 * (u.y - (b.minY + b.maxY) / 2) + 40 * b.deltaMax) := by
      simp only [side, Vector2.pos]
      ring
    rw [hside]
    exact mul_pos hb (by linarith)

/-- Bounds without extent. -/
theorem Bounds.Covers.pos_eq {b : Bounds} {u : Vector2} (h : b.Covers u) (hb : ¬ 0 < b.deltaMax) :
    u.pos = (superTriangle b).p1.pos := by
  obtain ⟨h₁, h₂, h₃, h₄⟩ := h
  obtain ⟨hx, hy⟩ := b.le_deltaMax
  have hzero : b.deltaMax = 0 := le_antisymm (not_lt.mp hb) (by linarith)
  have hp1 : (superTriangle b).p1.pos
      = ((b.minX + b.maxX) / 2 - 20 * b.deltaMax, (b.minY + b.maxY) / 2 - b.deltaMax) := rfl
  rw [hp1, hzero]
  exact Prod.ext (by simp only [Vector2.pos]; linarith) (by simp only [Vector2.pos]; linarith)

end Delaunay

namespace UnityMesh

open Delaunay

/-- Where a point of the input is in the triangulation. -/
def flat (v : Vector3 ℚ) : ℚ × ℚ := (v.x, v.z)

/-- The triangle that `triangulate` starts with. -/
def superOf (input : List (Vector3 ℚ)) : Triangle2D :=
  superTriangle (bounds .default (vertices input))

/-- Where the corners of the triangle around all points are. -/
def superCorners (input : List (Vector3 ℚ)) : List (ℚ × ℚ) :=
  (superOf input).corners.map Vector2.pos

/-- Two points of the input make a triangle with `(0, 0)`: there is no earlier point in
its circle, nor on the circle beyond the first edge, and no later point in or on it. -/
def JoinsOrigin (input : List (Vector3 ℚ)) : Prop :=
  ∃ pre z post, input = pre ++ z :: post ∧ ∃ w ∈ pre, ∃ a b,
    (a = (0, 0) ∧ b = flat w ∨ a = flat w ∧ b = (0, 0)) ∧ 0 < side a b (flat z) ∧
    (∀ u ∈ superCorners input ++ pre.map flat,
      0 ≤ power a b (flat z) u ∧ (power a b (flat z) u = 0 → 0 ≤ side a b u)) ∧
    ∀ u ∈ post.map flat, 0 < power a b (flat z) u

/-- The indices that `trianglate` appends are those of the points of the input at the
corners of the triangles. -/
def RefersToInput (input : List (Vector3 ℚ)) : Prop :=
  ∃ triangles, triangulate (vertices input) = some triangles ∧
    (∀ out, trianglate input out = some (out ++ triangles.flatMap indices)) ∧
    (∀ i ∈ triangles.flatMap indices, ∃ k : ℕ, k < input.length ∧ i = some (k : ℤ)) ∧
    ∀ t ∈ triangles, ∀ v ∈ t.corners, ∃ (k : ℕ) (v3 : Vector3 ℚ),
      v.index = some (k : ℤ) ∧ input[k]? = some v3 ∧ v.x = v3.x ∧ v.y = v3.z

theorem vertices_pos (input : List (Vector3 ℚ)) :
    (vertices input).map Vector2.pos = List.replicate input.length (0, 0) ++ input.map flat := by
  rw [vertices, List.map_append, List.map_replicate]
  refine congrArg _ (List.ext_getElem? fun i => ?_)
  rw [List.getElem?_map, List.getElem?_mapIdx, List.getElem?_map, Option.map_map]
  rfl

theorem mem_mapIdx {input : List (Vector3 ℚ)} {v : Vector2}
    (hv : v ∈ input.mapIdx fun (index : ℕ) v3 => (⟨v3.x, v3.z, some (index : ℤ)⟩ : Vector2)) :
    ∃ (k : ℕ) (v3 : Vector3 ℚ),
      v.index = some (k : ℤ) ∧ input[k]? = some v3 ∧ v.x = v3.x ∧ v.y = v3.z := by
  obtain ⟨k, hk, rfl⟩ := List.mem_mapIdx.mp hv
  exact ⟨k, _, rfl, List.getElem?_eq_getElem hk, rfl, rfl⟩

/-- A vertex is one of the points, unless it has no index and no point is at its position. -/
theorem newest_vertices {input : List (Vector3 ℚ)} {v : Vector2} (h : Newest (vertices input) v) :
    (∃ (k : ℕ) (v3 : Vector3 ℚ),
      v.index = some (k : ℤ) ∧ input[k]? = some v3 ∧ v.x = v3.x ∧ v.y = v3.z) ∨
    v = .default ∧ ∀ w ∈ input, flat w ≠ (0, 0) := by
  obtain ⟨pre, post, hsplit, hpost⟩ := h
  rcases List.append_eq_append_iff.mp hsplit with ⟨c, -, hc⟩ | ⟨c, hc, hc'⟩
  · exact Or.inl (mem_mapIdx (hc ▸ List.mem_append_right _ List.mem_cons_self))
  · cases c with
    | nil =>
        rw [List.nil_append] at hc'
        exact Or.inl (mem_mapIdx (hc' ▸ List.mem_cons_self))
    | cons d c =>
        obtain ⟨rfl, rfl⟩ := List.cons.inj hc'
        obtain rfl : v = .default :=
          List.eq_of_mem_replicate (hc ▸ List.mem_append_right _ List.mem_cons_self)
        refine Or.inr ⟨rfl, fun w hw hzero => ?_⟩
        obtain ⟨k, hk, rfl⟩ := List.getElem_of_mem hw
        exact hpost _ (List.mem_append_right _ (List.mem_mapIdx.mpr ⟨k, hk, rfl⟩)) hzero

theorem triangulate_vertices {input : List (Vector3 ℚ)} (hne : input ≠ []) :
    ∃ triangles, triangulate (vertices input) = some triangles ∧ ∀ t, t ∈ triangles ↔
      t ∈ (vertices input).foldl insertVertex [superOf input] ∧
        ∀ v ∈ t.corners, v.pos ∉ superCorners input := by
  obtain ⟨v, input', rfl⟩ := List.exists_cons_of_ne_nil hne
  refine ⟨_, rfl, fun t => ?_⟩
  rw [List.mem_filter]
  refine and_congr_right fun _ => ?_
  rw [Bool.not_eq_true', Bool.or_eq_false_iff, Bool.or_eq_false_iff,
    Triangle2D.containsVertex_eq_false_iff, Triangle2D.containsVertex_eq_false_iff,
    Triangle2D.containsVertex_eq_false_iff, ← forall₂_and, ← forall₂_and]
  refine forall₂_congr fun v _ => ?_
  rw [superCorners, Triangle2D.corners, List.map_cons, List.map_cons, List.map_cons, List.map_nil,
    List.mem_cons, List.mem_cons, List.mem_singleton, not_or, not_or, and_assoc]
  rfl

/-- Without extent, the corners of all triangles are those of the super triangle. -/
theorem triangulate_of_not_pos {input : List (Vector3 ℚ)} (hne : input ≠ [])
    (hb : ¬ 0 < (bounds .default (vertices input)).deltaMax) :
    triangulate (vertices input) = some [] := by
  obtain ⟨triangles, htriangles, hmem⟩ := triangulate_vertices hne
  rw [htriangles]
  refine congrArg some (List.eq_nil_iff_forall_not_mem.mpr fun t ht => ?_)
  obtain ⟨ht, hcorners⟩ := (hmem t).mp ht
  have hp1 : t.p1 ∈ t.corners := List.mem_cons_self
  refine hcorners t.p1 hp1 ?_
  rcases exists_of_mem_foldl ht hp1 with ⟨t', ht', hv⟩ | hv
  · rw [List.mem_singleton.mp ht'] at hv
    exact List.mem_map_of_mem hv
  · rw [(bounds_covers hv).pos_eq hb]
    exact List.mem_map_of_mem List.mem_cons_self

theorem refersToInput_of_corners {input : List (Vector3 ℚ)} {triangles : List Triangle2D}
    (htriangles : triangulate (vertices input) = some triangles)
    (hcorners : ∀ t ∈ triangles, ∀ v ∈ t.corners, ∃ (k : ℕ) (v3 : Vector3 ℚ),
      v.index = some (k : ℤ) ∧ input[k]? = some v3 ∧ v.x = v3.x ∧ v.y = v3.z) :
    RefersToInput input := by
  refine ⟨triangles, htriangles, fun out => ?_, fun i hi => ?_, hcorners⟩
  · rw [trianglate, htriangles]
    rfl
  · obtain ⟨t, ht, hi⟩ := List.mem_flatMap.mp hi
    obtain ⟨v, hv, rfl⟩ : ∃ v ∈ t.corners, v.index = i := List.mem_map.mp hi
    obtain ⟨k, v3, hindex, hk, -, -⟩ := hcorners t ht v hv
    exact ⟨k, (List.getElem?_eq_some_iff.mp hk).1, hindex⟩

/-- A triangle at `(0, 0)` was made by two points of the input. -/
theorem joinsOrigin_of_made {input : List (Vector3 ℚ)} {a b z : ℚ × ℚ}
    (hmade : Made (superCorners input ++ (vertices input).map Vector2.pos) (a, b, z))
    (hside : 0 < side a b z) (hinput : ∀ w ∈ input, flat w ≠ (0, 0))
    (ha : a ∉ superCorners input) (hb : b ∉ superCorners input)
    (ho : a = (0, 0) ∨ b = (0, 0) ∨ z = (0, 0)) : JoinsOrigin input := by
  obtain ⟨pre, post, hsplit, ha', hb', hpre, hpost⟩ := hmade
  have hab := (ne_of_side_ne_zero hside.ne').1
  have hzero {c : ℚ × ℚ} (hc : c ∉ superCorners input)
      (hc' : c ∈ superCorners input ++ List.replicate input.length (0, 0)) : c = (0, 0) :=
    List.eq_of_mem_replicate ((List.mem_append.mp hc').resolve_left hc)
  rw [vertices_pos, ← List.append_assoc] at hsplit
  rcases List.append_eq_append_iff.mp hsplit with ⟨c, hc, hc'⟩ | ⟨c, hc, -⟩
  · obtain ⟨pre₃, l, rfl, rfl, hl⟩ := List.map_eq_append_iff.mp hc'
    obtain ⟨z₃, post₃, rfl, rfl, rfl⟩ := List.map_eq_cons_iff.mp hl
    have hpoint {c : ℚ × ℚ} (hc₀ : c ∉ superCorners (pre₃ ++ z₃ :: post₃)) (hc' : c ∈ pre)
        (hne : c ≠ (0, 0)) : ∃ w ∈ pre₃, c = flat w := by
      rw [hc] at hc'
      rcases List.mem_append.mp hc' with hc' | hc'
      · exact absurd (hzero hc₀ hc') hne
      · obtain ⟨w, hw, rfl⟩ := List.mem_map.mp hc'
        exact ⟨w, hw, rfl⟩
    have hempty : ∀ u ∈ superCorners (pre₃ ++ z₃ :: post₃) ++ pre₃.map flat,
        0 ≤ power a b (flat z₃) u ∧ (power a b (flat z₃) u = 0 → 0 ≤ side a b u) := by
      refine fun u hu => hpre u ?_
      rw [hc]
      rcases List.mem_append.mp hu with hu | hu
      · exact List.mem_append_left _ (List.mem_append_left _ hu)
      · exact List.mem_append_right _ hu
    rcases ho with rfl | rfl | hz
    · obtain ⟨w, hw, rfl⟩ := hpoint hb hb' hab.symm
      exact ⟨pre₃, z₃, post₃, rfl, w, hw, _, _, Or.inl ⟨rfl, rfl⟩, hside, hempty, hpost⟩
    · obtain ⟨w, hw, rfl⟩ := hpoint ha ha' hab
      exact ⟨pre₃, z₃, post₃, rfl, w, hw, _, _, Or.inr ⟨rfl, rfl⟩, hside, hempty, hpost⟩
    · exact absurd hz (hinput z₃ (List.mem_append_right _ List.mem_cons_self))
  · -- made before the points of the input, of corners at one position
    refine absurd ?_ hab
    rw [hzero ha (hc ▸ List.mem_append_left _ ha'), hzero hb (hc ▸ List.mem_append_left _ hb')]

/-- With extent, the super triangle contains all points. -/
theorem within_superOf {input : List (Vector3 ℚ)} (hb : 0 < (bounds .default (vertices input)).deltaMax) :
    ∀ p ∈ List.replicate input.length (0, 0) ++ input.map flat, Within (superOf input).pos p := by
  rw [← vertices_pos]
  intro p hp
  obtain ⟨u, hu, rfl⟩ := List.mem_map.mp hp
  exact (bounds_covers hu).within hb

theorem not_mem_superCorners {input : List (Vector3 ℚ)} {p : ℚ × ℚ}
    (hp : Within (superOf input).pos p) : p ∉ superCorners input := by
  have h₁ := hp.ne (mem_edges.mpr (Or.inl ⟨rfl, rfl⟩))
  have h₂ := hp.ne (mem_edges.mpr (Or.inr (Or.inl ⟨rfl, rfl⟩)))
  rw [superCorners, Triangle2D.corners, List.map_cons, List.map_cons, List.map_cons, List.map_nil,
    List.mem_cons, List.mem_cons, List.mem_singleton, not_or, not_or]
  exact ⟨h₁.1.symm, h₁.2.symm, h₂.2.symm⟩

/-- The run over the vertices makes the triangles around `(0, 0)` first. -/
theorem vertices_foldl_pos {input : List (Vector3 ℚ)} (hne : input ≠ [])
    (hb : 0 < (bounds .default (vertices input)).deltaMax) :
    BowyerWatson.Delaunay (superOf input).pos
        (superCorners input ++ List.replicate input.length (0, 0)) (fan (superOf input).pos (0, 0)) ∧
      ((vertices input).foldl insertVertex [superOf input]).map Triangle2D.pos
        = (input.map flat).foldl insertPoint (fan (superOf input).pos (0, 0)) := by
  have hs : 0 < side (superOf input).pos.1 (superOf input).pos.2.1 (superOf input).pos.2.2 :=
    superTriangle_side_pos hb
  have hwithin := within_superOf hb
  obtain ⟨v, rest, rfl⟩ := List.exists_cons_of_ne_nil hne
  have horigin := hwithin (0, 0) (List.mem_append_left _ List.mem_cons_self)
  have hfan : (List.replicate (v :: rest).length (0, 0)).foldl insertPoint [(superOf (v :: rest)).pos]
      = fan (superOf (v :: rest)).pos (0, 0) := foldl_replicate hs horigin rest.length
  constructor
  · rw [← hfan]
    exact (BowyerWatson.Delaunay.initial hs).foldl fun p hp => hwithin p (List.mem_append_left _ hp)
  · rw [← hfan, ← List.foldl_append, ← vertices_pos]
    exact (tracked_foldl (tracked_initial hs) fun u hu => (bounds_covers hu).within hb).2

/-- Two points of the input that make a triangle with `(0, 0)` do so in the run. -/
theorem JoinsOrigin.mem_foldl {input : List (Vector3 ℚ)} (h : JoinsOrigin input)
    (hinput : ∀ w ∈ input, flat w ≠ (0, 0))
    (hb : 0 < (bounds .default (vertices input)).deltaMax) :
    ∃ a b z, (a, b, z) ∈ (input.map flat).foldl insertPoint (fan (superOf input).pos (0, 0)) ∧
      (∀ c, c = a ∨ c = b ∨ c = z → Within (superOf input).pos c) ∧
      (a = (0, 0) ∨ b = (0, 0)) := by
  have hwithin := within_superOf hb
  obtain ⟨pre, z, post, rfl, w, hw, a, b, hab, hside, hempty, hpost⟩ := h
  have hpoint {v : Vector3 ℚ} (hv : v ∈ pre ++ z :: post) := hwithin _
    (List.mem_append_right _ (List.mem_map_of_mem hv))
  have hlength : (0, 0) ∈ List.replicate (pre ++ z :: post).length ((0, 0) : ℚ × ℚ) :=
    List.mem_replicate.mpr ⟨by simp, rfl⟩
  have horigin := hwithin (0, 0) (List.mem_append_left _ hlength)
  obtain ⟨hfan, -⟩ := vertices_foldl_pos (by simp) hb
  have ho : a = (0, 0) ∨ b = (0, 0) := hab.imp And.left And.right
  have hends : ∀ c, c = a ∨ c = b → c = (0, 0) ∨ c = flat w := by
    rintro c (rfl | rfl)
    · exact hab.imp And.left And.left
    · exact (hab.imp And.right And.right).symm
  have hmem : ∀ c, c = a ∨ c = b → c ∈ (superCorners (pre ++ z :: post) ++
      List.replicate (pre ++ z :: post).length (0, 0)) ++ pre.map flat := by
    intro c hc
    rcases hends c hc with rfl | rfl
    · exact List.mem_append_left _ (List.mem_append_right _ hlength)
    · exact List.mem_append_right _ (List.mem_map_of_mem hw)
  refine ⟨a, b, flat z, ?_, ?_, ho⟩
  · rw [List.map_append, List.map_cons]
    refine hfan.mem_foldl_of_empty horigin ⟨_, _, has_fan _ _⟩ (fun v hv => ?_) ho
      (hmem a (Or.inl rfl)) (hmem b (Or.inr rfl)) hside (fun u hu => ?_) hpost
    · obtain ⟨v₃, hv₃, rfl⟩ := List.mem_map.mp hv
      exact ⟨hpoint (List.mem_append_left _ hv₃), hinput v₃ (List.mem_append_left _ hv₃)⟩
    · rw [List.append_assoc, List.mem_append, List.mem_append] at hu
      rcases hu with hu | hu | hu
      · exact hempty u (List.mem_append_left _ hu)
      · -- the origin itself is on the circle, and an end of the edge
        obtain rfl := List.eq_of_mem_replicate hu
        rcases ho with rfl | rfl
        · exact ⟨(power_left _ _ _).ge, fun _ => (side_left _ _).ge⟩
        · exact ⟨(power_right _ _ _).ge, fun _ => (side_right _ _).ge⟩
      · exact hempty u (List.mem_append_right _ hu)
  · intro c hc
    rw [← or_assoc] at hc
    rcases hc with hc | rfl
    · rcases hends c hc with rfl | rfl
      · exact horigin
      · exact hpoint (List.mem_append_left _ hw)
    · exact hpoint (List.mem_append_right _ List.mem_cons_self)

/-- That triangle stays, and one of its corners is no point of the input. -/
theorem JoinsOrigin.not_refersToInput {input : List (Vector3 ℚ)} (h : JoinsOrigin input)
    (hne : input ≠ []) (hinput : ∀ w ∈ input, flat w ≠ (0, 0))
    (hb : 0 < (bounds .default (vertices input)).deltaMax) : ¬ RefersToInput input := by
  rintro ⟨triangles, htriangles, -, -, hcorners⟩
  obtain ⟨_, htriangles', hmem⟩ := triangulate_vertices hne
  obtain rfl := Option.some.inj (htriangles.symm.trans htriangles')
  obtain ⟨a, b, z, hrun, hwithin, ho⟩ := h.mem_foldl hinput hb
  rw [← (vertices_foldl_pos hne hb).2] at hrun
  obtain ⟨t, ht, hpos⟩ := List.mem_map.mp hrun
  obtain ⟨h₁, h₂⟩ : t.p1.pos = a ∧ (t.p2.pos, t.p3.pos) = (b, z) := Prod.mk_inj.mp hpos
  obtain ⟨h₂, h₃⟩ := Prod.mk_inj.mp h₂
  have hsuper : ∀ v ∈ t.corners, v.pos ∉ superCorners input := by
    intro v hv
    simp only [Triangle2D.corners, List.mem_cons, List.not_mem_nil, or_false] at hv
    refine not_mem_superCorners (hwithin v.pos ?_)
    rcases hv with rfl | rfl | rfl
    · exact Or.inl h₁
    · exact Or.inr (Or.inl h₂)
    · exact Or.inr (Or.inr h₃)
  obtain ⟨v, hv, hzero⟩ : ∃ v ∈ t.corners, v.pos = (0, 0) := by
    rcases ho with rfl | rfl
    · exact ⟨t.p1, List.mem_cons_self, h₁⟩
    · exact ⟨t.p2, List.mem_cons_of_mem _ List.mem_cons_self, h₂⟩
  obtain ⟨k, v3, -, hk, hx, hy⟩ := hcorners t ((hmem t).mpr ⟨ht, hsuper⟩) v hv
  refine hinput v3 (List.mem_of_getElem? hk) ?_
  rw [flat, ← hx, ← hy]
  exact hzero

/-- A corner that is no point of the input is at `(0, 0)`, in a triangle that two of them
made. -/
theorem refersToInput_of_pos {input : List (Vector3 ℚ)} (hne : input ≠ [])
    (hb : 0 < (bounds .default (vertices input)).deltaMax)
    (hor : (∃ v ∈ input, flat v = (0, 0)) ∨ ¬ JoinsOrigin input) : RefersToInput input := by
  obtain ⟨triangles, htriangles, hmem⟩ := triangulate_vertices hne
  obtain ⟨htracked, -⟩ := tracked_foldl (tracked_initial (superTriangle_side_pos hb))
    fun u (hu : u ∈ vertices input) => (bounds_covers hu).within hb
  refine refersToInput_of_corners htriangles fun t ht v hv => ?_
  obtain ⟨ht, hsuper⟩ := (hmem t).mp ht
  rcases htracked.newest t ht v hv with hcorner | hnewest
  · exact absurd (List.mem_map_of_mem hcorner) (hsuper v hv)
  rcases newest_vertices hnewest with hpoint | ⟨rfl, hno⟩
  · exact hpoint
  rcases hor with ⟨w, hw, hzero⟩ | hjoins
  · exact absurd hzero (hno w hw)
  refine absurd ?_ hjoins
  refine joinsOrigin_of_made (htracked.delaunay.made _ (List.mem_map_of_mem ht))
    (htracked.side_pos t ht) hno ?_ ?_ ?_
  · exact hsuper t.p1 (by simp [Triangle2D.corners])
  · exact hsuper t.p2 (by simp [Triangle2D.corners])
  · simp only [Triangle2D.corners, List.mem_cons, List.not_mem_nil, or_false] at hv
    rcases hv with h | h | h
    · exact Or.inl (congrArg Vector2.pos h.symm)
    · exact Or.inr (Or.inl (congrArg Vector2.pos h.symm))
    · exact Or.inr (Or.inr (congrArg Vector2.pos h.symm))

/-- Without extent, all points of the input are at `(0, 0)`. -/
theorem exists_flat_of_not_pos {input : List (Vector3 ℚ)} (hne : input ≠ [])
    (hb : ¬ 0 < (bounds .default (vertices input)).deltaMax) : ∃ v ∈ input, flat v = (0, 0) := by
  obtain ⟨v, rest, rfl⟩ := List.exists_cons_of_ne_nil hne
  have hpos : ∀ p ∈ (vertices (v :: rest)).map Vector2.pos, p = (superOf (v :: rest)).p1.pos := by
    intro p hp
    obtain ⟨u, hu, rfl⟩ := List.mem_map.mp hp
    exact (bounds_covers hu).pos_eq hb
  rw [vertices_pos] at hpos
  have hflat := hpos (flat v) (List.mem_append_right _ (List.mem_map_of_mem List.mem_cons_self))
  have hzero := hpos (0, 0) (List.mem_append_left _ List.mem_cons_self)
  exact ⟨v, List.mem_cons_self, hflat.trans hzero.symm⟩

/-- **The indices refer to the input exactly if a point of it is at `(0, 0)`, or no two points
of it make a triangle with `(0, 0)`.** -/
theorem refersToInput_iff {input : List (Vector3 ℚ)} (hne : input ≠ []) :
    RefersToInput input ↔ (∃ v ∈ input, v.x = 0 ∧ v.z = 0) ∨ ¬ JoinsOrigin input := by
  have hzero (w : Vector3 ℚ) : w.x = 0 ∧ w.z = 0 ↔ flat w = (0, 0) := Prod.mk_inj.symm
  simp only [hzero]
  by_cases hb : 0 < (bounds .default (vertices input)).deltaMax
  · refine ⟨fun hrefers => ?_, refersToInput_of_pos hne hb⟩
    refine or_iff_not_imp_left.mpr fun hno hjoins => ?_
    exact hjoins.not_refersToInput hne (fun w hw hw' => hno ⟨w, hw, hw'⟩) hb hrefers
  · refine iff_of_true ?_ (Or.inl (exists_flat_of_not_pos hne hb))
    exact refersToInput_of_corners (triangulate_of_not_pos hne hb) fun t ht =>
      absurd ht List.not_mem_nil

theorem refersToInput_of_origin : RefersToInput [⟨0, 0, 0⟩, ⟨1, 0, 0⟩, ⟨0, 0, 1⟩] :=
  (refersToInput_iff (List.cons_ne_nil _ _)).mpr (Or.inl ⟨⟨0, 0, 0⟩, List.mem_cons_self, rfl, rfl⟩)

/-- The triangle of two points has a third corner, at `(0, 0)`. -/
theorem not_refersToInput_two : ¬ RefersToInput [⟨1, 0, 0⟩, ⟨0, 0, 1⟩] := by
  rintro ⟨triangles, -, hout, hindices, -⟩
  have hrun : trianglate [⟨1, 0, 0⟩, ⟨0, 0, 1⟩] [] = some [some 0, none, some 1] := by
    decide +kernel
  rw [hout, List.nil_append, Option.some.injEq] at hrun
  obtain ⟨k, -, hk⟩ := hindices none (by rw [hrun]; simp)
  cases hk

end UnityMesh

end PCGForUnity
