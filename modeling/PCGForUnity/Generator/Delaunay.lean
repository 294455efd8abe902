/-
PCGForUnity/Generator/Delaunay.lean

`unityMesh::trianglate`, which joins the points of a mesh by triangles (`UnityMesh.cpp`),
with the `Delaunay` that it uses (`Delaunay.h`, `Triangle2D.h`, `Edge.h`, `Vector2Lite.h`).

Design.  The numbers are exact.  An index that a constructor does not set is unspecified,
which is `none`: the vertices that `trianglate` makes by resizing its list have none, nor have
the corners of the triangle around all points.  Two vertices are equal if their positions are.

The loop over the vertices is as in the code: the triangles whose circle contains the vertex
are bad, the edges that two of them have in common are bad, too, and the other edges of bad
triangles are joined with the vertex.  What `isBad` marks is removed as soon as all is marked,
and so the flag is left out; so are `_vertices` and `_edges`, which nothing reads.

An empty input has no result, since the bounds of no points are asked for.
-/
import PCGForUnity.Generator.Mountain

namespace PCGForUnity

/-- `Vector2` -/
structure Vector2 where
  x : ℚ
  y : ℚ
  index : Option ℤ
deriving DecidableEq

namespace Vector2

/-- `operator==`, which does not compare the indices. -/
def eq (v other : Vector2) : Bool := decide (v.x = other.x) && decide (v.y = other.y)

/-- `Vector2()` -/
def default : Vector2 := ⟨0, 0, none⟩

/-- `Vector2(_x, _y)` -/
def ofXY (x y : ℚ) : Vector2 := ⟨x, y, none⟩

end Vector2

/-- `Edge` -/
structure Edge where
  p1 : Vector2
  p2 : Vector2
deriving DecidableEq

/-- `operator==` -/
def Edge.eq (e e2 : Edge) : Bool :=
  (e.p1.eq e2.p1 && e.p2.eq e2.p2) || (e.p1.eq e2.p2 && e.p2.eq e2.p1)

/-- `Triangle2D` -/
structure Triangle2D where
  p1 : Vector2
  p2 : Vector2
  p3 : Vector2
deriving DecidableEq

namespace Triangle2D

/-! The edges, which the constructor makes of the corners and nothing changes. -/

/-- The side from `p1` to `p2`. -/
def e1 (t : Triangle2D) : Edge := ⟨t.p1, t.p2⟩

/-- The side from `p2` to `p3`. -/
def e2 (t : Triangle2D) : Edge := ⟨t.p2, t.p3⟩

/-- The side from `p3` to `p1`. -/
def e3 (t : Triangle2D) : Edge := ⟨t.p3, t.p1⟩

/-- `containsVertex` -/
def containsVertex (t : Triangle2D) (v : Vector2) : Bool := t.p1.eq v || t.p2.eq v || t.p3.eq v

/-- `circum_x` in `circumCircleContains`. -/
def circumX (t : Triangle2D) : ℚ :=
  let ab := t.p1.x * t.p1.x + t.p1.y * t.p1.y
  let cd := t.p2.x * t.p2.x + t.p2.y * t.p2.y
  let ef := t.p3.x * t.p3.x + t.p3.y * t.p3.y
  (ab * (t.p3.y - t.p2.y) + cd * (t.p1.y - t.p3.y) + ef * (t.p2.y - t.p1.y))
    / (t.p1.x * (t.p3.y - t.p2.y) + t.p2.x * (t.p1.y - t.p3.y) + t.p3.x * (t.p2.y - t.p1.y)) / 2

/-- `circum_y` in `circumCircleContains`. -/
def circumY (t : Triangle2D) : ℚ :=
  let ab := t.p1.x * t.p1.x + t.p1.y * t.p1.y
  let cd := t.p2.x * t.p2.x + t.p2.y * t.p2.y
  let ef := t.p3.x * t.p3.x + t.p3.y * t.p3.y
  (ab * (t.p3.x - t.p2.x) + cd * (t.p1.x - t.p3.x) + ef * (t.p2.x - t.p1.x))
    / (t.p1.y * (t.p3.x - t.p2.x) + t.p2.y * (t.p1.x - t.p3.x) + t.p3.y * (t.p2.x - t.p1.x)) / 2

/-- The square roots of two sums of squares compare as the sums do. -/
def circumCircleContains (t : Triangle2D) (v : Vector2) : Bool :=
  let circumRadius2 := (t.p1.x - t.circumX) * (t.p1.x - t.circumX)
    + (t.p1.y - t.circumY) * (t.p1.y - t.circumY)
  let dist2 := (v.x - t.circumX) * (v.x - t.circumX) + (v.y - t.circumY) * (v.y - t.circumY)
  decide (dist2 ≤ circumRadius2)

end Triangle2D

namespace Delaunay

/-- The least and the greatest coordinates. -/
structure Bounds where
  minX : ℚ
  minY : ℚ
  maxX : ℚ
  maxY : ℚ

/-- A turn of the loop that finds the bounds. -/
def Bounds.add (b : Bounds) (v : Vector2) : Bounds where
  minX := if v.x < b.minX then v.x else b.minX
  minY := if v.y < b.minY then v.y else b.minY
  maxX := if v.x > b.maxX then v.x else b.maxX
  maxY := if v.y > b.maxY then v.y else b.maxY

/-- The bounds of the vertices, of which `v` is the first. -/
def bounds (v : Vector2) (vertices : List Vector2) : Bounds :=
  vertices.foldl Bounds.add ⟨v.x, v.y, v.x, v.y⟩

/-- The triangle with the corners `p1`, `p2` and `p3`. -/
def superTriangle (b : Bounds) : Triangle2D :=
  let dx := b.maxX - b.minX
  let dy := b.maxY - b.minY
  let deltaMax := if dx > dy then dx else dy
  let midx := (b.minX + b.maxX) / 2
  let midy := (b.minY + b.maxY) / 2
  { p1 := .ofXY (midx - 20 * deltaMax) (midy - deltaMax)
    p2 := .ofXY midx (midy + 20 * deltaMax)
    p3 := .ofXY (midx + 20 * deltaMax) (midy - deltaMax) }

/-- The edges that are not bad.  Each equals itself, and a bad one equals another. -/
def removeBad (polygon : List Edge) : List Edge :=
  polygon.filter fun e1 => decide (polygon.countP (fun e2 => e1.eq e2) ≤ 1)

/-- A turn of the loop over the vertices. -/
def insertVertex (triangles : List Triangle2D) (p : Vector2) : List Triangle2D :=
  let polygon := (triangles.filter fun t => t.circumCircleContains p).flatMap fun t =>
    [t.e1, t.e2, t.e3]
  (triangles.filter fun t => !t.circumCircleContains p)
    ++ (removeBad polygon).map fun e => ⟨e.p1, e.p2, p⟩

/-- `triangulate`; there must be a first vertex. -/
def triangulate (vertices : List Vector2) : Option (List Triangle2D) :=
  match vertices with
  | [] => none
  | v :: _ =>
      let s := superTriangle (bounds v vertices)
      some ((vertices.foldl insertVertex [s]).filter fun t =>
        !(t.containsVertex s.p1 || t.containsVertex s.p2 || t.containsVertex s.p3))

end Delaunay

namespace UnityMesh

/-- `v2`, which has as many elements as there are points before they are added. -/
def vertices (input : List (Vector3 ℚ)) : List Vector2 :=
  List.replicate input.length .default ++ input.mapIdx fun index v3 => ⟨v3.x, v3.z, some index⟩

/-- The indices that are appended for a triangle. -/
def indices (t : Triangle2D) : List (Option ℤ) := [t.p1.index, t.p2.index, t.p3.index]

/-- `trianglate`: the indices go behind those of `out`. -/
def trianglate (input : List (Vector3 ℚ)) (out : List (Option ℤ)) : Option (List (Option ℤ)) := do
  let triangles ← Delaunay.triangulate (vertices input)
  some (out ++ triangles.flatMap indices)

end UnityMesh

end PCGForUnity
