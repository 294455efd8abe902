/-
PCGForUnity/Lib/BowyerWatson.lean

The incremental triangulation of points in a plane: a point is inserted by removing the
triangles whose closed disc contains it, and joining it to the edges around the hole.

    insertPoint T p  =  T without the triangles of the hole,
                        and (e.1, e.2, p) for each edge e of its outline

Design.  The triangles are oriented, with their third corner to the right of their first edge,
and a pair of ends of an edge is a dart.  What a run keeps is local (`Delaunay`): no two
triangles have a dart in common, each dart has its reverse unless it is one of the triangle
that the run starts with, and each triangle tells when it was made (`Made`).

So no global notion of a triangulation, of its area or of connectedness is needed to insert a
point: an edge of the outline is a dart of a bad triangle whose reverse is of a good one, and
the new triangles are on the right side of it because discs through an edge are ordered
(`Circumcircle`).  Points are of any ordered field.
-/
import PCGForUnity.Lib.Circumcircle
import Mathlib.Data.List.Nodup
import Mathlib.Data.List.Flatten
import Mathlib.Data.List.Pairwise
import Mathlib.Data.Finset.Card
import Mathlib.Algebra.Order.Field.Basic

namespace PCGForUnity

namespace BowyerWatson

/-! ### Triangles by their edges -/

section Edges

variable {P : Type*} {T : List (P × P × P)} {E : List (P × P)} {a b c : P}

/-- The edges of a triangle, each by its ends. -/
def edges (t : P × P × P) : List (P × P) := [(t.1, t.2.1), (t.2.1, t.2.2), (t.2.2, t.1)]

/-- The directed edges of the triangles. -/
def darts (T : List (P × P × P)) : List (P × P) := T.flatMap edges

/-- The edges that occur once, whatever their direction. -/
def outline [DecidableEq P] (E : List (P × P)) : List (P × P) :=
  E.filter fun e => decide (E.countP (fun e' => decide (e' = e ∨ e' = e.swap)) ≤ 1)

/-- A triangle, from any of its corners on. -/
def Has (T : List (P × P × P)) (a b c : P) : Prop :=
  (a, b, c) ∈ T ∨ (c, a, b) ∈ T ∨ (b, c, a) ∈ T

theorem Has.rotate (h : Has T a b c) : Has T b c a := by
  rcases h with h | h | h
  · exact Or.inr (Or.inl h)
  · exact Or.inr (Or.inr h)
  · exact Or.inl h

theorem mem_edges {t : P × P × P} :
    (a, b) ∈ edges t ↔ (a = t.1 ∧ b = t.2.1) ∨ (a = t.2.1 ∧ b = t.2.2) ∨ (a = t.2.2 ∧ b = t.1) := by
  simp only [edges, List.mem_cons, Prod.mk.injEq, List.not_mem_nil, or_false]

theorem mem_darts : (a, b) ∈ darts T ↔ ∃ c, Has T a b c := by
  simp only [darts, List.mem_flatMap, mem_edges]
  constructor
  · rintro ⟨⟨x, y, z⟩, ht, ⟨rfl, rfl⟩ | ⟨rfl, rfl⟩ | ⟨rfl, rfl⟩⟩
    · exact ⟨z, Or.inl ht⟩
    · exact ⟨x, Or.inr (Or.inl ht)⟩
    · exact ⟨y, Or.inr (Or.inr ht)⟩
  · rintro ⟨c, ht | ht | ht⟩
    · exact ⟨_, ht, Or.inl ⟨rfl, rfl⟩⟩
    · exact ⟨_, ht, Or.inr (Or.inl ⟨rfl, rfl⟩)⟩
    · exact ⟨_, ht, Or.inr (Or.inr ⟨rfl, rfl⟩)⟩

theorem darts_append (T T' : List (P × P × P)) : darts (T ++ T') = darts T ++ darts T' :=
  List.flatMap_append

theorem has_filter {q : P × P × P → Bool} (hq : ∀ x y z, q (y, z, x) = q (x, y, z)) :
    Has (T.filter q) a b c ↔ Has T a b c ∧ q (a, b, c) = true := by
  simp only [Has, List.mem_filter]
  rw [← hq c a b, ← hq a b c]
  tauto

/-- Where no two triangles have a dart in common, one has at most one apex. -/
theorem Has.unique (hnodup : (darts T).Nodup) (hne : a ≠ b) {c' : P} (h : Has T a b c)
    (h' : Has T a b c') : c = c' := by
  obtain ⟨-, hdisjoint⟩ := List.nodup_flatMap.mp hnodup
  have hsame {t t' : P × P × P} (ht : t ∈ T) (ht' : t' ∈ T) (he : (a, b) ∈ edges t)
      (he' : (a, b) ∈ edges t') : t = t' := by
    by_contra hneq
    have : Std.Symm (Function.onFun List.Disjoint (edges (P := P))) :=
      ⟨fun _ _ h => List.Disjoint.symm h⟩
    exact hdisjoint.forall ht ht' hneq he he'
  have hrot : (a, b) ∈ edges (a, b, c) ∧ (a, b) ∈ edges (c, a, b) ∧ (a, b) ∈ edges (b, c, a) := by
    simp only [mem_edges, and_self, true_or, or_true]
  have hrot' : (a, b) ∈ edges (a, b, c') ∧ (a, b) ∈ edges (c', a, b) ∧
      (a, b) ∈ edges (b, c', a) := by
    simp only [mem_edges, and_self, true_or, or_true]
  rcases h with h | h | h <;> rcases h' with h' | h' | h'
  · exact (Prod.mk.inj (Prod.mk.inj (hsame h h' hrot.1 hrot'.1)).2).2
  · exact absurd (Prod.mk.inj (Prod.mk.inj (hsame h h' hrot.1 hrot'.2.1)).2).1.symm hne
  · exact absurd (Prod.mk.inj (hsame h h' hrot.1 hrot'.2.2)).1 hne
  · exact absurd (Prod.mk.inj (Prod.mk.inj (hsame h h' hrot.2.1 hrot'.1)).2).1 hne
  · exact (Prod.mk.inj (hsame h h' hrot.2.1 hrot'.2.1)).1
  · exact absurd (Prod.mk.inj (Prod.mk.inj (hsame h h' hrot.2.1 hrot'.2.2)).2).2.symm hne
  · exact absurd (Prod.mk.inj (hsame h h' hrot.2.2 hrot'.1)).1.symm hne
  · exact absurd (Prod.mk.inj (Prod.mk.inj (hsame h h' hrot.2.2 hrot'.2.1)).2).2 hne
  · exact (Prod.mk.inj (Prod.mk.inj (hsame h h' hrot.2.2 hrot'.2.2)).2).1

/-- The triangles that a first point makes. -/
def fan (s : P × P × P) (o : P) : List (P × P × P) :=
  (edges s).map fun e => (e.1, e.2, o)

theorem has_fan (s : P × P × P) (o : P) : Has (fan s o) o s.1 s.2.1 :=
  Or.inr (Or.inr (List.mem_map.mpr ⟨(s.1, s.2.1), mem_edges.mpr (Or.inl ⟨rfl, rfl⟩), rfl⟩))

variable [DecidableEq P]

theorem outline_sublist (E : List (P × P)) : (outline E).Sublist E := List.filter_sublist

/-- An edge stays that is neither there twice nor with its reverse. -/
theorem mem_outline (hnodup : E.Nodup) (hne : a ≠ b) :
    (a, b) ∈ outline E ↔ (a, b) ∈ E ∧ (b, a) ∉ E := by
  have hswap : (a, b) ≠ (b, a) := fun h => hne (Prod.mk.inj h).1
  have hcount (E : List (P × P)) :
      E.countP (fun e => decide (e = (a, b) ∨ e = (a, b).swap)) = E.count (a, b) + E.count (b, a) := by
    induction E with
    | nil => rfl
    | cons e E ih =>
        rw [List.countP_cons, List.count_cons, List.count_cons, ih]
        by_cases h : e = (a, b)
        · simp [h, hswap]
          omega
        · by_cases h' : e = (b, a)
          · simp [h', hswap.symm]
            omega
          · simp [h, h']
  rw [outline, List.mem_filter]
  refine and_congr_right fun hmem => ?_
  rw [hcount, List.count_eq_one_of_mem hnodup hmem, decide_eq_true_iff, ← List.count_eq_zero]
  omega

/-- As many edges lead to a corner as lead away from it. -/
theorem countP_darts (T : List (P × P × P)) (b : P) :
    (darts T).countP (fun e => decide (e.2 = b)) = (darts T).countP fun e => decide (e.1 = b) := by
  induction T with
  | nil => rfl
  | cons t T ih =>
      have htriangle : (edges t).countP (fun e => decide (e.2 = b))
          = (edges t).countP fun e => decide (e.1 = b) := by
        simp only [edges, List.countP_cons, List.countP_nil]
        omega
      rw [darts, List.flatMap_cons, List.countP_append, List.countP_append, htriangle]
      exact congrArg _ ih

/-- So they do in the outline, as the others lead there and back. -/
theorem countP_outline (hnodup : (darts T).Nodup) (hne : ∀ a b, (a, b) ∈ darts T → a ≠ b) (b : P) :
    (outline (darts T)).countP (fun e => decide (e.2 = b))
      = (outline (darts T)).countP fun e => decide (e.1 = b) := by
  obtain ⟨kept, hkept⟩ : ∃ kept, outline (darts T) = (darts T).filter kept := ⟨_, rfl⟩
  have hmem (a b : P) (h : (a, b) ∈ darts T) :
      (a, b) ∈ (darts T).filter (fun e => !kept e) ↔ (b, a) ∈ darts T := by
    have hiff := mem_outline hnodup (hne a b h)
    rw [hkept, List.mem_filter] at hiff
    rw [List.mem_filter]
    simp only [h, true_and, Bool.not_eq_true'] at hiff ⊢
    rw [← Bool.not_eq_true, hiff, not_not]
  -- the edges that go are a permutation of their reverses
  have hperm : ((darts T).filter fun e => !kept e).Perm
      (((darts T).filter fun e => !kept e).map Prod.swap) := by
    refine (List.perm_ext_iff_of_nodup (hnodup.filter _)
      ((hnodup.filter _).map Prod.swap_injective)).mpr ?_
    rintro ⟨x, y⟩
    rw [List.mem_map]
    constructor
    · intro h
      have hE := (List.mem_filter.mp h).1
      have hswap := (hmem x y hE).mp h
      exact ⟨(y, x), (hmem y x hswap).mpr hE, rfl⟩
    · rintro ⟨⟨y', x'⟩, h, he⟩
      obtain ⟨rfl, rfl⟩ := Prod.mk.inj he
      have hE := (List.mem_filter.mp h).1
      have hswap := (hmem _ _ hE).mp h
      exact (hmem _ _ hswap).mpr hE
  have hgone : ((darts T).filter fun e => !kept e).countP (fun e => decide (e.2 = b))
      = ((darts T).filter fun e => !kept e).countP fun e => decide (e.1 = b) := by
    rw [hperm.countP_eq, List.countP_map]
    rfl
  have hall := countP_darts T b
  rw [List.countP_eq_countP_filter_add _ _ kept,
    List.countP_eq_countP_filter_add (darts T) (fun e => decide (e.1 = b)) kept, hgone] at hall
  rw [hkept]
  exact Nat.add_right_cancel hall

/-- Who comes to a corner of the outline can leave it. -/
theorem exists_outline_next (hnodup : (darts T).Nodup) (hne : ∀ a b, (a, b) ∈ darts T → a ≠ b)
    (h : (a, b) ∈ outline (darts T)) : ∃ c, (b, c) ∈ outline (darts T) := by
  have hpos : 0 < (outline (darts T)).countP fun e => decide (e.2 = b) :=
    List.countP_pos_iff.mpr ⟨(a, b), h, decide_eq_true rfl⟩
  rw [countP_outline hnodup hne] at hpos
  obtain ⟨⟨b', c⟩, hmem, hb⟩ := List.countP_pos_iff.mp hpos
  obtain rfl : b' = b := of_decide_eq_true hb
  exact ⟨c, hmem⟩

theorem exists_outline_prev (hnodup : (darts T).Nodup) (hne : ∀ a b, (a, b) ∈ darts T → a ≠ b)
    (h : (a, b) ∈ outline (darts T)) : ∃ c, (c, a) ∈ outline (darts T) := by
  have hpos : 0 < (outline (darts T)).countP fun e => decide (e.1 = a) :=
    List.countP_pos_iff.mpr ⟨(a, b), h, decide_eq_true rfl⟩
  rw [← countP_outline hnodup hne] at hpos
  obtain ⟨⟨c, a'⟩, hmem, ha⟩ := List.countP_pos_iff.mp hpos
  obtain rfl : a' = a := of_decide_eq_true ha
  exact ⟨c, hmem⟩

theorem countP_le_one_iff {α : Type*} [DecidableEq α] {l : List α} (hnodup : l.Nodup)
    (q : α → Bool) :
    l.countP q ≤ 1 ↔ ∀ x ∈ l, q x = true → ∀ y ∈ l, q y = true → x = y := by
  rw [List.countP_eq_length_filter, ← List.toFinset_card_of_nodup (hnodup.filter q),
    Finset.card_le_one]
  simp only [List.mem_toFinset, List.mem_filter, and_imp]

/-- If one can leave a corner in one way only, then one can come to it in one way only. -/
theorem outline_prev_unique (hnodup : (darts T).Nodup) (hne : ∀ a b, (a, b) ∈ darts T → a ≠ b)
    (hnext : ∀ c c', (b, c) ∈ outline (darts T) → (b, c') ∈ outline (darts T) → c = c')
    {a' : P} (h : (a, b) ∈ outline (darts T)) (h' : (a', b) ∈ outline (darts T)) : a = a' := by
  have hO : (outline (darts T)).Nodup := hnodup.sublist (outline_sublist _)
  have hleave : (outline (darts T)).countP (fun e => decide (e.1 = b)) ≤ 1 := by
    refine (countP_le_one_iff hO _).mpr ?_
    rintro ⟨x, c⟩ hc hx ⟨x', c'⟩ hc' hx'
    obtain rfl : x = b := of_decide_eq_true hx
    obtain rfl : x' = x := of_decide_eq_true hx'
    rw [hnext c c' hc hc']
  rw [← countP_outline hnodup hne] at hleave
  exact (Prod.mk.inj ((countP_le_one_iff hO _).mp hleave _ h (decide_eq_true rfl) _ h'
    (decide_eq_true rfl))).1

end Edges

/-! ### Inserting a point -/

section Insertion

open Plane

variable {F : Type*} [CommRing F] {s : (F × F) × (F × F) × (F × F)} {V : List (F × F)}
variable {T : List ((F × F) × (F × F) × (F × F))} {a b c d p v : F × F}

/-- The power of a point with respect to the circle of a triangle. -/
def discPower (t : (F × F) × (F × F) × (F × F)) (p : F × F) : F := power t.1 t.2.1 t.2.2 p

/-- What does not depend on the corner that comes first. -/
theorem Has.exists_mem (h : Has T a b c) :
    ∃ t ∈ T, side t.1 t.2.1 t.2.2 = side a b c ∧ (∀ p, discPower t p = power a b c p) ∧
      (a = t.1 ∨ a = t.2.1 ∨ a = t.2.2) := by
  rcases h with h | h | h
  · exact ⟨_, h, rfl, fun p => rfl, Or.inl rfl⟩
  · exact ⟨_, h, (side_rotate c a b).symm, fun p => (power_rotate c a b p).symm, Or.inr (Or.inl rfl)⟩
  · exact ⟨_, h, side_rotate a b c, fun p => power_rotate a b c p, Or.inr (Or.inr rfl)⟩

variable [LinearOrder F]

/-- A point is in the closed disc of a triangle. -/
def inDisc (p : F × F) (t : (F × F) × (F × F) × (F × F)) : Bool := decide (discPower t p ≤ 0)

/-- The edges of the triangles that a point removes. -/
def hole (T : List ((F × F) × (F × F) × (F × F))) (p : F × F) : List ((F × F) × (F × F)) :=
  darts (T.filter (inDisc p))

/-- One step of the algorithm: the triangles whose disc has `p` are taken out and the hole is
filled from `p`. -/
def insertPoint (T : List ((F × F) × (F × F) × (F × F))) (p : F × F) :
    List ((F × F) × (F × F) × (F × F)) :=
  T.filter (fun t => !inDisc p t) ++ (outline (hole T p)).map fun e => (e.1, e.2, p)

/-- A triangle was made when its third corner was inserted: its disc contains no
earlier point, and its circle none beyond the first edge; and no later point is in the closed
disc. -/
def Made (V : List (F × F)) (t : (F × F) × (F × F) × (F × F)) : Prop :=
  ∃ pre post, V = pre ++ t.2.2 :: post ∧ t.1 ∈ pre ∧ t.2.1 ∈ pre ∧
    (∀ u ∈ pre, 0 ≤ discPower t u ∧ (discPower t u = 0 → 0 ≤ side t.1 t.2.1 u)) ∧
    ∀ u ∈ post, 0 < discPower t u

/-- A point is inside a triangle. -/
def Within (s : (F × F) × (F × F) × (F × F)) (p : F × F) : Prop :=
  ∀ a b, (a, b) ∈ edges s → 0 < side a b p

/-- What a run keeps that starts with the triangle `s` and has inserted `V`, of which the
corners of `s` are the first. -/
structure Delaunay (s : (F × F) × (F × F) × (F × F)) (V : List (F × F))
    (T : List ((F × F) × (F × F) × (F × F))) : Prop where
  nodup : (darts T).Nodup
  side_pos : ∀ t ∈ T, 0 < side t.1 t.2.1 t.2.2
  mate : ∀ a b, (a, b) ∈ darts T → (a, b) ∈ edges s ∨ (b, a) ∈ darts T
  made : ∀ t ∈ T, Made V t
  inside : ∀ v ∈ V, ∀ a b, (a, b) ∈ edges s → 0 ≤ side a b v

theorem has_filter_inDisc :
    Has (T.filter (inDisc p)) a b c ↔ Has T a b c ∧ power a b c p ≤ 0 := by
  rw [has_filter fun x y z => by rw [inDisc, inDisc, discPower, discPower, power_rotate]]
  exact and_congr_right fun _ => decide_eq_true_iff

theorem has_filter_not_inDisc :
    Has (T.filter fun t => !inDisc p t) a b c ↔ Has T a b c ∧ 0 < power a b c p := by
  rw [has_filter fun x y z => by rw [inDisc, inDisc, discPower, discPower, power_rotate]]
  refine and_congr_right fun _ => ?_
  rw [Bool.not_eq_true', inDisc, decide_eq_false_iff_not, not_le]
  rfl

theorem mem_hole : (a, b) ∈ hole T p ↔ ∃ c, Has T a b c ∧ power a b c p ≤ 0 := by
  rw [hole, mem_darts]
  exact exists_congr fun c => has_filter_inDisc

theorem hole_sublist (T : List ((F × F) × (F × F) × (F × F))) (p : F × F) :
    (hole T p).Sublist (darts T) :=
  List.filter_sublist.flatMap edges

/-- The triangles after the insertion, by their darts. -/
theorem mem_darts_insertPoint {x y : F × F} :
    (x, y) ∈ darts (insertPoint T p) ↔
      (∃ c, Has T x y c ∧ 0 < power x y c p) ∨
        ∃ a b, (a, b) ∈ outline (hole T p) ∧ (x, y) ∈ edges (a, b, p) := by
  rw [insertPoint, darts_append, List.mem_append, mem_darts]
  refine or_congr (exists_congr fun c => has_filter_not_inDisc) ?_
  simp only [darts, List.mem_flatMap, List.mem_map]
  constructor
  · rintro ⟨t, ⟨⟨a, b⟩, hO, rfl⟩, hmem⟩
    exact ⟨a, b, hO, hmem⟩
  · rintro ⟨a, b, hO, hmem⟩
    exact ⟨(a, b, p), ⟨(a, b), hO, rfl⟩, hmem⟩

theorem Within.side_pos (hp : Within s p) : 0 < side s.1 s.2.1 p ∧ 0 < side s.2.1 s.2.2 p ∧
    0 < side s.2.2 s.1 p :=
  ⟨hp _ _ (mem_edges.mpr (Or.inl ⟨rfl, rfl⟩)), hp _ _ (mem_edges.mpr (Or.inr (Or.inl ⟨rfl, rfl⟩))),
    hp _ _ (mem_edges.mpr (Or.inr (Or.inr ⟨rfl, rfl⟩)))⟩

/-- A point inside is not a corner. -/
theorem Within.ne (hp : Within s p) (hab : (a, b) ∈ edges s) : a ≠ p ∧ b ≠ p := by
  obtain ⟨-, hb, ha⟩ := ne_of_side_ne_zero (hp a b hab).ne'
  exact ⟨ha.symm, hb⟩

theorem Made.mem {t : (F × F) × (F × F) × (F × F)} (h : Made V t) :
    t.1 ∈ V ∧ t.2.1 ∈ V ∧ t.2.2 ∈ V := by
  obtain ⟨pre, post, rfl, h₁, h₂, -, -⟩ := h
  exact ⟨List.mem_append_left _ h₁, List.mem_append_left _ h₂,
    List.mem_append_right _ List.mem_cons_self⟩

/-- No point is inside the circle. -/
theorem Made.discPower_nonneg {t : (F × F) × (F × F) × (F × F)} (h : Made V t) (hv : v ∈ V) :
    0 ≤ discPower t v := by
  obtain ⟨pre, post, rfl, -, -, hpre, hpost⟩ := h
  rcases List.mem_append.mp hv with hv | hv
  · exact (hpre v hv).1
  · rcases List.mem_cons.mp hv with rfl | hv
    · exact (power_self _ _ _).ge
    · exact (hpost v hv).le

/-- The triangle that a run starts with. -/
theorem Delaunay.initial (hs : 0 < side s.1 s.2.1 s.2.2) :
    Delaunay s [s.1, s.2.1, s.2.2] [s] where
  nodup := by
    obtain ⟨a, b, c⟩ := s
    obtain ⟨hab, hbc, hca⟩ : a ≠ b ∧ b ≠ c ∧ c ≠ a := ne_of_side_ne_zero hs.ne'
    simp [darts, edges, hab, hbc, hca, hab.symm, hca.symm]
  side_pos := fun t ht => by
    rw [List.mem_singleton.mp ht]
    exact hs
  mate := fun a b hab => Or.inl (by simpa [darts] using hab)
  made := fun t ht => by
    rw [List.mem_singleton.mp ht]
    refine ⟨[s.1, s.2.1], [], rfl, by simp, by simp, fun u hu => ?_, fun u hu => by cases hu⟩
    rcases List.mem_cons.mp hu with rfl | hu
    · exact ⟨(power_left _ _ _).ge, fun _ => (side_left _ _).ge⟩
    · rw [List.mem_singleton.mp hu]
      exact ⟨(power_right _ _ _).ge, fun _ => (side_right _ _).ge⟩
  inside := fun v hv a b hab => by
    have hcorner {x y w : F × F} (hw : 0 < side x y w) (hv : v = x ∨ v = y ∨ v = w) :
        0 ≤ side x y v := by
      rcases hv with rfl | rfl | rfl
      · exact (side_left _ _).ge
      · exact (side_right _ _).ge
      · exact hw.le
    have hs' : 0 < side s.2.1 s.2.2 s.1 := by
      rw [side_rotate]
      exact hs
    have hs'' : 0 < side s.2.2 s.1 s.2.1 := by
      rw [side_rotate]
      exact hs'
    simp only [List.mem_cons, List.not_mem_nil, or_false] at hv
    rcases mem_edges.mp hab with ⟨rfl, rfl⟩ | ⟨rfl, rfl⟩ | ⟨rfl, rfl⟩
    · exact hcorner hs hv
    · exact hcorner hs' (by tauto)
    · exact hcorner hs'' (by tauto)

/-- A point that is inserted again makes the same triangles. -/
theorem insertPoint_fan (hs : 0 < side s.1 s.2.1 s.2.2) (ho : Within s o) :
    insertPoint (fan s o) o = fan s o := by
  obtain ⟨h₁, h₂, -⟩ := ho.side_pos
  obtain ⟨a, b, c⟩ := s
  obtain ⟨hab, hbc, hca⟩ : a ≠ b ∧ b ≠ c ∧ c ≠ a := ne_of_side_ne_zero hs.ne'
  obtain ⟨-, hbo, hoa⟩ : a ≠ b ∧ b ≠ o ∧ o ≠ a := ne_of_side_ne_zero h₁.ne'
  obtain ⟨-, hco, -⟩ : b ≠ c ∧ c ≠ o ∧ o ≠ b := ne_of_side_ne_zero h₂.ne'
  have hdisc (x y : F × F) : inDisc o (x, y, o) = true := decide_eq_true (power_self x y o).le
  have hhole : hole (fan (a, b, c) o) o = darts (fan (a, b, c) o) := by
    rw [hole, List.filter_eq_self.mpr]
    intro t ht
    obtain ⟨e, -, rfl⟩ := List.mem_map.mp ht
    exact hdisc _ _
  have hgone : (fan (a, b, c) o).filter (fun t => !inDisc o t) = [] := by
    simp [fan, edges, hdisc]
  rw [insertPoint, hgone, hhole, List.nil_append, fan]
  congr 1
  simp [outline, darts, edges, List.countP_cons, hab, hbc, hca, hbo, hoa, hco, hab.symm, hbc.symm,
    hca.symm, hbo.symm, hoa.symm, hco.symm]

theorem mem_foldl_of_pos {t : (F × F) × (F × F) × (F × F)} {vs : List (F × F)} (ht : t ∈ T)
    (hvs : ∀ v ∈ vs, 0 < discPower t v) : t ∈ vs.foldl insertPoint T := by
  induction vs generalizing T with
  | nil => exact ht
  | cons v vs ih =>
      refine ih (List.mem_append_left _ (List.mem_filter.mpr ⟨ht, ?_⟩))
        fun u hu => hvs u (List.mem_cons_of_mem _ hu)
      rw [Bool.not_eq_true', inDisc, decide_eq_false_iff_not, not_le]
      exact hvs v List.mem_cons_self

namespace Delaunay

variable (h : Delaunay s V T)

include h

theorem side_pos_of_has (hT : Has T a b c) : 0 < side a b c := by
  obtain ⟨t, ht, hside, -, -⟩ := hT.exists_mem
  rw [← hside]
  exact h.side_pos t ht

theorem power_nonneg (hT : Has T a b c) (hv : v ∈ V) : 0 ≤ power a b c v := by
  obtain ⟨t, ht, -, hpower, -⟩ := hT.exists_mem
  rw [← hpower]
  exact (h.made t ht).discPower_nonneg hv

theorem mem_of_has (hT : Has T a b c) : a ∈ V := by
  obtain ⟨t, ht, -, -, ha⟩ := hT.exists_mem
  obtain ⟨h₁, h₂, h₃⟩ := (h.made t ht).mem
  rcases ha with rfl | rfl | rfl
  · exact h₁
  · exact h₂
  · exact h₃

theorem ne_of_mem_darts (hmem : (a, b) ∈ darts T) : a ≠ b := by
  obtain ⟨c, hT⟩ := mem_darts.mp hmem
  exact (ne_of_side_ne_zero (h.side_pos_of_has hT).ne').1

theorem mate_of_ne {o x : F × F} (ho : ∀ a b, (a, b) ∈ edges s → a ≠ o ∧ b ≠ o)
    (hmem : (o, x) ∈ darts T ∨ (x, o) ∈ darts T) :
    (o, x) ∈ darts T ∧ (x, o) ∈ darts T := by
  rcases hmem with hmem | hmem
  · exact ⟨hmem, (h.mate o x hmem).resolve_left fun hb => (ho o x hb).1 rfl⟩
  · exact ⟨(h.mate x o hmem).resolve_left fun hb => (ho x o hb).2 rfl, hmem⟩

theorem exists_next {o x y : F × F} (ho : ∀ a b, (a, b) ∈ edges s → a ≠ o ∧ b ≠ o)
    (hT : Has T o x y) : ∃ z, Has T o y z :=
  mem_darts.mp (h.mate_of_ne ho (Or.inr (mem_darts.mpr ⟨x, hT.rotate.rotate⟩))).1

theorem exists_prev {o x y : F × F} (ho : ∀ a b, (a, b) ∈ edges s → a ≠ o ∧ b ≠ o)
    (hT : Has T o x y) : ∃ z, Has T o z x := by
  obtain ⟨z, hz⟩ := mem_darts.mp (h.mate_of_ne ho (Or.inl (mem_darts.mpr ⟨y, hT⟩))).2
  exact ⟨z, hz.rotate⟩

/-- On one side of an edge around the hole is a triangle that goes, and on the other one
that stays, if there is one. -/
theorem exists_of_mem_outline (hO : (a, b) ∈ outline (hole T p)) :
    ∃ c, Has T a b c ∧ power a b c p ≤ 0 ∧
      ((a, b) ∈ edges s ∨ ∃ d, Has T b a d ∧ 0 < power b a d p) := by
  have hE : (a, b) ∈ hole T p := (outline_sublist _).subset hO
  have hD : (a, b) ∈ darts T := (hole_sublist T p).subset hE
  have hswap := ((mem_outline (h.nodup.sublist (hole_sublist T p)) (h.ne_of_mem_darts hD)).mp hO).2
  obtain ⟨c, hc, hpc⟩ := mem_hole.mp hE
  refine ⟨c, hc, hpc, (h.mate a b hD).imp_right fun hmate => ?_⟩
  obtain ⟨d, hd⟩ := mem_darts.mp hmate
  exact ⟨d, hd, not_le.mp fun hpd => hswap (mem_hole.mpr ⟨d, hd, hpd⟩)⟩

theorem mate_insertPoint {x y : F × F} (hmem : (x, y) ∈ darts (insertPoint T p)) :
    (x, y) ∈ edges s ∨ (y, x) ∈ darts (insertPoint T p) := by
  have hnodup := h.nodup.sublist (hole_sublist T p)
  have hne {a b : F × F} (hab : (a, b) ∈ hole T p) : a ≠ b :=
    h.ne_of_mem_darts ((hole_sublist T p).subset hab)
  rcases mem_darts_insertPoint.mp hmem with ⟨c, hc, hpc⟩ | ⟨a, b, hab, he⟩
  · -- a triangle that stays: the one beside it stays too, or the edge is around the hole
    refine (h.mate x y (mem_darts.mpr ⟨c, hc⟩)).imp_right fun hmate => ?_
    obtain ⟨d, hd⟩ := mem_darts.mp hmate
    rcases lt_or_ge 0 (power y x d p) with hpd | hpd
    · exact mem_darts_insertPoint.mpr (Or.inl ⟨d, hd, hpd⟩)
    · have hyx : (y, x) ∈ hole T p := mem_hole.mpr ⟨d, hd, hpd⟩
      have hxy : (x, y) ∉ hole T p := by
        intro hxy
        obtain ⟨c', hc', hpc'⟩ := mem_hole.mp hxy
        obtain rfl := hc.unique h.nodup (hne hyx).symm hc'
        exact absurd hpc (not_lt.mpr hpc')
      exact mem_darts_insertPoint.mpr (Or.inr ⟨y, x, (mem_outline hnodup (hne hyx)).mpr ⟨hyx, hxy⟩,
        mem_edges.mpr (Or.inl ⟨rfl, rfl⟩)⟩)
  · rcases mem_edges.mp he with ⟨rfl, rfl⟩ | ⟨rfl, rfl⟩ | ⟨rfl, rfl⟩
    · obtain ⟨c, hc, hpc, hmate⟩ := h.exists_of_mem_outline hab
      refine hmate.imp_right ?_
      rintro ⟨d, hd, hpd⟩
      exact mem_darts_insertPoint.mpr (Or.inl ⟨d, hd, hpd⟩)
    · -- the outline goes on
      obtain ⟨c, hc⟩ := exists_outline_next hnodup (fun _ _ he => hne he) hab
      exact Or.inr (mem_darts_insertPoint.mpr (Or.inr ⟨x, c, hc,
        mem_edges.mpr (Or.inr (Or.inr ⟨rfl, rfl⟩))⟩))
    · obtain ⟨c, hc⟩ := exists_outline_prev hnodup (fun _ _ he => hne he) hab
      exact Or.inr (mem_darts_insertPoint.mpr (Or.inr ⟨c, y, hc,
        mem_edges.mpr (Or.inr (Or.inl ⟨rfl, rfl⟩))⟩))

variable [IsStrictOrderedRing F] (hp : Within s p)

include hp

/-- The edges around the hole are seen from the point. -/
theorem side_pos_of_mem_outline (hO : (a, b) ∈ outline (hole T p)) : 0 < side a b p := by
  obtain ⟨c, hc, hpc, hborder | ⟨d, hd, hpd⟩⟩ := h.exists_of_mem_outline hO
  · exact hp a b hborder
  · exact side_pos_of_pencil (h.side_pos_of_has hc) (h.side_pos_of_has hd)
      (h.power_nonneg hc (h.mem_of_has hd.rotate.rotate)) hpc hpd

/-- The new circles contain no points. -/
theorem power_of_mem_outline (hO : (a, b) ∈ outline (hole T p)) (hv : v ∈ V) :
    0 ≤ power a b p v ∧ (side a b v < 0 → 0 < power a b p v) := by
  have hpos := h.side_pos_of_mem_outline hp hO
  obtain ⟨c, hc, hpc, hmate⟩ := h.exists_of_mem_outline hO
  have hleft (hneg : side a b v < 0) : 0 < power a b p v := by
    rcases hmate with hborder | ⟨d, hd, hpd⟩
    · exact absurd (h.inside v hv a b hborder) (not_le.mpr hneg)
    · exact power_pos_of_left (h.side_pos_of_has hd) hpos hpd (h.power_nonneg hd hv) hneg
  refine ⟨?_, hleft⟩
  rcases lt_or_ge (side a b v) 0 with hneg | hright
  · exact (hleft hneg).le
  · exact power_nonneg_of_right (h.side_pos_of_has hc) hpos hpc (h.power_nonneg hc hv) hright

theorem outline_next_unique {b' : F × F} (hO : (a, b) ∈ outline (hole T p))
    (hO' : (a, b') ∈ outline (hole T p)) : b = b' := by
  have hmem {x : F × F} (hx : (a, x) ∈ outline (hole T p)) : x ∈ V := by
    obtain ⟨c, hc, -⟩ := h.exists_of_mem_outline hx
    exact h.mem_of_has hc.rotate
  obtain ⟨hle, hlt⟩ := h.power_of_mem_outline hp hO (hmem hO')
  obtain ⟨hle', hlt'⟩ := h.power_of_mem_outline hp hO' (hmem hO)
  exact eq_of_power_nonneg (h.side_pos_of_mem_outline hp hO) (h.side_pos_of_mem_outline hp hO')
    hle hle' hlt hlt'

theorem outline_prev_unique {a' : F × F} (hO : (a, b) ∈ outline (hole T p))
    (hO' : (a', b) ∈ outline (hole T p)) : a = a' :=
  BowyerWatson.outline_prev_unique (h.nodup.sublist (hole_sublist T p))
    (fun _ _ he => h.ne_of_mem_darts ((hole_sublist T p).subset he))
    (fun _ _ hc hc' => h.outline_next_unique hp hc hc') hO hO'

theorem nodup_insertPoint : (darts (insertPoint T p)).Nodup := by
  have hne {a b : F × F} (hO : (a, b) ∈ outline (hole T p)) : a ≠ b ∧ b ≠ p ∧ p ≠ a :=
    ne_of_side_ne_zero (h.side_pos_of_mem_outline hp hO).ne'
  have hO : (outline (hole T p)).Nodup :=
    h.nodup.sublist ((outline_sublist _).trans (hole_sublist T p))
  rw [insertPoint, darts_append]
  refine List.nodup_append'.mpr ⟨h.nodup.sublist (List.filter_sublist.flatMap edges), ?_, ?_⟩
  · rw [darts, List.flatMap_map]
    refine List.nodup_flatMap.mpr ⟨?_, hO.imp_of_mem ?_⟩
    · rintro ⟨a, b⟩ hab
      obtain ⟨h₁, h₂, h₃⟩ := hne hab
      simp [edges, h₁, h₂, h₃, h₃.symm, h₁.symm]
    · rintro ⟨a, b⟩ ⟨a', b'⟩ hab hab' hneq ⟨x, y⟩ hx hy
      obtain ⟨h₁, h₂, h₃⟩ := hne hab
      obtain ⟨h₁', h₂', h₃'⟩ := hne hab'
      -- an edge at the point is in the triangle over one edge of the outline only
      rcases mem_edges.mp hx with ⟨rfl, rfl⟩ | ⟨rfl, rfl⟩ | ⟨rfl, rfl⟩ <;>
        rcases mem_edges.mp hy with ⟨e, e'⟩ | ⟨e, e'⟩ | ⟨e, e'⟩
      · exact hneq (Prod.ext e e')
      · exact h₂ e'
      · exact h₃ e.symm
      · exact h₂' e'.symm
      · subst e
        exact hneq (by rw [h.outline_prev_unique hp hab hab'])
      · exact h₂ e
      · exact h₃' e
      · exact h₂' e.symm
      · subst e'
        exact hneq (by rw [h.outline_next_unique hp hab hab'])
  · rintro ⟨x, y⟩ hx hy
    obtain ⟨c, hc⟩ := mem_darts.mp hx
    obtain ⟨hc, hpc⟩ := has_filter_not_inDisc.mp hc
    obtain ⟨t, ht, hy⟩ := List.mem_flatMap.mp hy
    obtain ⟨⟨a, b⟩, hab, rfl⟩ := List.mem_map.mp ht
    -- a triangle that is kept has the point out of its disc, so it has no corner there
    rcases mem_edges.mp hy with ⟨rfl, rfl⟩ | ⟨rfl, rfl⟩ | ⟨rfl, rfl⟩
    · obtain ⟨c', hc', hpc', -⟩ := h.exists_of_mem_outline hab
      obtain rfl := hc.unique h.nodup (hne hab).1 hc'
      exact absurd hpc (not_lt.mpr hpc')
    · exact hpc.ne' (power_right _ _ _)
    · exact hpc.ne' (power_left _ _ _)

theorem made_insertPoint {t : (F × F) × (F × F) × (F × F)} (ht : t ∈ insertPoint T p) :
    Made (V ++ [p]) t := by
  rcases List.mem_append.mp ht with ht | ht
  · obtain ⟨ht, hpt⟩ := List.mem_filter.mp ht
    obtain ⟨pre, post, rfl, h₁, h₂, hpre, hpost⟩ := h.made t ht
    refine ⟨pre, post ++ [p], by simp, h₁, h₂, hpre, fun u hu => ?_⟩
    rcases List.mem_append.mp hu with hu | hu
    · exact hpost u hu
    · rw [List.mem_singleton.mp hu]
      exact not_le.mp (of_decide_eq_false (Bool.not_eq_true'  _ ▸ hpt))
  · obtain ⟨⟨a, b⟩, hab, rfl⟩ := List.mem_map.mp ht
    obtain ⟨c, hc, -⟩ := h.exists_of_mem_outline hab
    refine ⟨V, [], rfl, h.mem_of_has hc, h.mem_of_has hc.rotate, fun u hu => ?_, fun u hu => by
      cases hu⟩
    obtain ⟨hle, hlt⟩ := h.power_of_mem_outline hp hab hu
    refine ⟨hle, fun hzero => not_lt.mp fun hneg => ?_⟩
    exact (hlt hneg).ne' hzero

/-- **Inserting a point keeps the triangulation.** -/
theorem insert : Delaunay s (V ++ [p]) (insertPoint T p) where
  nodup := h.nodup_insertPoint hp
  side_pos := fun t ht => by
    rcases List.mem_append.mp ht with ht | ht
    · exact h.side_pos t (List.mem_filter.mp ht).1
    · obtain ⟨⟨a, b⟩, hab, rfl⟩ := List.mem_map.mp ht
      exact h.side_pos_of_mem_outline hp hab
  mate := fun _ _ => h.mate_insertPoint
  made := fun _ => h.made_insertPoint hp
  inside := fun v hv a b hab => by
    rcases List.mem_append.mp hv with hv | hv
    · exact h.inside v hv a b hab
    · rw [List.mem_singleton.mp hv]
      exact (hp a b hab).le

end Delaunay

/-! ### A run -/

theorem Delaunay.foldl [IsStrictOrderedRing F] (h : Delaunay s V T) {vs : List (F × F)} (hvs : ∀ v ∈ vs, Within s v) :
    Delaunay s (V ++ vs) (vs.foldl insertPoint T) := by
  induction vs generalizing V T with
  | nil =>
      rw [List.append_nil]
      exact h
  | cons v vs ih =>
      have h' := ih (h.insert (hvs v List.mem_cons_self))
        fun u hu => hvs u (List.mem_cons_of_mem _ hu)
      rw [List.append_assoc] at h'
      exact h'

end Insertion

end BowyerWatson

end PCGForUnity
