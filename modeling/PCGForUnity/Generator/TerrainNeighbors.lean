/-
PCGForUnity/Generator/TerrainNeighbors.lean

The links between terrains (`Terrain::InitNeighbor`).  Over all sequences of calls

    links are mutual in every state, and no call that fails changes anything
      ↔  every call is harmless

(`links_consistent_iff`).

A call writes the link of one terrain, and looks at the link back only to refuse the new
one, by a null.  So the link that was there before is lost either way, and a terrain may
get a second one that points at it.  A call is harmless if the neighbour is free and no
third terrain has this one on that side, or if it is not free and there was no link to lose.

Design.  Terrains are of any type with decidable equality, and their links a function of
them.  One lemma says what a call does to each link (`get_write`), and both directions of
the result about one call are read off it; `Run.EachStep` carries them over to all calls.
-/
import PCGForUnity.Generator.Generator
import PCGForUnity.Lib.Run
import Mathlib.Logic.Function.Basic

namespace PCGForUnity

open NeighborType

/-- The links of a terrain. -/
structure Neighbors (T : Type) where
  leftNeighbor : Option T
  bottomNeighbor : Option T
  rightNeighbor : Option T
  topNeighbor : Option T

namespace Neighbors

variable {T : Type}

/-- The neighbour on a side; there is none on all sides. -/
def get (n : Neighbors T) : NeighborType → Option T
  | neighborPositionLeft => n.leftNeighbor
  | neighborPositionBottom => n.bottomNeighbor
  | neighborPositionRight => n.rightNeighbor
  | neighborPositionTop => n.topNeighbor
  | neighborPositionAll => none

/-- The neighbour on a side is replaced. -/
def set (n : Neighbors T) (edge : NeighborType) (neighbor : Option T) : Neighbors T :=
  match edge with
  | neighborPositionLeft => { n with leftNeighbor := neighbor }
  | neighborPositionBottom => { n with bottomNeighbor := neighbor }
  | neighborPositionRight => { n with rightNeighbor := neighbor }
  | neighborPositionTop => { n with topNeighbor := neighbor }
  | neighborPositionAll => n

/-- The edge on the other side. -/
def opposite : NeighborType → NeighborType
  | neighborPositionLeft => neighborPositionRight
  | neighborPositionBottom => neighborPositionTop
  | neighborPositionRight => neighborPositionLeft
  | neighborPositionTop => neighborPositionBottom
  | neighborPositionAll => neighborPositionAll

@[simp] theorem opposite_opposite (e : NeighborType) : opposite (opposite e) = e := by
  cases e <;> rfl

theorem get_set (n : Neighbors T) (e e' : NeighborType) (v : Option T) :
    (n.set e v).get e' = if e' = e ∧ e ≠ neighborPositionAll then v else n.get e' := by
  cases e <;> cases e' <;> rfl

@[simp] theorem get_all (n : Neighbors T) : n.get neighborPositionAll = none := rfl

theorem set_get (n : Neighbors T) (e : NeighborType) : n.set e (n.get e) = n := by
  cases e <;> rfl

theorem opposite_ne {e : NeighborType} (he : e ≠ neighborPositionAll) : opposite e ≠ e := by
  cases e <;> simp_all [opposite]

end Neighbors

namespace Terrains

open Neighbors

/-- The links of all terrains. -/
abbrev Links (T : Type) := T → Neighbors T

variable {T : Type}

/-- Terrains that were just made. -/
def new : Links T := fun _ => ⟨none, none, none, none⟩

/-- A neighbour has no other neighbour behind it. -/
def Consistent (s : Links T) : Prop :=
  ∀ a b other e, (s a).get e = some b → (s b).get (opposite e) = some other → other = a

theorem consistent_new : Consistent (new : Links T) := by
  intro a b other e hb
  cases e <;> exact absurd hb nofun

variable [DecidableEq T]

/-- An assignment to one of `m_pLeftNeighbor`, ... of `self`. -/
def write (s : Links T) (self : T) (edge : NeighborType) (neighbor : Option T) : Links T :=
  Function.update s self ((s self).set edge neighbor)

/-- `Terrain::InitNeighbor`, and whether it logs that it failed. -/
def initNeighbor (s : Links T) (self : T) (edge : NeighborType) (neighbor : Option T) :
    Links T × Bool :=
  let s := write s self edge neighbor
  match neighbor.bind fun neighbor => (s neighbor).get (opposite edge) with
  | some other => if other ≠ self then (write s self edge none, true) else (s, false)
  | none => (s, false)

/-- A call, for a neighbour that is not null. -/
structure Call (T : Type) where
  self : T
  edge : NeighborType
  neighbor : T

/-- A call of `InitNeighbor`. -/
def step (s : Links T) (c : Call T) : Links T := (initNeighbor s c.self c.edge (some c.neighbor)).1

/-- Whether the call sees the wrong neighbour and logs an error. -/
def fails (s : Links T) (c : Call T) : Bool := (initNeighbor s c.self c.edge (some c.neighbor)).2

variable {s : Links T} {c : Call T}

/-! ### One call -/

theorem get_write (s : Links T) (a b : T) (e e' : NeighborType) (v : Option T) :
    (write s a e v b).get e' =
      if b = a ∧ e' = e ∧ e ≠ neighborPositionAll then v else (s b).get e' := by
  by_cases hb : b = a
  · subst hb
    rw [write, Function.update_self, get_set]
    simp only [true_and]
  · rw [write, Function.update_of_ne hb, if_neg fun h => hb h.1]

/-- The link that the call looks at is not the one it writes. -/
theorem get_write_opposite (s : Links T) (a b : T) (e : NeighborType) (v : Option T) :
    (write s a e v b).get (opposite e) = (s b).get (opposite e) := by
  rw [get_write]
  exact if_neg fun h => opposite_ne h.2.2 h.2.1

/-- The neighbour has another terrain on that side. -/
def Taken (s : Links T) (c : Call T) : Prop :=
  ∃ other, (s c.neighbor).get (opposite c.edge) = some other ∧ other ≠ c.self

theorem initNeighbor_of_taken (h : Taken s c) :
    fails s c = true ∧ step s c = write s c.self c.edge none := by
  obtain ⟨other, hother, hne⟩ := h
  have hlook : (some c.neighbor).bind
      (fun b => (write s c.self c.edge (some c.neighbor) b).get (opposite c.edge)) = some other := by
    rw [Option.bind_some, get_write_opposite]
    exact hother
  have hwrite : write (write s c.self c.edge (some c.neighbor)) c.self c.edge none
      = write s c.self c.edge none := by
    rw [write, write, Function.update_self, Function.update_idem]
    cases c.edge <;> rfl
  rw [fails, step, initNeighbor, hlook]
  simp only [if_pos hne]
  exact ⟨trivial, hwrite⟩

theorem initNeighbor_of_not_taken (h : ¬ Taken s c) :
    fails s c = false ∧ step s c = write s c.self c.edge (some c.neighbor) := by
  rw [fails, step, initNeighbor]
  rcases hlook : (some c.neighbor).bind
    (fun b => (write s c.self c.edge (some c.neighbor) b).get (opposite c.edge)) with - | other
  · exact ⟨rfl, rfl⟩
  · rw [Option.bind_some, get_write_opposite] at hlook
    have heq : ¬ other ≠ c.self := fun hne => h ⟨other, hlook, hne⟩
    simp only [if_neg heq]
    exact ⟨trivial, trivial⟩

/-- The calls that do no harm: the neighbour is free and no third terrain has this one
on that side, or it is not and there was no link to lose. -/
structure Harmless (s : Links T) (c : Call T) : Prop where
  of_taken : Taken s c → (s c.self).get c.edge = none
  of_not_taken : ¬ Taken s c → ∀ other, (s other).get (opposite c.edge) = some c.self →
    other = c.neighbor

theorem Consistent.write_none (hs : Consistent s) (a : T) (e : NeighborType) :
    Consistent (write s a e none) := by
  intro a' b other e' hb hother
  rw [get_write] at hb hother
  split at hb
  · exact absurd hb nofun
  · split at hother
    · exact absurd hother nofun
    · exact hs a' b other e' hb hother

/-- A new link keeps the others right, if they were, exactly when nobody else points back. -/
theorem consistent_write_iff (hs : Consistent s) {a b : T} {e : NeighborType}
    (hfree : ∀ other, (s b).get (opposite e) = some other → other = a) :
    Consistent (write s a e (some b)) ↔ ∀ other, (s other).get (opposite e) = some a → other = b := by
  by_cases he : e = neighborPositionAll
  · -- there is no such link
    subst he
    have heq : write s a neighborPositionAll (some b) = s := Function.update_eq_self a s
    rw [heq]
    exact iff_of_true hs fun other h => absurd h nofun
  constructor
  · intro h other hother
    refine (h other a b (opposite e) ?_ ?_).symm
    · rw [get_write_opposite, hother]
    · rw [opposite_opposite, get_write, if_pos ⟨rfl, rfl, he⟩]
  · intro h a' b' other e' hb hother
    rw [get_write] at hb hother
    split at hb
    · -- the new link, and what it leads to
      rename_i hnew
      obtain ⟨rfl, rfl, -⟩ := hnew
      obtain rfl := Option.some.inj hb
      rw [if_neg fun hsame => opposite_ne he hsame.2.1] at hother
      exact hfree other hother
    · split at hother
      · -- it is the link back
        rename_i hnew
        obtain ⟨rfl, hopp, -⟩ := hnew
        obtain rfl := Option.some.inj hother
        rw [← hopp, opposite_opposite] at h
        exact (h a' hb).symm
      · exact hs a' b' other e' hb hother

theorem harmless_iff (hs : Consistent s) :
    Harmless s c ↔ Consistent (step s c) ∧ (fails s c = true → step s c = s) := by
  by_cases htaken : Taken s c
  · obtain ⟨hfails, hstep⟩ := initNeighbor_of_taken htaken
    rw [hstep]
    constructor
    · intro h
      refine ⟨hs.write_none _ _, fun _ => ?_⟩
      rw [write, ← h.of_taken htaken, set_get]
      exact Function.update_eq_self c.self s
    · rintro ⟨-, hsame⟩
      refine ⟨fun _ => ?_, fun hnot => absurd htaken hnot⟩
      have hlink := get_write s c.self c.self c.edge c.edge none
      rw [hsame hfails] at hlink
      rw [hlink]
      split
      · rfl
      · rename_i hall
        rw [not_not.mp fun he => hall ⟨rfl, rfl, he⟩]
        rfl
  · obtain ⟨hfails, hstep⟩ := initNeighbor_of_not_taken htaken
    have hfree : ∀ other, (s c.neighbor).get (opposite c.edge) = some other → other = c.self := by
      intro other hother
      by_contra hne
      exact htaken ⟨other, hother, hne⟩
    rw [hstep, hfails, consistent_write_iff hs hfree]
    constructor
    · intro h
      exact ⟨h.of_not_taken htaken, nofun⟩
    · rintro ⟨h, -⟩
      exact ⟨fun h' => absurd h' htaken, fun _ => h⟩

/-! ### All calls -/

theorem run_iff (hs : Consistent s) (calls : List (Call T)) :
    (∀ pre, pre <+: calls → Consistent (pre.foldl step s)) ∧
      Run.EachStep step (fun s c => fails s c = true → step s c = s) s calls ↔
        Run.EachStep step Harmless s calls := by
  induction calls generalizing s with
  | nil =>
      refine iff_of_true ⟨fun pre hpre => ?_, trivial⟩ trivial
      obtain rfl := List.prefix_nil.mp hpre
      exact hs
  | cons c calls ih =>
      rw [Run.eachStep_cons, Run.eachStep_cons]
      constructor
      · rintro ⟨hall, hfail, hrest⟩
        have hc : Consistent (step s c) := hall [c] ⟨calls, rfl⟩
        refine ⟨(harmless_iff hs).mpr ⟨hc, hfail⟩, (ih hc).mp ⟨fun pre hpre => ?_, hrest⟩⟩
        exact hall (c :: pre) ((List.prefix_cons_inj c).mpr hpre)
      · rintro ⟨hharm, hrest⟩
        obtain ⟨hc, hfail⟩ := (harmless_iff hs).mp hharm
        obtain ⟨hall, hrest⟩ := (ih hc).mpr hrest
        refine ⟨fun pre hpre => ?_, hfail, hrest⟩
        rcases pre with - | ⟨c', pre⟩
        · exact hs
        · obtain ⟨rfl, hpre'⟩ := List.cons_prefix_cons.mp hpre
          exact hall pre hpre'

/-- The links are consistent after each call, and a call that fails leaves them, exactly
when all calls are harmless. -/
theorem links_consistent_iff (calls : List (Call T)) :
    (∀ pre, pre <+: calls → Consistent (pre.foldl step new)) ∧
      Run.EachStep step (fun s c => fails s c = true → step s c = s) new calls ↔
        Run.EachStep step Harmless new calls :=
  run_iff consistent_new calls

/-- Terrains 0 and 2 both get 1 on their left, and 1 gets 0 on its right. -/
theorem third_terrain_points :
    ¬ ∀ pre, pre <+: [⟨0, neighborPositionLeft, 1⟩, ⟨2, neighborPositionLeft, 1⟩,
      ⟨1, neighborPositionRight, 0⟩] → Consistent (pre.foldl step (new : Links ℕ)) := by
  intro h
  have hlast := h _ (List.prefix_refl _) 2 1 0 neighborPositionLeft
  exact absurd (hlast (by decide) (by decide)) (by decide)

-- terrain 0 had 1 on its left, and asks for 3, which has 2 on its right
example : (([⟨0, neighborPositionLeft, 1⟩, ⟨3, neighborPositionRight, 2⟩,
    ⟨0, neighborPositionLeft, 3⟩].foldl step (new : Links ℕ)) 0).get neighborPositionLeft = none := by
  decide

end Terrains

end PCGForUnity
