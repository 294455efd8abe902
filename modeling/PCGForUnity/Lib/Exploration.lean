/-
PCGForUnity/Lib/Exploration.lean

Exploring a graph without a memory of what was visited: from a vertex the search goes to
every neighbour but the one it came from.  On a finite graph

    the search from a vertex ends   ↔   no cycle can be reached from it

(`ends_iff`).

Design.  A call of the search is a vertex and the one it was entered from, and a search ends
if its first call is accessible under the calls that follow (`Acc`).  A search that never
turns back on the edge it came by follows the walks of which no two edges in a row are equal.  Where no cycle can be reached these are paths, which are no longer than the graph
has vertices, and the search ends; on a cycle there is always a vertex to go on to.

The graph is a `SimpleGraph` of Mathlib, and so are its walks, paths and cycles.
-/
import Mathlib.Combinatorics.SimpleGraph.Acyclic

namespace PCGForUnity

namespace Exploration

open SimpleGraph

variable {V : Type*} (G : SimpleGraph V)

/-- The search at a vertex, having come from another one or from none, goes on. -/
def Next (a b : V × Option V) : Prop := G.Adj a.1 b.1 ∧ a.2 ≠ some b.1 ∧ b.2 = some a.1

/-- Every search that goes on from there ends. -/
def Ends (a : V × Option V) : Prop := Acc (fun b a => Next G a b) a

/-- A cycle can be reached. -/
def ReachesCycle (v : V) : Prop := ∃ u, G.Reachable v u ∧ ∃ c : G.Walk u u, c.IsCycle

variable {G} {v : V}

/-- A search that can always go on does not end. -/
theorem not_ends_of_forall_exists {S : Set (V × Option V)}
    (hS : ∀ a ∈ S, ∃ b ∈ S, Next G a b) {a : V × Option V} (ha : a ∈ S) : ¬ Ends G a := by
  intro hends
  induction hends with
  | intro a _ ih =>
      obtain ⟨b, hb, hnext⟩ := hS a ha
      exact ih b hnext hb

/-- A vertex of a cycle has two neighbours on it, so one that the search did not come from. -/
theorem exists_next_of_mem_cycle {u : V} {c : G.Walk u u} (hc : c.IsCycle) {a : V × Option V}
    (ha : a.1 ∈ c.support) : ∃ b, Next G a b ∧ b.1 ∈ c.support := by
  classical
  set d := c.rotate a.1 ha with hd
  have hcycle : d.IsCycle := hc.rotate ha
  have hmem {t : V} (ht : t ∈ d.support) : t ∈ c.support :=
    (c.mem_support_rotate_iff a.1 ha).mp ht
  by_cases hfrom : a.2 = some d.snd
  · refine ⟨(d.penultimate, some a.1), ⟨(d.adj_penultimate hcycle.not_nil).symm, ?_, rfl⟩,
      hmem (d.getVert_mem_support _)⟩
    rw [hfrom]
    exact fun heq => hcycle.snd_ne_penultimate (Option.some.inj heq)
  · exact ⟨(d.snd, some a.1), ⟨d.adj_snd hcycle.not_nil, hfrom, rfl⟩,
      hmem (d.getVert_mem_support _)⟩

/-- A search that can get to a cycle does not end. -/
theorem not_ends_of_reachesCycle (h : ReachesCycle G v) : ¬ Ends G (v, none) := by
  classical
  obtain ⟨u, ⟨w⟩, c, hc⟩ := h
  -- on the cycle, or on a path to it that does not turn back
  let S : Set (V × Option V) := {a | a.1 ∈ c.support ∨
    ∃ w : G.Walk a.1 u, w.IsPath ∧ ¬ w.Nil ∧ a.2 ≠ some w.snd}
  have hS : ∀ a ∈ S, ∃ b ∈ S, Next G a b := by
    rintro ⟨q, r⟩ (hmem | ⟨w, hpath, hnil, hback⟩)
    · obtain ⟨b, hnext, hb⟩ := exists_next_of_mem_cycle hc hmem
      exact ⟨b, Or.inl hb, hnext⟩
    · cases w with
      | nil => exact absurd .nil hnil
      | @cons _ t _ hadj w =>
          obtain ⟨hpath', hq⟩ := (Walk.cons_isPath_iff hadj w).mp hpath
          refine ⟨(t, some q), ?_, hadj, by simpa using hback, rfl⟩
          by_cases hnil' : w.Nil
          · left
            show t ∈ c.support
            rw [hnil'.eq]
            exact c.start_mem_support
          · refine Or.inr ⟨w, hpath', hnil', fun heq => hq ?_⟩
            rw [Option.some.inj heq]
            exact w.getVert_mem_support 1
  apply not_ends_of_forall_exists hS
  by_cases hnil : w.toPath.1.Nil
  · left
    show v ∈ c.support
    rw [hnil.eq]
    exact c.start_mem_support
  · exact Or.inr ⟨w.toPath.1, w.toPath.2, hnil, by simp⟩

variable (G) in
/-- The edges that can be reached from a vertex. -/
def within (v : V) : SimpleGraph V where
  Adj a b := G.Adj a b ∧ G.Reachable v a
  symm := ⟨fun _ _ h => ⟨h.1.symm, h.2.trans h.1.reachable⟩⟩
  loopless := ⟨fun _ h => h.1.ne rfl⟩

theorem within_le (v : V) : within G v ≤ G := fun _ _ h => h.1

theorem isAcyclic_within (h : ¬ ReachesCycle G v) : (within G v).IsAcyclic := by
  intro u c hc
  exact h ⟨u, (c.adj_snd hc.not_nil).2, c.mapLe (within_le v), hc.mapLe (within_le v)⟩

/-- Where no cycle can be reached, the way back is a path, and one longer after every step. -/
theorem ends_of_walk [Finite V] (h : ¬ ReachesCycle G v) {p : V} (w : (within G v).Walk p v)
    (hchain : List.IsChain (· ≠ ·) w.edges) : Ends G (p, w.support[1]?) := by
  have := Fintype.ofFinite V
  induction hk : Fintype.card V - w.length using Nat.strong_induction_on generalizing p with
  | h k ih =>
      subst hk
      have hpath := ((isAcyclic_within h).isPath_iff_isChain w).mpr hchain
      have hlt := hpath.length_lt
      refine Acc.intro _ ?_
      rintro ⟨t, r⟩ ⟨hadj, hback, rfl⟩
      have hreach : G.Reachable v t :=
        (w.mapLe (within_le v)).reverse.reachable.trans hadj.reachable
      have hadj' : (within G v).Adj t p := ⟨hadj.symm, hreach⟩
      have hchain' : List.IsChain (· ≠ ·) (Walk.cons hadj' w).edges := by
        rw [Walk.edges_cons, List.isChain_cons]
        refine ⟨fun e he => ?_, hchain⟩
        cases w with
        | nil => simp at he
        | @cons _ q _ hq w' =>
            obtain rfl : s(p, q) = e := by simpa using he
            intro heq
            rcases Sym2.eq_iff.mp heq with ⟨rfl, -⟩ | ⟨rfl, -⟩
            · exact hadj.ne rfl
            · exact hback (by simp)
      have hends := ih _ (by rw [Walk.length_cons]; omega) (Walk.cons hadj' w) hchain' rfl
      have hfrom : (Walk.cons hadj' w).support[1]? = some p := by
        rw [Walk.support_cons, List.getElem?_cons_succ, ← List.head?_eq_getElem?,
          List.head?_eq_some_head w.support_ne_nil, w.head_support]
      rwa [hfrom] at hends

/-- **A search ends if it cannot get to a cycle, and only then.** -/
theorem ends_iff [Finite V] : Ends G (v, none) ↔ ¬ ReachesCycle G v := by
  constructor
  · exact fun hends hcycle => not_ends_of_reachesCycle hcycle hends
  · exact fun h => ends_of_walk h .nil List.isChain_nil

end Exploration

end PCGForUnity
