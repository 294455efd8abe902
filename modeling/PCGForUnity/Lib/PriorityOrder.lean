/-
PCGForUnity/Lib/PriorityOrder.lean

Elements with a priority, in the order a stable priority list presents them: greater
priorities first, and among equal ones the element inserted earlier first.  `Entry.stamp` is
the time of the last insertion.

* `order_concat`: a new element goes behind all of at least its priority;
* `order_filter`: removal commutes with sorting.

Design.  `order` is Mathlib's insertion sort for that relation.  Since stamps are distinct the
sorted list is unique, which gives the two laws a list that is kept sorted under updates
relies on.  So a list that is kept sorted need not be compared with a sorted one step by step:
each update has one of the two as its specification.
-/
import Mathlib.Data.List.Sort

namespace PCGForUnity

/-- An element with its priority and the time it was last inserted. -/
structure Entry (T : Type*) where
  data : T
  priority : Int
  stamp : Nat
deriving DecidableEq, Repr

namespace Entry

variable {T : Type*}

/-- `a` comes before `b`: greater priority, or the same and inserted earlier. -/
def Before (a b : Entry T) : Prop :=
  b.priority < a.priority ∨ a.priority = b.priority ∧ a.stamp ≤ b.stamp

instance : DecidableRel (@Before T) := fun a b =>
  inferInstanceAs (Decidable (b.priority < a.priority ∨ a.priority = b.priority ∧ a.stamp ≤ b.stamp))

instance : Std.Total (@Before T) where
  total a b := by
    unfold Before
    omega

instance : IsTrans (Entry T) Before where
  trans a b c hab hbc := by
    unfold Before at *
    omega

/-- The order in which a stable priority list presents the elements. -/
def order (live : List (Entry T)) : List (Entry T) := live.insertionSort Before

theorem perm_order (live : List (Entry T)) : (order live).Perm live :=
  List.perm_insertionSort Before live

theorem pairwise_order (live : List (Entry T)) : (order live).Pairwise Before :=
  List.pairwise_insertionSort Before live

@[simp] theorem length_order (live : List (Entry T)) : (order live).length = live.length :=
  (perm_order live).length_eq

@[simp] theorem mem_order {live : List (Entry T)} {e : Entry T} : e ∈ order live ↔ e ∈ live :=
  (perm_order live).mem_iff

/-- With distinct stamps there is only one sorted arrangement. -/
theorem order_unique {live l : List (Entry T)} (hs : (live.map stamp).Nodup)
    (hp : l.Perm live) (hl : l.Pairwise Before) : order live = l := by
  refine List.Perm.eq_of_pairwise ?_ (pairwise_order live) hl ((perm_order live).trans hp.symm)
  intro a b ha hb hab hba
  have hstamp : a.stamp = b.stamp := by
    unfold Before at *
    omega
  exact List.inj_on_of_nodup_map hs (mem_order.mp ha) (hp.mem_iff.mp hb) hstamp

/-- A new element goes behind all elements of at least its priority and in front
of the rest. -/
theorem order_concat {live : List (Entry T)} {e : Entry T} (hs : (live.map stamp).Nodup)
    (hnew : ∀ x ∈ live, x.stamp < e.stamp) :
    order (live ++ [e])
      = (order live).takeWhile (fun x => decide (e.priority ≤ x.priority))
        ++ e :: (order live).dropWhile (fun x => decide (e.priority ≤ x.priority)) := by
  set keep : Entry T → Bool := fun x => decide (e.priority ≤ x.priority)
  have hsplit : (order live).takeWhile keep ++ (order live).dropWhile keep = order live :=
    List.takeWhile_append_dropWhile
  have hsorted := pairwise_order live
  rw [← hsplit, List.pairwise_append] at hsorted
  obtain ⟨hfront, hback, hcross⟩ := hsorted
  refine order_unique ?_ ?_ ?_
  · rw [List.map_append, List.nodup_append]
    refine ⟨hs, by simp, ?_⟩
    intro s hx t ht
    obtain ⟨x, hlive, rfl⟩ := List.mem_map.mp hx
    obtain rfl : t = e.stamp := by simpa using ht
    exact Nat.ne_of_lt (hnew x hlive)
  · refine List.perm_middle.trans ?_
    rw [hsplit]
    exact ((perm_order live).cons e).trans (List.perm_append_singleton e live).symm
  · refine List.pairwise_append.mpr ⟨hfront, List.pairwise_cons.mpr ⟨?_, hback⟩, ?_⟩
    · -- what stays behind the new element has a smaller priority: its first one has
      intro x hx
      rcases hd : (order live).dropWhile keep with - | ⟨y, l⟩
      · rw [hd] at hx
        cases hx
      · have hy : ¬ e.priority ≤ y.priority := by
          have := List.head?_dropWhile_not keep (order live)
          rw [hd] at this
          simpa [keep] using this
        have hyx : y.priority ≥ x.priority := by
          rw [hd] at hx hback
          rcases List.mem_cons.mp hx with rfl | hx
          · exact le_refl _
          · have := (List.pairwise_cons.mp hback).1 x hx
            unfold Before at this
            omega
        exact Or.inl (by omega)
    -- what stays in front has at least its priority, and was added before
    · intro x hx y hy
      rcases List.mem_cons.mp hy with rfl | hy
      · have hle : y.priority ≤ x.priority := by
          simpa [keep] using List.all_eq_true.mp List.all_takeWhile x hx
        have hlt := hnew x (mem_order.mp (List.takeWhile_subset _ hx))
        unfold Before
        omega
      · exact hcross x hx y hy

/-- Removing elements commutes with sorting. -/
theorem order_filter {live : List (Entry T)} (hs : (live.map stamp).Nodup)
    (f : Entry T → Bool) : order (live.filter f) = (order live).filter f :=
  order_unique (hs.sublist (List.filter_sublist.map stamp))
    ((perm_order live).filter f) ((pairwise_order live).filter f)

end Entry

end PCGForUnity
