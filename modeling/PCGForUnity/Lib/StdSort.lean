/-
PCGForUnity/Lib/StdSort.lean

`std::sort` as far as the standard fixes it: some permutation of the range in which no
element is less than one before it.  The order of equivalent elements is left open, so what
is proved for every `StdSort` holds for every implementation.

* `StdSort` carries the sorting function with its two properties, as fields, so that a
  routine that does not sort cannot be given;
* `StdSort.byFlag` is an implementation for a comparator that looks at one flag: those
  without the flag come first, and equivalent elements stay in the order they were in.

Design.  A comparator is a `Bool`-valued function, as in C++, of which nothing is asked here:
one for which some range cannot be sorted has no `StdSort`.  That there is one matters where
it is used, for a result about every `StdSort` would say nothing if there were none.
-/
import Mathlib.Data.List.Perm.Basic

namespace PCGForUnity

/-- A sorting routine for the comparator `less`. -/
structure StdSort {α : Type*} (less : α → α → Bool) where
  sort : List α → List α
  perm : ∀ l, (sort l).Perm l
  sorted : ∀ l, (sort l).Pairwise fun a b => less b a = false

namespace StdSort

variable {α : Type*} {less : α → α → Bool}

@[simp] theorem sort_nil (S : StdSort less) : S.sort [] = [] :=
  (S.perm []).eq_nil

@[simp] theorem sort_singleton (S : StdSort less) (a : α) : S.sort [a] = [a] :=
  List.perm_singleton.mp (S.perm [a])

/-- The first element of a sorted range is not greater than any other. -/
theorem head_not_greater (S : StdSort less) {l : List α} {a : α} {rest : List α}
    (h : S.sort l = a :: rest) : ∀ b ∈ rest, less b a = false := by
  have hs := S.sorted l
  rw [h] at hs
  exact (List.pairwise_cons.mp hs).1

/-- Elements whose flag is off go first, the rest keep their order. -/
def byFlag (flag : α → Bool) : StdSort fun a b => !flag a && flag b where
  sort l := l.filter (fun a => !flag a) ++ l.filter flag
  perm l := by
    have h := List.filter_append_perm (fun a => !flag a) l
    simpa using h
  sorted l := by
    refine List.pairwise_append.mpr ⟨?_, ?_, ?_⟩
    · -- both flags are off
      refine List.pairwise_of_forall_mem_list fun a ha b _ => ?_
      have : flag a = false := by simpa using (List.mem_filter.mp ha).2
      simp [this]
    · -- both flags are on
      refine List.pairwise_of_forall_mem_list fun a _ b hb => ?_
      simp [(List.mem_filter.mp hb).2]
    · intro a _ b hb
      simp [(List.mem_filter.mp hb).2]

end StdSort

end PCGForUnity
