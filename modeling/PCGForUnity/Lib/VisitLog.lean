/-
PCGForUnity/Lib/VisitLog.lean

Procedures that visit the cells of some space one by one, reading cells on the way.  From
the log of such a run one can tell whether it filled the cells it knows, each once, and
read only cells it knew by then:

    Fills start known log

says that the procedure was started with the cells `start`, that it visited the other cells
of `known` and no cell twice, and that each cell it read was in `start` or visited before.

Design.  A log is a list of accesses, the oldest first, and `Fills` grows with the run: one
that filled `known` from `start` goes on with a visit of a new cell (`Fills.visit`), which
is known from then on, or with a read of a known one (`Fills.read`).
-/
import Mathlib.Data.Set.Basic
import Mathlib.Data.List.Nodup

namespace PCGForUnity

/-- What a procedure does with a cell. -/
inductive Access (γ : Type)
  | read (c : γ)
  | visit (c : γ)

variable {γ : Type} {start known : Set γ} {log : List (Access γ)} {c : γ}

/-- The cells visited, in order. -/
def visits (log : List (Access γ)) : List γ :=
  log.filterMap fun
    | .visit c => some c
    | .read _ => none

theorem visits_append (l₁ l₂ : List (Access γ)) : visits (l₁ ++ l₂) = visits l₁ ++ visits l₂ :=
  List.filterMap_append

/-- A cell is read after its visit, unless the procedure starts with it. -/
def InOrder (start : Set γ) (log : List (Access γ)) : Prop :=
  ∀ pre c post, log = pre ++ .read c :: post → c ∈ start ∨ c ∈ visits pre

theorem InOrder.concat {a : Access γ} (h : InOrder start log)
    (ha : ∀ c, a = .read c → c ∈ start ∨ c ∈ visits log) : InOrder start (log ++ [a]) := by
  intro pre c post hsplit
  rcases List.eq_nil_or_concat post with rfl | ⟨post, b, rfl⟩
  · obtain ⟨rfl, hc⟩ := List.append_inj' hsplit rfl
    exact ha c (List.singleton_inj.mp hc)
  · rw [List.concat_eq_append, ← List.cons_append, ← List.append_assoc] at hsplit
    exact h pre c post (List.append_inj' hsplit rfl).1

/-- The procedure, started with some cells, filled the others that it knows. -/
structure Fills (start known : Set γ) (log : List (Access γ)) : Prop where
  start_subset : start ⊆ known
  nodup : (visits log).Nodup
  mem_visits : ∀ c, c ∈ visits log ↔ c ∈ known ∧ c ∉ start
  inOrder : InOrder start log

namespace Fills

theorem nil (start : Set γ) : Fills start start [] where
  start_subset := fun _ hc => hc
  nodup := List.nodup_nil
  mem_visits := fun _ => iff_of_false List.not_mem_nil fun hc => hc.2 hc.1
  inOrder := by
    intro pre c post h
    simp at h

theorem read (h : Fills start known log) (hc : c ∈ known) :
    Fills start known (log ++ [.read c]) where
  start_subset := h.start_subset
  nodup := by
    rw [visits_append]
    exact (List.append_nil (visits log)).symm ▸ h.nodup
  mem_visits := fun d => by
    rw [visits_append]
    exact (List.append_nil (visits log)).symm ▸ h.mem_visits d
  inOrder := h.inOrder.concat fun d hd => by
    obtain rfl := Access.read.inj hd
    by_cases hstart : c ∈ start
    · exact Or.inl hstart
    · exact Or.inr ((h.mem_visits c).mpr ⟨hc, hstart⟩)

theorem visit (h : Fills start known log) (hc : c ∉ known) :
    Fills start (known ∪ {c}) (log ++ [.visit c]) where
  start_subset := fun d hd => Or.inl (h.start_subset hd)
  nodup := by
    rw [visits_append]
    refine List.nodup_append.mpr ⟨h.nodup, List.nodup_singleton c, fun d hd e he => ?_⟩
    rw [List.mem_singleton.mp he]
    rintro rfl
    exact hc ((h.mem_visits d).mp hd).1
  mem_visits := fun d => by
    rw [visits_append, List.mem_append, h.mem_visits]
    constructor
    · rintro (hd | hd)
      · exact ⟨Or.inl hd.1, hd.2⟩
      · obtain rfl := List.mem_singleton.mp hd
        exact ⟨Or.inr rfl, fun hstart => hc (h.start_subset hstart)⟩
    · rintro ⟨hd | rfl, hstart⟩
      · exact Or.inl ⟨hd, hstart⟩
      · exact Or.inr (List.mem_singleton.mpr rfl)
  inOrder := h.inOrder.concat fun d hd => by cases hd

end Fills

end PCGForUnity
