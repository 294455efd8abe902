/-
PCGForUnity/Lib/SelectiveRepeat.lean

One direction of a connection over a network that loses, repeats and reorders what it carries.
The sender numbers its items and keeps each until it hears that it has arrived; the receiver
takes items in any order and gives them on in the order of their numbers.

* `Step.le`: what an answer on its way says stays true, so answers may come late and twice;
* `WF.has_of_pending_nil`: when the sender keeps nothing, everything has arrived;
* `WF.front_le`: what can be given on gets only more;
* `Windowed.length_le`: with windows at both ends their numbers stay close together, which is
  what counters of some bits need.

Design.  `Link` has what the two ends know, with numbers that do not end, and `Link.Step` what
may happen; there is no message in it, since what is in flight is something that was true of a
link before.  No item is given up before it has arrived (`WF.kept`).  `front` is the first
number that has not arrived.
-/
import Mathlib.Data.List.Infix
import Mathlib.Logic.Relation
import Mathlib.Algebra.Order.Ring.Nat

namespace PCGForUnity

/-- The items numbered so far, the numbers that the sender keeps, the receiver's next
number, and the numbers that it has ahead of that. -/
structure Link (α : Type*) where
  sent : List α
  pending : List ℕ
  next : ℕ
  early : List ℕ

namespace Link

variable {α : Type*} {L L' : Link α}

/-- The item with the number has arrived. -/
def Has (L : Link α) (i : ℕ) : Prop := i < L.next ∨ i ∈ L.early

/-- The first number that the sender keeps, or the next that it will give. -/
def una (L : Link α) : ℕ := L.pending.headD L.sent.length

/-- Before anything is sent. -/
def empty : Link α where
  sent := []
  pending := []
  next := 0
  early := []

/-- What holds between the two ends: nothing is given up that has not arrived. -/
structure WF (L : Link α) : Prop where
  pending_sorted : L.pending.Pairwise (· < ·)
  pending_lt : ∀ k ∈ L.pending, k < L.sent.length
  early_sorted : L.early.Pairwise (· < ·)
  early_mem : ∀ k ∈ L.early, L.next ≤ k ∧ k < L.sent.length
  next_le : L.next ≤ L.sent.length
  kept : ∀ i < L.sent.length, i ∈ L.pending ∨ L.Has i

theorem wf_empty : (empty : Link α).WF where
  pending_sorted := List.Pairwise.nil
  pending_lt := fun _ hk => absurd hk List.not_mem_nil
  early_sorted := List.Pairwise.nil
  early_mem := fun _ hk => absurd hk List.not_mem_nil
  next_le := Nat.le_refl 0
  kept := fun i hi => absurd hi (Nat.not_lt_zero i)

/-! ### Steps -/

/-- What may happen.  Items are given up only when they have arrived. -/
inductive Step : Link α → Link α → Prop
  | number (L : Link α) (x : α) :
      Step L { L with sent := L.sent ++ [x], pending := L.pending ++ [L.sent.length] }
  | acknowledge (L : Link α) (keep : ℕ → Bool) (h : ∀ k ∈ L.pending, keep k = false → L.Has k) :
      Step L { L with pending := L.pending.filter keep }
  | arrive (L : Link α) (i : ℕ) (before after : List ℕ) (h : L.early = before ++ after)
      (hbefore : ∀ k ∈ before, k < i) (hafter : ∀ k ∈ after, i < k) (hnext : L.next ≤ i)
      (hlt : i < L.sent.length) : Step L { L with early := before ++ i :: after }
  | advance (L : Link α) (rest : List ℕ) (h : L.early = L.next :: rest) :
      Step L { L with next := L.next + 1, early := rest }

/-- Nothing is taken back. -/
structure Le (L L' : Link α) : Prop where
  sent : L.sent <+: L'.sent
  next : L.next ≤ L'.next
  has : ∀ i, L.Has i → L'.Has i

theorem Le.refl (L : Link α) : L.Le L := ⟨List.prefix_rfl, Nat.le_refl _, fun _ => id⟩

theorem Le.trans {L'' : Link α} (h : L.Le L') (h' : L'.Le L'') : L.Le L'' :=
  ⟨h.sent.trans h'.sent, h.next.trans h'.next, fun i hi => h'.has i (h.has i hi)⟩

theorem Step.le (h : Step L L') : L.Le L' := by
  cases h with
  | number x => exact ⟨List.prefix_append _ _, Nat.le_refl _, fun _ => id⟩
  | acknowledge keep h => exact ⟨List.prefix_rfl, Nat.le_refl _, fun _ => id⟩
  | arrive i before after h =>
      refine ⟨List.prefix_rfl, Nat.le_refl _, fun j hj => ?_⟩
      refine hj.imp_right fun hj => ?_
      rw [h] at hj
      show j ∈ before ++ i :: after
      simp only [List.mem_append, List.mem_cons] at hj ⊢
      exact hj.imp_right Or.inr
  | advance rest h =>
      refine ⟨List.prefix_rfl, Nat.le_succ _, fun j hj => ?_⟩
      rcases hj with hj | hj
      · exact Or.inl (Nat.lt_succ_of_lt hj)
      · rw [h] at hj
        rcases List.mem_cons.mp hj with rfl | hj
        · exact Or.inl (Nat.lt_succ_self _)
        · exact Or.inr hj

theorem WF.step (h : L.WF) (hs : Step L L') : L'.WF := by
  have hle := hs.le
  cases hs with
  | number x =>
      -- the new number is greater than all there are
      have hlen : (L.sent ++ [x]).length = L.sent.length + 1 := by simp
      refine ⟨?_, fun k hk => ?_, h.early_sorted, fun k hk => ?_, ?_, fun i hi => ?_⟩
      · refine List.pairwise_append.mpr ⟨h.pending_sorted, List.pairwise_singleton _ _, ?_⟩
        intro a ha b hb
        rw [List.mem_singleton.mp hb]
        exact h.pending_lt a ha
      · rw [hlen]
        rcases List.mem_append.mp hk with hk | hk
        · exact Nat.lt_succ_of_lt (h.pending_lt k hk)
        · rw [List.mem_singleton.mp hk]
          exact Nat.lt_succ_self _
      · rw [hlen]
        exact ⟨(h.early_mem k hk).1, Nat.lt_succ_of_lt (h.early_mem k hk).2⟩
      · rw [hlen]
        exact Nat.le_succ_of_le h.next_le
      · rw [hlen] at hi
        rcases Nat.lt_succ_iff_lt_or_eq.mp hi with hi | rfl
        · exact (h.kept i hi).imp_left (List.mem_append_left _)
        · exact Or.inl (List.mem_append_right _ (List.mem_singleton_self _))
  | acknowledge keep hkeep =>
      refine ⟨h.pending_sorted.filter _, fun k hk => ?_, h.early_sorted, h.early_mem, h.next_le,
        fun i hi => ?_⟩
      · exact h.pending_lt k (List.mem_of_mem_filter hk)
      · -- what is no longer pending has come
        rcases h.kept i hi with hi' | hi'
        · by_cases hk : keep i = true
          · exact Or.inl (List.mem_filter.mpr ⟨hi', hk⟩)
          · exact Or.inr (hkeep i hi' (Bool.eq_false_iff.mpr hk))
        · exact Or.inr hi'
  | arrive i before after heq hbefore hafter hnext hlt =>
      have hsorted := h.early_sorted
      have hmem := h.early_mem
      rw [heq] at hsorted hmem
      -- between the smaller and the greater ones
      obtain ⟨hs₁, hs₂, hs₃⟩ := List.pairwise_append.mp hsorted
      refine ⟨h.pending_sorted, h.pending_lt, ?_, fun k hk => ?_, h.next_le, fun j hj => ?_⟩
      · refine List.pairwise_append.mpr ⟨hs₁, List.pairwise_cons.mpr ⟨hafter, hs₂⟩, ?_⟩
        intro a ha b hb
        rcases List.mem_cons.mp hb with rfl | hb
        · exact hbefore a ha
        · exact hs₃ a ha b hb
      · rcases List.mem_append.mp hk with hk | hk
        · exact hmem k (List.mem_append_left _ hk)
        · rcases List.mem_cons.mp hk with rfl | hk
          · exact ⟨hnext, hlt⟩
          · exact hmem k (List.mem_append_right _ hk)
      · exact (h.kept j hj).imp_right (hle.has j)
  | advance rest heq =>
      have hsorted := h.early_sorted
      rw [heq] at hsorted
      obtain ⟨hhead, hrest⟩ := List.pairwise_cons.mp hsorted
      refine ⟨h.pending_sorted, h.pending_lt, hrest, fun k hk => ?_, ?_, fun j hj => ?_⟩
      · refine ⟨hhead k hk, (h.early_mem k ?_).2⟩
        rw [heq]
        exact List.mem_cons_of_mem _ hk
      · -- it was early, so it was sent
        refine (h.early_mem L.next ?_).2
        rw [heq]
        exact List.mem_cons_self
      · exact (h.kept j hj).imp_right (hle.has j)

theorem steps_le (hs : Relation.ReflTransGen Step L L') : L.Le L' := by
  induction hs with
  | refl => exact Le.refl L
  | tail _ hs ih => exact ih.trans hs.le

/-- What a run of steps keeps. -/
theorem WF.steps (h : L.WF) (hs : Relation.ReflTransGen Step L L') : L'.WF ∧ L.Le L' := by
  refine ⟨?_, steps_le hs⟩
  induction hs with
  | refl => exact h
  | tail _ hs ih => exact ih.step hs

/-- While nothing is numbered, the sender only gives up. -/
theorem pending_sublist (hs : Relation.ReflTransGen Step L L') (hsent : L'.sent = L.sent) :
    L'.pending.Sublist L.pending := by
  induction hs using Relation.ReflTransGen.head_induction_on with
  | refl => exact List.Sublist.refl _
  | head hstep hrest ih =>
      have hle := (steps_le hrest).sent.length_le
      cases hstep with
      | number x =>
          rw [hsent] at hle
          simp at hle
      | acknowledge keep h => exact (ih hsent).trans List.filter_sublist
      | arrive i before after h => exact ih hsent
      | advance rest h => exact ih hsent

/-- **When the sender keeps nothing, everything has arrived.** -/
theorem WF.has_of_pending_nil (h : L.WF) (hnil : L.pending = []) {i : ℕ}
    (hi : i < L.sent.length) : L.Has i :=
  (h.kept i hi).resolve_left (by rw [hnil]; exact List.not_mem_nil)

/-! ### Windows -/

theorem WF.una_le (h : L.WF) : L.una ≤ L.sent.length := by
  rw [una]
  rcases hp : L.pending with - | ⟨k, rest⟩
  · exact Nat.le_refl _
  · refine (h.pending_lt k ?_).le
    rw [hp]
    exact List.mem_cons_self

theorem WF.una_le_of_mem (h : L.WF) {k : ℕ} (hk : k ∈ L.pending) : L.una ≤ k := by
  have hsorted := h.pending_sorted
  rw [una]
  rcases hp : L.pending with - | ⟨j, rest⟩
  · rw [hp] at hk
    exact absurd hk List.not_mem_nil
  · rw [hp] at hk hsorted
    rcases List.mem_cons.mp hk with rfl | hk
    · exact Nat.le_refl _
    · exact ((List.pairwise_cons.mp hsorted).1 k hk).le

/-- What the sender has no more has arrived. -/
theorem WF.has_of_lt_una (h : L.WF) {i : ℕ} (hi : i < L.una) : L.Has i :=
  (h.kept i (hi.trans_le h.una_le)).resolve_left fun hk =>
    absurd (h.una_le_of_mem hk) (Nat.not_le.mpr hi)

/-- At most `snd` items are numbered beyond the first that is kept, and `rcv` received
ahead of the next. -/
structure Windowed (snd rcv : ℕ) (L : Link α) : Prop where
  window : L.sent.length ≤ L.una + snd
  room : ∀ k ∈ L.early, k < L.next + rcv

section

variable {snd rcv : ℕ}

theorem Windowed.una_le (hw : L.Windowed snd rcv) (h : L.WF) : L.una ≤ L.next + rcv := by
  by_contra hlt
  rcases h.has_of_lt_una (Nat.lt_of_not_le hlt) with hi | hi
  · omega
  · exact absurd (hw.room _ hi) (Nat.lt_irrefl _)

/-- **The numbers of the two ends stay close together.** -/
theorem Windowed.length_le (hw : L.Windowed snd rcv) (h : L.WF) :
    L.sent.length ≤ L.next + (rcv + snd) := by
  have := hw.una_le h
  have := hw.window
  omega

end

/-- Everything numbered from `mark` on is kept. -/
structure KeptFrom (mark : ℕ) (L : Link α) : Prop where
  mark_le : mark ≤ L.sent.length
  mem : ∀ k, mark ≤ k → k < L.sent.length → k ∈ L.pending

theorem KeptFrom.length_le {mark snd rcv : ℕ} (hk : L.KeptFrom mark) (h : L.WF)
    (hw : L.Windowed snd rcv) : L.sent.length ≤ mark + snd := by
  rcases Nat.lt_or_ge mark L.sent.length with hlt | hge
  · have := h.una_le_of_mem (hk.mem mark (Nat.le_refl _) hlt)
    have := hw.window
    omega
  · omega

theorem KeptFrom.number {mark : ℕ} (h : L.KeptFrom mark) (x : α) :
    KeptFrom mark { L with sent := L.sent ++ [x], pending := L.pending ++ [L.sent.length] } := by
  have hlen : (L.sent ++ [x]).length = L.sent.length + 1 := by simp
  refine ⟨?_, fun k hk hlt => ?_⟩
  · rw [hlen]
    exact Nat.le_succ_of_le h.mark_le
  · rw [hlen] at hlt
    rcases Nat.lt_succ_iff_lt_or_eq.mp hlt with hlt | rfl
    · exact List.mem_append_left _ (h.mem k hk hlt)
    · exact List.mem_append_right _ (List.mem_singleton_self _)

theorem keptFrom_length (L : Link α) : L.KeptFrom L.sent.length :=
  ⟨Nat.le_refl _, fun _ hk hlt => absurd hlt (Nat.not_lt.mpr hk)⟩

/-- Giving up items moves the first that is kept on. -/
theorem WF.una_le_una_filter (h : L.WF) (keep : ℕ → Bool) :
    L.una ≤ (L.pending.filter keep).headD L.sent.length := by
  rcases hf : L.pending.filter keep with - | ⟨k, rest⟩
  · exact h.una_le
  · refine h.una_le_of_mem (List.mem_of_mem_filter (p := keep) ?_)
    rw [hf]
    exact List.mem_cons_self

/-! ### What can be given on -/

/-- The first number from `n` on that is not at the head of the list. -/
def runFrom (n : ℕ) : List ℕ → ℕ
  | [] => n
  | k :: ks => if k = n then runFrom (n + 1) ks else n

/-- The first number that has not arrived. -/
def front (L : Link α) : ℕ := runFrom L.next L.early

theorem le_runFrom (n : ℕ) (ks : List ℕ) : n ≤ runFrom n ks := by
  induction ks generalizing n with
  | nil => exact Nat.le_refl n
  | cons k ks ih =>
      rw [runFrom]
      split
      · exact (Nat.le_succ n).trans (ih (n + 1))
      · exact Nat.le_refl n

theorem mem_of_lt_runFrom {n i : ℕ} {ks : List ℕ} (hle : n ≤ i) (hlt : i < runFrom n ks) :
    i ∈ ks := by
  induction ks generalizing n with
  | nil => exact absurd hlt (Nat.not_lt.mpr hle)
  | cons k ks ih =>
      rw [runFrom] at hlt
      split at hlt
      · rcases Nat.lt_or_eq_of_le hle with hle | rfl
        · exact List.mem_cons_of_mem _ (ih hle hlt)
        · rw [‹k = n›]
          exact List.mem_cons_self
      · exact absurd hlt (Nat.not_lt.mpr hle)

theorem runFrom_not_mem {n : ℕ} {ks : List ℕ} (hsorted : ks.Pairwise (· < ·))
    (hle : ∀ k ∈ ks, n ≤ k) : runFrom n ks ∉ ks := by
  induction ks generalizing n with
  | nil => exact List.not_mem_nil
  | cons k ks ih =>
      obtain ⟨hhead, htail⟩ := List.pairwise_cons.mp hsorted
      rw [runFrom]
      split
      · rename_i hk
        subst hk
        intro hmem
        rcases List.mem_cons.mp hmem with heq | hmem
        · have := le_runFrom (k + 1) ks
          omega
        · exact ih htail hhead hmem
      · rename_i hk
        intro hmem
        have hlt := hle k List.mem_cons_self
        rcases List.mem_cons.mp hmem with heq | hmem
        · exact hk heq.symm
        · have := hhead n hmem
          omega

theorem has_of_lt_front {i : ℕ} (h : i < L.front) : L.Has i := by
  rcases Nat.lt_or_ge i L.next with hlt | hge
  · exact Or.inl hlt
  · exact Or.inr (mem_of_lt_runFrom hge h)

theorem WF.not_has_front (h : L.WF) : ¬ L.Has L.front := by
  rintro (hlt | hmem)
  · exact absurd hlt (Nat.not_lt.mpr (le_runFrom L.next L.early))
  · exact runFrom_not_mem h.early_sorted (fun k hk => (h.early_mem k hk).1) hmem

/-- **What can be given on gets only more.** -/
theorem WF.front_le (h' : L'.WF) (hle : L.Le L') : L.front ≤ L'.front := by
  by_contra hlt
  exact h'.not_has_front (hle.has _ (has_of_lt_front (Nat.lt_of_not_le hlt)))

end Link

end PCGForUnity
