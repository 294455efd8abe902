/-
PCGForUnity/Lib/Loop.lean

Stateful code that may have no result, as `StateT` over `Option`, and what its runs guarantee:

    Triple P f Q

says that `f`, started in a state with `P`, has a result, which with the state it leaves
satisfies `Q`.  So a triple is total: it rules out a failure and a loop that never ends.

Design.  A loop is a least fixed point (`forLoop`), so that one that never ends has no result
and is no special case.  To use one, give the `j`-th value of its variable and how many turns
it takes (`Triple.forLoop`); the invariant may speak of the number of turns done.  Loops with
a counter of 32 bits are turned into ones over natural numbers where the bound fits.

The rules are the usual ones (`Triple.bind`, `Triple.mono`, `Triple.ite` and the like), one
for each way to build a program, and are used by name.
-/
import Mathlib.Order.Lattice.Nat
import Mathlib.Algebra.Order.Ring.Nat

namespace PCGForUnity

/-- The head and the body of a loop. -/
structure ForLoop (σ ι : Type) where
  cond : ι → Bool
  next : ι → ι
  body : ι → StateT σ Option Unit

/-- The turns of a loop from `i` on. -/
def ForLoop.run {σ ι : Type} (l : ForLoop σ ι) (i : ι) : StateT σ Option Unit := do
  if l.cond i then
    l.body i
    l |>.run (l.next i)
  else
    pure ()
partial_fixpoint

/-- `for (i = first; cond; i = next) body`. -/
def forLoop {σ ι : Type} (cond : ι → Bool) (next : ι → ι) (body : ι → StateT σ Option Unit)
    (i : ι) : StateT σ Option Unit :=
  ForLoop.run ⟨cond, next, body⟩ i

theorem forLoop_eq {σ ι : Type} (cond : ι → Bool) (next : ι → ι) (body : ι → StateT σ Option Unit)
    (i : ι) : forLoop cond next body i =
      if cond i then do body i; forLoop cond next body (next i) else pure () := by
  rw [forLoop, ForLoop.run]
  rfl

/-- A step of a run, and what comes after it. -/
theorem run_bind_of_run {σ α β : Type} {f : StateT σ Option α} {g : α → StateT σ Option β} {a : α}
    {s s' : σ} (h : f.run s = some (a, s')) : (f >>= g).run s = (g a).run s' := by
  show f.run s >>= (fun r => (g r.1).run r.2) = _
  rw [h]
  rfl

/-- Total correctness. -/
def Triple {σ α : Type} (P : σ → Prop) (f : StateT σ Option α) (Q : α → σ → Prop) : Prop :=
  ∀ s, P s → ∃ a s', f.run s = some (a, s') ∧ Q a s'

namespace Triple

variable {σ α β ι : Type} {P P' : σ → Prop} {Q Q' : α → σ → Prop} {R : β → σ → Prop}
variable {f : StateT σ Option α} {g : α → StateT σ Option β}

theorem pure (a : α) (h : ∀ s, P s → Q a s) : Triple P (Pure.pure a) Q :=
  fun s hs => ⟨a, s, rfl, h s hs⟩

theorem bind (hf : Triple P f Q) (hg : ∀ a, Triple (Q a) (g a) R) : Triple P (f >>= g) R := by
  intro s hs
  obtain ⟨a, s', e, ha⟩ := hf s hs
  obtain ⟨b, s'', e', hb⟩ := hg a s' ha
  exact ⟨b, s'', (run_bind_of_run e).trans e', hb⟩

theorem mono (h : Triple P f Q) (hP : ∀ s, P' s → P s) (hQ : ∀ a s, Q a s → Q' a s) :
    Triple P' f Q' := by
  intro s hs
  obtain ⟨a, s', e, ha⟩ := h s (hP s hs)
  exact ⟨a, s', e, hQ a s' ha⟩

theorem map (hf : Triple P f Q) (t : α → β) (h : ∀ a s, Q a s → R (t a) s) :
    Triple P (t <$> f) R := by
  intro s hs
  obtain ⟨a, s', e, ha⟩ := hf s hs
  refine ⟨t a, s', ?_, h a s' ha⟩
  show f.run s >>= (fun r => some (t r.1, r.2)) = _
  rw [e]
  rfl

/-- Reading the state. -/
theorem get_bind {k : σ → StateT σ Option β} (h : ∀ m, P m → Triple P (k m) R) :
    Triple P (get >>= k) R :=
  fun s hs => h s hs s hs

theorem modify (t : σ → σ) (h : ∀ s, P s → P' (t s)) :
    Triple P (modify t : StateT σ Option PUnit) fun _ => P' :=
  fun s hs => ⟨⟨⟩, t s, rfl, h s hs⟩

theorem lift_bind {o : Option α} {a : α} (h : o = some a) (hg : Triple P (g a) R) :
    Triple P (liftM o >>= g) R := by
  subst h
  exact hg

theorem ite {c : Prop} [Decidable c] {f' : StateT σ Option α} (h : c → Triple P f Q)
    (h' : ¬ c → Triple P f' Q) : Triple P (if c then f else f') Q := by
  by_cases hc : c
  · rw [if_pos hc]
    exact h hc
  · rw [if_neg hc]
    exact h' hc

/-- A fact that needs no state. -/
theorem of_imp {p : Prop} (h : p → Triple P f Q) : Triple (fun s => P s ∧ p) f Q :=
  fun s hs => h hs.2 s hs.1

section Loop

variable {cond : ι → Bool} {next : ι → ι} {body : ι → StateT σ Option Unit}

/-- A loop whose variable takes the values `i 0`, ..., `i (k - 1)`: what its `j`-th
turn leaves to the next one holds after all of them. -/
theorem forLoop {k : Nat} {first : ι} (i : Nat → ι) (hfirst : i 0 = first)
    (hcond : ∀ j, j < k → cond (i j) = true) (hnext : ∀ j, j < k → next (i j) = i (j + 1))
    (hstop : cond (i k) = false) (I : Nat → σ → Prop)
    (hbody : ∀ j, j < k → Triple (I j) (body (i j)) fun _ => I (j + 1)) :
    Triple (I 0) (forLoop cond next body first) fun _ => I k := by
  subst hfirst
  induction k generalizing i I with
  | zero =>
      rw [forLoop_eq, hstop]
      exact pure () fun s hs => hs
  | succ k ih =>
      rw [forLoop_eq, hcond 0 (Nat.succ_pos k), if_pos rfl,
        hnext 0 (Nat.succ_pos k)]
      refine bind (hbody 0 (Nat.succ_pos k)) fun _ => ?_
      -- the rest is the loop that starts at the second value
      exact ih (fun j => i (j + 1)) (fun j hj => hcond (j + 1) (Nat.succ_lt_succ hj))
        (fun j hj => hnext (j + 1) (Nat.succ_lt_succ hj)) hstop (fun j => I (j + 1))
        fun j hj => hbody (j + 1) (Nat.succ_lt_succ hj)

/-- A loop that collects: its `j`-th turn adds the elements of `A j`. -/
theorem forLoop_union {γ : Type} {k : Nat} {first : ι} (i : Nat → ι) (hfirst : i 0 = first)
    (hcond : ∀ j, j < k → cond (i j) = true) (hnext : ∀ j, j < k → next (i j) = i (j + 1))
    (hstop : cond (i k) = false) (I : Set γ → σ → Prop) (K : Set γ) (A : Nat → Set γ)
    (hbody : ∀ j, j < k → Triple (I (K ∪ ⋃ j' < j, A j')) (body (i j)) fun _ =>
      I ((K ∪ ⋃ j' < j, A j') ∪ A j)) :
    Triple (I K) (PCGForUnity.forLoop cond next body first) fun _ => I (K ∪ ⋃ j < k, A j) := by
  have hturn (j : Nat) (hj : j < k) : Triple (I (K ∪ ⋃ j' < j, A j')) (body (i j)) fun _ =>
      I (K ∪ ⋃ j' < j + 1, A j') := by
    rw [Set.biUnion_lt_succ, ← Set.union_assoc]
    exact hbody j hj
  have h := forLoop i hfirst hcond hnext hstop (fun j => I (K ∪ ⋃ j' < j, A j')) hturn
  refine mono h (fun s hs => ?_) fun _ _ hs => hs
  simpa using hs

/-- `for (i = 0; i < n; i++)`, over integers. -/
theorem forLoop_natCast {n : ℕ} {body : ℤ → StateT σ Option Unit} (I : ℕ → σ → Prop)
    (hbody : ∀ j : ℕ, j < n → Triple (I j) (body j) fun _ => I (j + 1)) :
    Triple (I 0) (PCGForUnity.forLoop (fun i => decide (i < (n : ℤ))) (· + 1) body 0) fun _ =>
      I n :=
  forLoop (fun j : ℕ => (j : ℤ)) rfl (fun j hj => decide_eq_true (by omega)) (fun j _ => rfl)
    (decide_eq_false (by omega)) I hbody

/-- A loop that is not entered. -/
theorem forLoop_of_le {lo hi : ℤ} {body : ℤ → StateT σ Option Unit} (hle : hi ≤ lo) :
    Triple P (PCGForUnity.forLoop (fun i => decide (i < hi)) (· + 1) body lo) fun _ => P := by
  rw [forLoop_eq, if_neg (by simpa using hle)]
  exact pure () fun s hs => hs

/-- A loop whose turns append to what there is, for any bound. -/
theorem forLoop_append {γ : Type} {n : ℤ} {body : ℤ → StateT σ Option Unit}
    (I : List γ → σ → Prop) (g : ℕ → List γ)
    (hbody : ∀ pre (j : ℕ), (j : ℤ) < n → Triple (I pre) (body j) fun _ => I (pre ++ g j))
    (pre : List γ) :
    Triple (I pre) (PCGForUnity.forLoop (fun i => decide (i < n)) (· + 1) body 0) fun _ =>
      I (pre ++ (List.range n.toNat).flatMap g) := by
  rcases Int.le_total n 0 with hn | hn
  · rw [Int.toNat_of_nonpos hn, List.range_zero, List.flatMap_nil, List.append_nil]
    exact forLoop_of_le hn
  · obtain ⟨k, rfl⟩ := Int.eq_ofNat_of_zero_le hn
    have hstep (j : ℕ) (hj : j < k) : Triple (I (pre ++ (List.range j).flatMap g)) (body j)
        fun _ => I (pre ++ (List.range (j + 1)).flatMap g) := by
      rw [List.range_succ, List.flatMap_append, List.flatMap_singleton, ← List.append_assoc]
      exact hbody _ j (Int.ofNat_lt.mpr hj)
    have h := forLoop_natCast (fun j => I (pre ++ (List.range j).flatMap g)) hstep
    rw [List.range_zero, List.flatMap_nil, List.append_nil] at h
    exact h

/-- A loop over a list with an accumulator. -/
theorem foldlM {l : List ι} {f : α → ι → StateT σ Option α} (I : List ι → α → σ → Prop)
    (hstep : ∀ pre i a, pre ++ [i] <+: l → Triple (I pre a) (f a i) fun a' => I (pre ++ [i]) a')
    (a : α) : Triple (I [] a) (l.foldlM f a) (I l) := by
  suffices h : ∀ post pre a, pre ++ post = l → Triple (I pre a) (post.foldlM f a) (I l) from
    h l [] a rfl
  intro post
  induction post with
  | nil =>
      rintro pre a rfl
      rw [List.append_nil, List.foldlM_nil]
      exact pure a fun s hs => hs
  | cons i post ih =>
      intro pre a hl
      have hl : pre ++ [i] ++ post = l := by
        rw [← hl, List.append_assoc]
        rfl
      rw [List.foldlM_cons]
      exact bind (hstep pre i a ⟨post, hl⟩) fun a' => ih (pre ++ [i]) a' hl

end Loop

/-! ### Counters of 32 bits -/

section Counter

variable {body : UInt32 → StateT σ Option Unit}

theorem toNat_ofNat {j : Nat} (h : j < 2 ^ 32) : (UInt32.ofNat j).toNat = j :=
  UInt32.toNat_ofNat_of_lt' h

theorem toNat_add_ofNat {a : UInt32} {j : Nat} (h : a.toNat + j < 2 ^ 32) :
    (a + UInt32.ofNat j).toNat = a.toNat + j := by
  rw [UInt32.toNat_add, toNat_ofNat (by omega), Nat.mod_eq_of_lt h]

theorem add_ofNat_succ (a : UInt32) (j : Nat) :
    a + UInt32.ofNat j + 1 = a + UInt32.ofNat (j + 1) := by
  rw [UInt32.ofNat_add, ← UInt32.add_assoc]
  rfl

/-- `for (i = lo; i <= hi; i++)`, which ends unless `hi` is the greatest number. -/
theorem forLoop_le {lo hi : UInt32} {k : Nat} (hk : lo.toNat + k = hi.toNat + 1)
    (hhi : hi.toNat + 1 < 2 ^ 32) (I : Nat → σ → Prop)
    (hbody : ∀ j, j < k → Triple (I j) (body (lo + UInt32.ofNat j)) fun _ => I (j + 1)) :
    Triple (I 0) (PCGForUnity.forLoop (fun i => decide (i ≤ hi)) (· + 1) body lo) fun _ => I k := by
  refine forLoop (fun j => lo + UInt32.ofNat j) (UInt32.add_zero lo) (fun j hj => ?_)
    (fun j _ => add_ofNat_succ lo j) ?_ I hbody
  · refine decide_eq_true (UInt32.le_iff_toNat_le.mpr ?_)
    rw [toNat_add_ofNat (by omega)]
    omega
  · refine decide_eq_false (mt UInt32.le_iff_toNat_le.mp ?_)
    rw [toNat_add_ofNat (by omega)]
    omega

/-- `for (i = 0; i < n; i++)` -/
theorem forLoop_lt {n : UInt32} (I : Nat → σ → Prop)
    (hbody : ∀ j, j < n.toNat → Triple (I j) (body (UInt32.ofNat j)) fun _ => I (j + 1)) :
    Triple (I 0) (PCGForUnity.forLoop (fun i => decide (i < n)) (· + 1) body 0) fun _ =>
      I n.toNat := by
  have hn := n.toNat_lt
  refine forLoop (fun j => UInt32.ofNat j) rfl (fun j hj => ?_)
    (fun j _ => (UInt32.ofNat_add j 1).symm) ?_ I hbody
  · refine decide_eq_true (UInt32.lt_iff_toNat_lt.mpr ?_)
    rw [toNat_ofNat (by omega)]
    exact hj
  · refine decide_eq_false (mt UInt32.lt_iff_toNat_lt.mp ?_)
    rw [toNat_ofNat hn]
    exact Nat.lt_irrefl _

end Counter

end Triple

end PCGForUnity
