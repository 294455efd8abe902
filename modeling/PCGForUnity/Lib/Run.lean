/-
PCGForUnity/Lib/Run.lean

Runs of a partial step function, as left folds in `Option`: `none` stands for
an operation that has no defined result (a null dereference, an access past the
end of a buffer, a loop that never ends).

Three induction principles are packaged here.  `foldlM_rel` carries a relation to
an abstract machine along a run all of whose steps are allowed.
`forall_prefix_good_iff` is the exact form: when an allowed step keeps the
relation and a step that is not allowed leaves a bad state, a run is good at all
of its prefixes exactly when each of its steps is allowed.  `forall_prefix_iff_of` has
conditions on the states of the run itself.
-/
import Mathlib.Data.List.Infix
import Mathlib.Data.List.Induction
import Mathlib.Algebra.Order.Ring.Nat

namespace PCGForUnity.Run

variable {σ α Op : Type*}

/-- Every operation of `ops` satisfies `P` at the abstract state it is applied
to, the abstract run starting in `a`. -/
def EachStep (astep : α → Op → α) (P : α → Op → Prop) : α → List Op → Prop
  | _, [] => True
  | a, op :: ops => P a op ∧ EachStep astep P (astep a op) ops

/-- Over a list on whose elements a function has results, so has `mapM`. -/
theorem mapM_eq_some_map {β : Type*} {f : α → Option β} {g : α → β} {l : List α}
    (h : ∀ a ∈ l, f a = some (g a)) : l.mapM f = some (l.map g) := by
  induction l with
  | nil => rfl
  | cons a l ih =>
      rw [List.mapM_cons, h a List.mem_cons_self, ih fun b hb => h b (List.mem_cons_of_mem _ hb)]
      rfl

/-- The last step of a run. -/
theorem foldlM_concat {f : σ → Op → Option σ} {s s' : σ} {pre : List Op} {op : Op} :
    (pre ++ [op]).foldlM f s = some s' ↔ ∃ s₁, pre.foldlM f s = some s₁ ∧ f s₁ op = some s' := by
  rw [List.foldlM_append, Option.bind_eq_bind, Option.bind_eq_some_iff]
  refine exists_congr fun s₁ => and_congr_right fun _ => ?_
  rw [List.foldlM_cons]
  exact iff_of_eq (congrArg (· = some s') (Option.bind_fun_some (f s₁ op)))

section EachStep

variable {astep : α → Op → α} {P Q : α → Op → Prop}

@[simp] theorem eachStep_nil (a : α) : EachStep astep P a [] := trivial

@[simp] theorem eachStep_cons {a : α} {op : Op} {ops : List Op} :
    EachStep astep P a (op :: ops) ↔ P a op ∧ EachStep astep P (astep a op) ops :=
  Iff.rfl

theorem eachStep_append {a : α} {l₁ l₂ : List Op} :
    EachStep astep P a (l₁ ++ l₂)
      ↔ EachStep astep P a l₁ ∧ EachStep astep P (l₁.foldl astep a) l₂ := by
  induction l₁ generalizing a with
  | nil => simp
  | cons op ops ih => simp [ih, and_assoc]

instance EachStep.decidable [∀ a op, Decidable (P a op)] :
    (a : α) → (ops : List Op) → Decidable (EachStep astep P a ops)
  | _, [] => .isTrue trivial
  | a, op :: ops =>
      have := EachStep.decidable (astep a op) ops
      inferInstanceAs (Decidable (P a op ∧ EachStep astep P (astep a op) ops))

theorem EachStep.mono {a : α} {ops : List Op} (h : EachStep astep P a ops)
    (hPQ : ∀ a op, P a op → Q a op) : EachStep astep Q a ops := by
  induction ops generalizing a with
  | nil => trivial
  | cons op ops ih => exact ⟨hPQ a op h.1, ih h.2⟩

theorem eachStep_true (a : α) (ops : List Op) : EachStep astep (fun _ _ => True) a ops := by
  induction ops generalizing a with
  | nil => trivial
  | cons op ops ih => exact ⟨trivial, ih _⟩

/-- A property of the operations alone. -/
theorem eachStep_iff_forall_mem {p : Op → Prop} {a : α} {ops : List Op} :
    EachStep astep (fun _ op => p op) a ops ↔ ∀ op ∈ ops, p op := by
  induction ops generalizing a with
  | nil => simp
  | cons op ops ih => rw [eachStep_cons, ih, List.forall_mem_cons]

/-- Pointwise form: the steps of a run are its splits `pre ++ op :: post`. -/
theorem eachStep_iff_forall_split {a : α} {ops : List Op} :
    EachStep astep P a ops
      ↔ ∀ pre op post, ops = pre ++ op :: post → P (pre.foldl astep a) op := by
  constructor
  · rintro h pre op post rfl
    exact (eachStep_append.mp h).2.1
  · intro h
    induction ops generalizing a with
    | nil => trivial
    | cons op ops ih =>
        refine ⟨h [] op ops rfl, ih fun pre op' post e => ?_⟩
        exact h (op :: pre) op' post (by rw [e]; rfl)

/-- Either every step of a run satisfies `P` or there is a first one that does not. -/
theorem eachStep_or_exists_first (astep : α → Op → α) (P : α → Op → Prop) (a : α)
    (ops : List Op) :
    EachStep astep P a ops ∨ ∃ pre op post, ops = pre ++ op :: post ∧
      EachStep astep P a pre ∧ ¬ P (pre.foldl astep a) op := by
  induction ops generalizing a with
  | nil => exact Or.inl trivial
  | cons op ops ih =>
      by_cases hop : P a op
      · rcases ih (astep a op) with hall | ⟨pre, op', post, rfl, hpre, hnot⟩
        · exact Or.inl ⟨hop, hall⟩
        · exact Or.inr ⟨op :: pre, op', post, rfl, ⟨hop, hpre⟩, hnot⟩
      · exact Or.inr ⟨[], op, ops, rfl, trivial, hop⟩

end EachStep

section Relation

variable (step : σ → Op → Option σ) (astep : α → Op → α)
variable (R : σ → α → Prop) (Adm Ok : α → Op → Prop)

/-- A relation kept by every allowed step holds at the end of every run of
allowed steps, and such a run is defined. -/
theorem foldlM_rel
    (hstep : ∀ s a op, R s a → Ok a op → ∃ s', step s op = some s' ∧ R s' (astep a op))
    {s : σ} {a : α} {ops : List Op} (h₀ : R s a) (hok : EachStep astep Ok a ops) :
    ∃ s', ops.foldlM step s = some s' ∧ R s' (ops.foldl astep a) := by
  induction ops generalizing s a with
  | nil => exact ⟨s, rfl, h₀⟩
  | cons op ops ih =>
      obtain ⟨s₁, e₁, h₁⟩ := hstep s a op h₀ hok.1
      obtain ⟨s₂, e₂, h₂⟩ := ih h₁ hok.2
      exact ⟨s₂, by rw [List.foldlM_cons, e₁]; exact e₂, h₂⟩

/-- What every step of a run keeps holds after the run, if both have a result. -/
theorem foldlM_invariant (I : σ → Prop) {ops : List Op}
    (hstep : ∀ s op s', op ∈ ops → I s → step s op = some s' → I s') {s s' : σ} (h₀ : I s)
    (hrun : ops.foldlM step s = some s') : I s' := by
  induction ops generalizing s with
  | nil => exact Option.some.inj hrun ▸ h₀
  | cons op ops ih =>
      rw [List.foldlM_cons] at hrun
      obtain ⟨s₁, hop, hrest⟩ := Option.bind_eq_some_iff.mp hrun
      apply ih _ (hstep s op s₁ List.mem_cons_self h₀ hop) hrest
      intro s op s' hmem
      exact hstep s op s' (List.mem_cons_of_mem _ hmem)

/-- What holds at first and is kept by every step of a run holds after every part
of the run. -/
theorem forall_prefix_induction (I : σ → Prop) {s₀ : σ} {ops : List Op} (h₀ : I s₀)
    (hstep : ∀ pre op s s', pre ++ [op] <+: ops → pre.foldlM step s₀ = some s → I s →
      step s op = some s' → I s') {pre : List Op} {s : σ} (hpre : pre <+: ops)
    (hrun : pre.foldlM step s₀ = some s) : I s := by
  induction pre using List.reverseRecOn generalizing s with
  | nil => exact Option.some.inj hrun ▸ h₀
  | append_singleton pre op ih =>
      obtain ⟨s₁, hs₁, hop⟩ := foldlM_concat.mp hrun
      exact hstep pre op s₁ s hpre hs₁ (ih ((List.prefix_append pre [op]).trans hpre) hs₁) hop

/-- **Exactness of a step condition.**  If a related state is good, an allowed
step keeps the relation and a step that is not allowed leaves a bad state, then
a run is good at every prefix exactly when all of its steps are allowed.  `Adm`
is what the caller of the operations promises. -/
theorem forall_prefix_good_iff (Good : Option σ → α → Prop)
    (hgood : ∀ s a, R s a → Good (some s) a)
    (hok : ∀ s a op, R s a → Adm a op → Ok a op →
      ∃ s', step s op = some s' ∧ R s' (astep a op))
    (hbad : ∀ s a op, R s a → Adm a op → ¬ Ok a op → ¬ Good (step s op) (astep a op))
    {s : σ} {a : α} {ops : List Op} (h₀ : R s a) (hadm : EachStep astep Adm a ops) :
    (∀ pre, pre <+: ops → Good (pre.foldlM step s) (pre.foldl astep a))
      ↔ EachStep astep Ok a ops := by
  induction ops generalizing s a with
  | nil =>
      refine iff_of_true (fun pre hpre => ?_) trivial
      obtain rfl := List.prefix_nil.mp hpre
      exact hgood s a h₀
  | cons op ops ih =>
      obtain ⟨hop, hrest⟩ := hadm
      constructor
      · intro h
        have hok₁ : Ok a op := by
          by_contra hn
          refine hbad s a op h₀ hop hn ?_
          simpa using h [op] ⟨ops, rfl⟩
        obtain ⟨s', e, h'⟩ := hok s a op h₀ hop hok₁
        refine ⟨hok₁, (ih h' hrest).mp fun pre hpre => ?_⟩
        have := h (op :: pre) ((List.prefix_cons_inj op).mpr hpre)
        simpa [e] using this
      · rintro ⟨hok₁, hall⟩ pre hpre
        obtain ⟨s', e, h'⟩ := hok s a op h₀ hop hok₁
        rcases pre with - | ⟨op', pre⟩
        · exact hgood s a h₀
        · obtain ⟨rfl, hpre'⟩ := List.cons_prefix_cons.mp hpre
          simpa [e] using (ih h' hrest).mpr hall pre hpre'

end Relation

/-- **Exactness of a condition on the states of a run.**  The same for steps that may
have no result, with conditions on the state a step starts from: a run is good at
every prefix exactly when it is met at each of its steps. -/
theorem forall_prefix_iff_of (step : σ → Op → Option σ) (Inv Good : σ → Prop)
    (Adm Ok : σ → Op → Prop) (hgood : ∀ s, Inv s → Good s)
    (hok : ∀ s op s', Inv s → Adm s op → Ok s op → step s op = some s' → Inv s')
    (hbad : ∀ s op, Inv s → Adm s op → ¬ Ok s op → ∃ s', step s op = some s' ∧ ¬ Good s')
    {s₀ : σ} {ops : List Op} (h₀ : Inv s₀)
    (hadm : ∀ pre op s, pre ++ [op] <+: ops → pre.foldlM step s₀ = some s → Adm s op) :
    (∀ pre s, pre <+: ops → pre.foldlM step s₀ = some s → Good s) ↔
      ∀ pre op s, pre ++ [op] <+: ops → pre.foldlM step s₀ = some s → Ok s op := by
  constructor
  · intro h
    have hinv {pre : List Op} {s : σ} (hpre : pre <+: ops)
        (hrun : pre.foldlM step s₀ = some s) : Inv s := by
      refine forall_prefix_induction step Inv h₀ (fun pre op s s' hpre hrun hs e => ?_) hpre hrun
      by_contra hno
      have hop := hadm pre op s hpre hrun
      have hnot : ¬ Ok s op := fun hok₁ => hno (hok s op s' hs hop hok₁ e)
      obtain ⟨s'', e', hbad'⟩ := hbad s op hs hop hnot
      exact hbad' (h _ s'' hpre (foldlM_concat.mpr ⟨s, hrun, e'⟩))
    intro pre op s hpre hrun
    by_contra hnot
    obtain ⟨s', e, hbad'⟩ := hbad s op (hinv ((List.prefix_append pre [op]).trans hpre) hrun)
      (hadm pre op s hpre hrun) hnot
    exact hbad' (h _ s' hpre (foldlM_concat.mpr ⟨s, hrun, e⟩))
  · intro h pre s hpre hrun
    exact hgood s (forall_prefix_induction step Inv h₀ (fun pre op s s' hpre hrun hs e =>
      hok s op s' hs (hadm pre op s hpre hrun) (h pre op s hpre hrun) e) hpre hrun)

/-- The same where what the caller promises is about the operations alone. -/
theorem forall_prefix_iff (step : σ → Op → Option σ) (Inv Good : σ → Prop)
    (Adm : Op → Prop) (Ok : σ → Op → Prop) (hgood : ∀ s, Inv s → Good s)
    (hok : ∀ s op s', Inv s → Adm op → Ok s op → step s op = some s' → Inv s')
    (hbad : ∀ s op, Inv s → Adm op → ¬ Ok s op → ∃ s', step s op = some s' ∧ ¬ Good s')
    {s₀ : σ} {ops : List Op} (h₀ : Inv s₀) (hadm : ∀ op ∈ ops, Adm op) :
    (∀ pre s, pre <+: ops → pre.foldlM step s₀ = some s → Good s) ↔
      ∀ pre op s, pre ++ [op] <+: ops → pre.foldlM step s₀ = some s → Ok s op :=
  forall_prefix_iff_of step Inv Good (fun _ => Adm) Ok hgood hok hbad h₀ fun pre op _ hpre _ =>
    hadm op (hpre.subset (List.mem_append_right pre List.mem_cons_self))

section Work

variable (step : σ → Op → Option σ) (Own : Op → Prop) (I : σ → Prop) (work : σ → ℕ)

/-- Where a kind of step keeps an invariant and takes from a measure, a run of such steps
is no longer than what it takes. -/
theorem foldlM_length_le
    (hstep : ∀ s op s', I s → Own op → step s op = some s' → I s' ∧ work s' < work s)
    {ops : List Op} {s s' : σ} (h₀ : I s) (hown : ∀ op ∈ ops, Own op)
    (hrun : ops.foldlM step s = some s') : ops.length + work s' ≤ work s := by
  induction ops generalizing s with
  | nil =>
      obtain rfl := Option.some.inj hrun
      simp
  | cons op ops ih =>
      rw [List.foldlM_cons] at hrun
      obtain ⟨s₁, hop, hrest⟩ := Option.bind_eq_some_iff.mp hrun
      obtain ⟨h₁, hlt⟩ := hstep s op s₁ h₀ (hown op List.mem_cons_self) hop
      have := ih h₁ (fun op' hmem => hown op' (List.mem_cons_of_mem _ hmem)) hrest
      rw [List.length_cons]
      omega

/-- And from every state some run of them comes to a state where none is left. -/
theorem exists_foldlM_rest
    (hstep : ∀ s op s', I s → Own op → step s op = some s' → I s' ∧ work s' < work s)
    {s : σ} (h₀ : I s) :
    ∃ (ops : List Op) (s' : σ), (∀ op ∈ ops, Own op) ∧ ops.foldlM step s = some s' ∧
      ∀ op, Own op → step s' op = none := by
  induction hn : work s using Nat.strong_induction_on generalizing s with
  | _ n ih =>
      by_cases hrest : ∀ op, Own op → step s op = none
      · exact ⟨[], s, by simp, rfl, hrest⟩
      · push Not at hrest
        obtain ⟨op, hop, hsome⟩ := hrest
        obtain ⟨s₁, e⟩ := Option.ne_none_iff_exists'.mp hsome
        obtain ⟨h₁, hlt⟩ := hstep s op s₁ h₀ hop e
        obtain ⟨ops, s', hown, hrun, hnone⟩ := ih (work s₁) (hn ▸ hlt) h₁ rfl
        refine ⟨op :: ops, s', List.forall_mem_cons.mpr ⟨hop, hown⟩, ?_, hnone⟩
        rw [List.foldlM_cons, e]
        exact hrun

end Work

end PCGForUnity.Run
