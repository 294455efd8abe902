/-
PCGForUnity/ECS/StableArrayCopies.lean

`resize`, `clear`, `swap`, the copy constructor and the two assignments of a `StableArray`, in
any mix with `Add` and `remove`, over any number of arrays.  In a run

    in every state every array has the tombstones of its elements, and the values added
    to it and not removed or cleared   ↔   each operation meets its condition

(`tombstones_kept_iff`).

All of them move or drop elements, and `_invalid` takes part in none but the growing of an
array, where it is cleared whatever the elements are.  So a run keeps the tombstones exactly
if at each of its steps the positions in `_invalid` happen to be the right ones afterwards.

Design.  `StoreOp.Keeps` has the condition of each operation, on the state before it.  For one
array each function has a lemma with its condition (`Tombstones.resize_iff` and the like);
`good_bind_iff` takes it to the arrays of a run, where an index may be of none.
-/
import PCGForUnity.ECS.SlotReuse
import PCGForUnity.Lib.Run
import Mathlib.Logic.Function.Basic

namespace PCGForUnity

namespace StableArray

variable {α : Type}

/-! ### The functions as coded -/

/-- `clear`. -/
def clear (T : ComponentClass α) (a : StableArray α) (shrink : Bool) : Option (StableArray α) :=
  a.resize T 0 shrink

/-- `swap`, which leaves `_invalid` and `dirty` where they are. -/
def swap (a b : StableArray α) : StableArray α × StableArray α :=
  ({ a with allocation := b.allocation, data := b.data, numAllocated := b.numAllocated },
    { b with allocation := a.allocation, data := a.data, numAllocated := a.numAllocated })

/-- The loop `data[i] = other[i]`. -/
def copyElements (other : List (Component α)) (a : StableArray α) : Option (StableArray α) :=
  (List.range a.data.length).foldlM (fun a i => do
    let value ← other[i]?
    let (a, _) ← a.assign i value
    some a) a

/-- The copy constructor; for an empty `other` it leaves `dirty` unset. -/
def copy (T : ComponentClass α) (other : StableArray α) (dirty : Bool) :
    Option (StableArray α) := do
  let n := other.data.length
  let a ← if n > 0 then (empty dirty).resize T n true else some (empty dirty)
  a.copyElements other.data

/-- `operator=` of an array and of a vector, which differ in the type of `other` only. -/
def operatorAssign (T : ComponentClass α) (a : StableArray α) (other : List (Component α)) :
    Option (StableArray α) := do
  let a ← a.resize T other.length true
  a.copyElements other

/-- `resize` moves the array. -/
def Reallocates (T : ComponentClass α) (a : StableArray α) (n : Nat) (shrink : Bool) : Prop :=
  a.data.length ≠ n ∧ (n > a.numAllocated ∨
    n ≤ a.numAllocated / 3 ∧ shrink ∧ n > max minElements (minBytes / T.sizeofT))

instance (T : ComponentClass α) (a : StableArray α) (n : Nat) (shrink : Bool) :
    Decidable (a.Reallocates T n shrink) := by
  unfold Reallocates
  infer_instance

variable {T : ComponentClass α} {a a' b : StableArray α} {other : List (Component α)}
  {value : Component α} {n : Nat} {shrink : Bool}

/-! ### What the functions leave -/

/-- `resize`: the first elements stay, and `_invalid` is cleared if the array moves. -/
theorem resize_spec (T : ComponentClass α) (hle : a.data.length ≤ a.numAllocated) (n : Nat)
    (shrink : Bool) :
    ∃ a', a.resize T n shrink = some a'
      ∧ a'.data = a.data.take n ++ List.replicate (n - a.data.length) T.new
      ∧ a'.invalid = (if a.Reallocates T n shrink then [] else a.invalid)
      ∧ a'.data.length ≤ a'.numAllocated := by
  by_cases hn : a.data.length = n
  · have hno : ¬ a.Reallocates T n shrink := fun hr => hr.1 hn
    refine ⟨a, by rw [resize, if_pos hn], ?_, by rw [if_neg hno], hle⟩
    rw [← hn, List.take_length, Nat.sub_self, List.replicate_zero, List.append_nil]
  · have hlen : ∀ {m : Nat}, n ≤ m →
        (a.data.take n ++ List.replicate (n - a.data.length) T.new).length ≤ m := by
      intro m hm
      rw [List.length_append, List.length_take, List.length_replicate]
      omega
    by_cases hgrow : n > a.numAllocated
    · -- the array grows to a new allocation
      have hr : a.Reallocates T n shrink := ⟨hn, Or.inl hgrow⟩
      have hroom := le_newAllocated T.sizeofT hgrow
      have hmin : min a.data.length (newAllocated T.sizeofT a.numAllocated n) = a.data.length :=
        Nat.min_eq_left (by omega)
      have htake : a.data.take n = a.data := List.take_of_length_le (by omega)
      refine ⟨⟨a.allocation + 1, a.data.take n ++ List.replicate (n - a.data.length) T.new, [],
        newAllocated T.sizeofT a.numAllocated n, true⟩, ?_, rfl, by rw [if_pos hr], hlen hroom⟩
      simp only [resize, if_neg hn, if_pos hgrow, realloc, hmin, if_pos hroom, htake,
        List.take_length]
    · have hfit : n ≤ a.numAllocated := Nat.not_lt.mp hgrow
      by_cases hshrink : n ≤ a.numAllocated / 3 ∧ shrink ∧
          n > max minElements (minBytes / T.sizeofT)
      · have hr : a.Reallocates T n shrink := ⟨hn, Or.inr hshrink⟩
        have htake : (a.data.take n).take (min (min n a.data.length) a.numAllocated)
            = a.data.take n := by
          rw [List.take_take]
          rcases Nat.le_total n a.data.length with h | h
          · rw [Nat.min_eq_left h, Nat.min_eq_left hfit, Nat.min_self]
          · rw [Nat.min_eq_right h, Nat.min_eq_left hle, Nat.min_eq_left h, List.take_length,
              List.take_of_length_le h]
        refine ⟨⟨a.allocation + 1, a.data.take n ++ List.replicate (n - a.data.length) T.new, [],
          a.numAllocated, true⟩, ?_, rfl, by rw [if_pos hr], hlen hfit⟩
        simp only [resize, if_neg hn, if_neg hgrow, if_pos hshrink, realloc, htake, if_pos hfit]
      · have hno : ¬ a.Reallocates T n shrink := fun hr => hr.2.elim hgrow hshrink
        refine ⟨⟨a.allocation, a.data.take n ++ List.replicate (n - a.data.length) T.new, a.invalid,
          a.numAllocated, a.dirty || decide (a.data.length > n)⟩, ?_, rfl, by rw [if_neg hno],
          hlen hfit⟩
        simp only [resize, if_neg hn, if_neg hgrow, if_neg hshrink, if_pos hfit]

/-- The loop of the copies, up to the index `k`. -/
theorem copyElements_loop (hlen : other.length = a.data.length) {k : Nat}
    (hk : k ≤ a.data.length) :
    (List.range k).foldlM (fun (a : StableArray α) i => do
        let value ← other[i]?
        let (a, _) ← a.assign i value
        some a) a
      = some { a with data := other.take k ++ a.data.drop k } := by
  induction k with
  | zero => rfl
  | succ k ih =>
      have hother : other[k]? = some other[k] := List.getElem?_eq_getElem (by omega)
      have hwithin : k < (other.take k ++ a.data.drop k).length := by
        rw [List.length_append, List.length_take, List.length_drop]
        omega
      have hset : (other.take k ++ a.data.drop k).set k other[k]
          = other.take (k + 1) ++ a.data.drop (k + 1) := by
        have hk' : (other.take k).length = k := by rw [List.length_take]; omega
        rw [List.set_append_right _ _ (by omega), hk', Nat.sub_self,
          List.drop_eq_getElem_cons (by omega), List.set_cons_zero,
          List.take_succ_eq_append_getElem (by omega), List.append_assoc]
        rfl
      rw [List.range_succ, List.foldlM_append, ih (by omega)]
      simp only [Option.bind_eq_bind, Option.bind_some, List.foldlM_cons, List.foldlM_nil, hother,
        assign, if_pos hwithin, hset]
      rfl

theorem copyElements_eq (hlen : other.length = a.data.length) :
    a.copyElements other = some { a with data := other } := by
  rw [copyElements, copyElements_loop hlen (Nat.le_refl _), ← hlen, List.take_length, hlen,
    List.drop_length, List.append_nil]

/-- The copy has the elements and an empty `_invalid`. -/
theorem copy_spec (T : ComponentClass α) (other : StableArray α) (dirty : Bool) :
    ∃ a', copy T other dirty = some a' ∧ a'.data = other.data ∧ a'.invalid = []
      ∧ a'.data.length ≤ a'.numAllocated := by
  rw [copy]
  by_cases hn : other.data.length > 0
  · obtain ⟨a, hrun, hdata, hinvalid, hle⟩ :=
      resize_spec T (a := empty dirty) (Nat.le_refl _) other.data.length true
    have hlen : other.data.length = a.data.length := by
      rw [hdata]
      simp [empty]
    refine ⟨{ a with data := other.data }, ?_, rfl, ?_, ?_⟩
    · simp only [if_pos hn, hrun, Option.bind_eq_bind, Option.bind_some]
      exact copyElements_eq hlen
    · rw [show ({ a with data := other.data } : StableArray α).invalid = a.invalid from rfl,
        hinvalid]
      split <;> rfl
    · show other.data.length ≤ a.numAllocated
      omega
  · have hnil : other.data = [] := List.length_eq_zero_iff.mp (by omega)
    refine ⟨empty dirty, ?_, hnil.symm, rfl, Nat.le_refl _⟩
    simp only [if_neg hn, Option.bind_eq_bind, Option.bind_some]
    rfl

/-- An assignment has the elements, and the `_invalid` that `resize` leaves. -/
theorem operatorAssign_spec (T : ComponentClass α) (hle : a.data.length ≤ a.numAllocated)
    (other : List (Component α)) :
    ∃ a', a.operatorAssign T other = some a' ∧ a'.data = other
      ∧ a'.invalid = (if a.Reallocates T other.length true then [] else a.invalid)
      ∧ a'.data.length ≤ a'.numAllocated := by
  obtain ⟨a₁, hrun, hdata, hinvalid, hle₁⟩ := resize_spec T hle other.length true
  have hlen : other.length = a₁.data.length := by
    rw [hdata, List.length_append, List.length_take, List.length_replicate]
    omega
  refine ⟨{ a₁ with data := other }, ?_, rfl, hinvalid, ?_⟩
  · rw [operatorAssign, hrun]
    exact copyElements_eq hlen
  · show other.length ≤ a₁.numAllocated
    omega

/-! ### When the tombstones stay right -/

/-- After `resize` the default elements have to be valid, and of the old tombstones none
may be among the elements of an array that moved, and none behind those of one that did
not. -/
def ResizeKeeps (T : ComponentClass α) (a : StableArray α) (n : Nat) (shrink : Bool) : Prop :=
  (a.data.length < n → T.new.Valid)
    ∧ ∀ pos ∈ a.invalid, if a.Reallocates T n shrink then n ≤ pos else pos < n

/-- After an assignment the tombstones that `resize` leaves have to be those of the
elements assigned. -/
def AssignKeeps (T : ComponentClass α) (a : StableArray α) (other : List (Component α)) : Prop :=
  if a.Reallocates T other.length true then ∀ c ∈ other, c.Valid
  else ∀ pos, pos ∈ a.invalid ↔ ∃ c, other[pos]? = some c ∧ ¬ c.Valid

theorem Tombstones.lt_of_mem (h : a.Tombstones) {pos : Nat} (hmem : pos ∈ a.invalid) :
    pos < a.data.length := by
  obtain ⟨c, hc, -⟩ := (h.mem_iff pos).mp hmem
  exact (List.getElem?_eq_some_iff.mp hc).1

/-- Where `resize` leaves elements that are marked invalid. -/
theorem Tombstones.marked_resize (h : a.Tombstones) (c₀ : Component α) (n pos : Nat) :
    (∃ c, (a.data.take n ++ List.replicate (n - a.data.length) c₀)[pos]? = some c ∧ ¬ c.Valid)
      ↔ pos < n ∧ (pos ∈ a.invalid ∨ a.data.length ≤ pos ∧ ¬ c₀.Valid) := by
  rcases Nat.lt_or_ge pos n with hpos | hpos
  · rcases Nat.lt_or_ge pos a.data.length with hlen | hlen
    · have hget : (a.data.take n ++ List.replicate (n - a.data.length) c₀)[pos]? = a.data[pos]? := by
        rw [List.getElem?_append_left (by rw [List.length_take]; omega),
          List.getElem?_take_of_lt hpos]
      rw [hget, ← h.mem_iff pos]
      constructor
      · exact fun hmem => ⟨hpos, Or.inl hmem⟩
      · rintro ⟨-, hmem | ⟨hge, -⟩⟩
        · exact hmem
        · omega
    · have hget : (a.data.take n ++ List.replicate (n - a.data.length) c₀)[pos]? = some c₀ := by
        rw [List.take_of_length_le (by omega), List.getElem?_append_right hlen,
          List.getElem?_replicate, if_pos (by omega)]
      rw [hget]
      constructor
      · rintro ⟨c, hc, hno⟩
        exact ⟨hpos, Or.inr ⟨hlen, Option.some.inj hc ▸ hno⟩⟩
      · rintro ⟨-, hmem | ⟨-, hno⟩⟩
        · exact absurd (h.lt_of_mem hmem) (by omega)
        · exact ⟨c₀, rfl, hno⟩
  · rw [List.getElem?_eq_none]
    · refine iff_of_false (fun hc => ?_) fun hlt => absurd hlt.1 (Nat.not_lt.mpr hpos)
      obtain ⟨c, hc, -⟩ := hc
      exact nomatch hc
    · rw [List.length_append, List.length_take, List.length_replicate]
      omega

/-- The tombstones after `resize`. -/
theorem Tombstones.resize_iff (h : a.Tombstones)
    (hdata : a'.data = a.data.take n ++ List.replicate (n - a.data.length) T.new)
    (hinvalid : a'.invalid = if a.Reallocates T n shrink then [] else a.invalid) :
    a'.Tombstones ↔ a.ResizeKeeps T n shrink := by
  have hmarked := h.marked_resize T.new n
  rw [← hdata] at hmarked
  by_cases hr : a.Reallocates T n shrink
  · -- the list of tombstones is emptied, so no slot may be one
    rw [if_pos hr] at hinvalid
    constructor
    · intro h'
      have hno : ∀ pos, ¬ (pos < n ∧ (pos ∈ a.invalid ∨ a.data.length ≤ pos ∧ ¬ T.new.Valid)) := by
        intro pos hpos
        have hmem := (h'.mem_iff pos).mpr ((hmarked pos).mpr hpos)
        rw [hinvalid] at hmem
        exact nomatch hmem
      refine ⟨fun hlt => ?_, fun pos hmem => ?_⟩
      · by_contra hnew
        exact hno a.data.length ⟨hlt, Or.inr ⟨Nat.le_refl _, hnew⟩⟩
      · rw [if_pos hr]
        exact Nat.not_lt.mp fun hlt => hno pos ⟨hlt, Or.inl hmem⟩
    · rintro ⟨hnew, hold⟩
      refine ⟨by rw [hinvalid]; exact List.nodup_nil, fun pos => ?_⟩
      rw [hmarked, hinvalid]
      refine iff_of_false List.not_mem_nil ?_
      rintro ⟨hlt, hmem | ⟨hge, hno⟩⟩
      · have hle := hold pos hmem
        rw [if_pos hr] at hle
        omega
      · exact hno (hnew (by omega))
  · -- the list stays, so no slot may become one, and none in it may be cut off
    rw [if_neg hr] at hinvalid
    constructor
    · intro h'
      have hiff : ∀ pos, pos ∈ a.invalid
          ↔ pos < n ∧ (pos ∈ a.invalid ∨ a.data.length ≤ pos ∧ ¬ T.new.Valid) := by
        intro pos
        rw [← hmarked, ← h'.mem_iff, hinvalid]
      refine ⟨fun hlt => ?_, fun pos hmem => ?_⟩
      · by_contra hnew
        have hmem := (hiff a.data.length).mpr ⟨hlt, Or.inr ⟨Nat.le_refl _, hnew⟩⟩
        exact Nat.lt_irrefl _ (h.lt_of_mem hmem)
      · rw [if_neg hr]
        exact ((hiff pos).mp hmem).1
    · rintro ⟨hnew, hold⟩
      refine ⟨by rw [hinvalid]; exact h.nodup, fun pos => ?_⟩
      rw [hmarked, hinvalid]
      constructor
      · intro hmem
        have hlt := hold pos hmem
        rw [if_neg hr] at hlt
        exact ⟨hlt, Or.inl hmem⟩
      · rintro ⟨hlt, hmem | ⟨hge, hno⟩⟩
        · exact hmem
        · exact absurd (hnew (by omega)) hno

/-- The tombstones after an assignment. -/
theorem Tombstones.assign_iff (h : a.Tombstones) (hdata : a'.data = other)
    (hinvalid : a'.invalid = if a.Reallocates T other.length true then [] else a.invalid) :
    a'.Tombstones ↔ a.AssignKeeps T other := by
  rw [AssignKeeps]
  by_cases hr : a.Reallocates T other.length true
  · rw [if_pos hr] at hinvalid ⊢
    constructor
    · intro h' c hmem
      obtain ⟨pos, hpos⟩ := List.mem_iff_getElem?.mp hmem
      by_contra hno
      have hin := (h'.mem_iff pos).mpr ⟨c, by rw [hdata]; exact hpos, hno⟩
      rw [hinvalid] at hin
      exact nomatch hin
    · intro hall
      refine ⟨by rw [hinvalid]; exact List.nodup_nil, fun pos => ?_⟩
      rw [hdata, hinvalid]
      refine iff_of_false List.not_mem_nil ?_
      rintro ⟨c, hc, hno⟩
      exact hno (hall c (List.mem_of_getElem? hc))
  · rw [if_neg hr] at hinvalid ⊢
    constructor
    · intro h' pos
      rw [← hinvalid, ← hdata]
      exact h'.mem_iff pos
    · intro hiff
      refine ⟨by rw [hinvalid]; exact h.nodup, fun pos => ?_⟩
      rw [hinvalid, hdata]
      exact hiff pos

/-- The tombstones of a copy. -/
theorem Tombstones.copy_iff (h : a.Tombstones) (hdata : a'.data = a.data)
    (hinvalid : a'.invalid = []) : a'.Tombstones ↔ a.invalid = [] := by
  constructor
  · intro h'
    rw [List.eq_nil_iff_forall_not_mem]
    intro pos hmem
    have hin := (h'.mem_iff pos).mpr (by rw [hdata]; exact (h.mem_iff pos).mp hmem)
    rw [hinvalid] at hin
    exact nomatch hin
  · intro hnil
    refine ⟨by rw [hinvalid]; exact List.nodup_nil, fun pos => ?_⟩
    rw [hdata, ← h.mem_iff, hinvalid, hnil]

/-- The tombstones after a swap. -/
theorem Tombstones.swap_iff (ha : a.Tombstones) (hb : b.Tombstones) :
    ((swap a b).1.Tombstones ∧ (swap a b).2.Tombstones) ↔ ∀ pos, pos ∈ a.invalid ↔ pos ∈ b.invalid := by
  constructor
  · intro h pos
    exact (h.1.mem_iff pos).trans (hb.mem_iff pos).symm
  · intro h
    exact ⟨⟨ha.nodup, fun pos => (h pos).trans (hb.mem_iff pos)⟩,
      ⟨hb.nodup, fun pos => (h pos).symm.trans (ha.mem_iff pos)⟩⟩

theorem clear_iff : a.ResizeKeeps T 0 shrink ↔ a.invalid = [] := by
  have hno : ¬ a.Reallocates T 0 shrink := by
    rintro ⟨-, hgrow | ⟨-, -, hmin⟩⟩
    · exact Nat.not_lt_zero _ hgrow
    · exact Nat.not_lt_zero _ hmin
  constructor
  · rintro ⟨-, hold⟩
    rw [List.eq_nil_iff_forall_not_mem]
    intro pos hmem
    have hlt := hold pos hmem
    rw [if_neg hno] at hlt
    exact Nat.not_lt_zero _ hlt
  · intro hnil
    refine ⟨fun hlt => absurd hlt (Nat.not_lt_zero _), fun pos hmem => ?_⟩
    rw [hnil] at hmem
    exact nomatch hmem

/-- A value that is marked invalid is no tombstone when it is added. -/
theorem Kept.not_tombstones_add (h : a.Kept) (T : ComponentClass α) (hvalue : ¬ value.Valid) :
    ∃ a' p, a.add T value = some (a', p) ∧ ¬ a'.Tombstones := by
  rcases add_cases T h.length_le (fun _ => h.wf.lt_of_mem) value with
    ⟨rest, pos, hrest, hadd⟩ | ⟨-, a', hadd, hdata, hnil, -⟩
  · refine ⟨_, _, hadd, fun h' => ?_⟩
    have hlt : pos < a.data.length := h.wf.lt_of_mem (by rw [hrest]; simp)
    have hin := (h'.mem_iff pos).mpr ⟨value, List.getElem?_set_self hlt, hvalue⟩
    have hnodup := h.tombstones.nodup
    rw [hrest] at hnodup
    exact (List.nodup_append.mp hnodup).2.2 pos hin pos (by simp) rfl
  · refine ⟨_, _, hadd, fun h' => ?_⟩
    have hin := (h'.mem_iff a.data.length).mpr
      ⟨value, by rw [hdata]; exact List.getElem?_concat_length, hvalue⟩
    rw [hnil] at hin
    exact nomatch hin

/-! ### Runs over several arrays -/

/-- An array, with the values that were added to it and not removed or cleared, by their
positions. -/
structure Held (α : Type) where
  array : StableArray α
  kept : Nat → Option (Component α)

/-- What is done to some arrays, which are told by their indices. -/
inductive StoreOp (α : Type)
  | new (dirty : Bool)
  | add (k : Nat) (value : Component α)
  | addElement (k i : Nat)
  | remove (k pos count : Nat)
  | resize (k n : Nat) (shrinkIfNecessary : Bool)
  | clear (k : Nat) (shrink : Bool)
  | swap (j k : Nat)
  | copy (k : Nat) (dirty : Bool)
  | assign (j k : Nat)
  | assignVector (k : Nat) (other : List (Component α))

/-- The state after `Add`. -/
def Held.added (e : Held α) (value : Component α) (r : StableArray α × SlotPtr) : Held α :=
  ⟨r.1, Function.update e.kept r.2.index (some value)⟩

/-- An operation on the arrays; an index that no array has is none. -/
def step (T : ComponentClass α) (s : List (Held α)) : StoreOp α → Option (List (Held α))
  | .new dirty => some (s ++ [⟨empty dirty, fun _ => none⟩])
  | .add k value => do
      let e ← s[k]?
      let r ← e.array.add T value
      some (s.set k (e.added value r))
  | .addElement k i => do
      let e ← s[k]?
      let value ← e.array.data[i]?
      let r ← e.array.addElement T i
      some (s.set k (e.added value r))
  | .remove k pos count => do
      let e ← s[k]?
      let a ← e.array.removeRange pos count
      some (s.set k ⟨a, fun i => if pos ≤ i ∧ i < pos + count then none else e.kept i⟩)
  | .resize k n shrinkIfNecessary => do
      let e ← s[k]?
      let a ← e.array.resize T n shrinkIfNecessary
      some (s.set k ⟨a, fun i => if i < n then e.kept i else none⟩)
  | .clear k shrink => do
      let e ← s[k]?
      let a ← e.array.clear T shrink
      some (s.set k ⟨a, fun _ => none⟩)
  | .swap j k => do
      let e ← s[j]?
      let f ← s[k]?
      let (a, b) := StableArray.swap e.array f.array
      some ((s.set j ⟨a, f.kept⟩).set k ⟨b, e.kept⟩)
  | .copy k dirty => do
      let e ← s[k]?
      let a ← StableArray.copy T e.array dirty
      some (s ++ [⟨a, e.kept⟩])
  | .assign j k => do
      let e ← s[j]?
      let f ← s[k]?
      let a ← e.array.operatorAssign T f.array.data
      some (s.set j ⟨a, f.kept⟩)
  | .assignVector k other => do
      let e ← s[k]?
      let a ← e.array.operatorAssign T other
      some (s.set k ⟨a, fun i => (other[i]?).filter fun c => decide c.Valid⟩)

/-- The array is kept, and the values are found at their positions. -/
structure Held.Good (e : Held α) : Prop where
  kept : e.array.Kept
  found : ∀ pos c, e.kept pos = some c → e.array.Live pos c

/-- All arrays are. -/
def Good (s : List (Held α)) : Prop := ∀ e ∈ s, e.Good

/-- Where an operation keeps the tombstones of the arrays it is done to. -/
def StoreOp.Keeps (T : ComponentClass α) (s : List (Held α)) : StoreOp α → Prop
  | .new _ => True
  | .add k value => k < s.length → value.Valid
  | .addElement k i => ∀ e c, s[k]? = some e → e.array.data[i]? = some c → c.Valid
  | .remove _ _ _ => True
  | .resize k n shrinkIfNecessary =>
      ∀ e, s[k]? = some e → e.array.ResizeKeeps T n shrinkIfNecessary
  | .clear k _ => ∀ e, s[k]? = some e → e.array.invalid = []
  | .swap j k => ∀ e f, s[j]? = some e → s[k]? = some f →
      ∀ pos, pos ∈ e.array.invalid ↔ pos ∈ f.array.invalid
  | .copy k _ => ∀ e, s[k]? = some e → e.array.invalid = []
  | .assign j k => ∀ e f, s[j]? = some e → s[k]? = some f →
      e.array.AssignKeeps T f.array.data
  | .assignVector k other => ∀ e, s[k]? = some e → e.array.AssignKeeps T other

/-! ### One step -/

variable {s s' : List (Held α)} {e e' : Held α} {k : Nat}

theorem Good.get (hs : Good s) (h : s[k]? = some e) : e.Good := hs e (List.mem_of_getElem? h)

theorem good_set_iff (hs : Good s) (h : s[k]? = some e) (e' : Held α) :
    Good (s.set k e') ↔ e'.Good := by
  have hlt : k < s.length := (List.getElem?_eq_some_iff.mp h).1
  constructor
  · exact fun hg => hg e' (List.mem_set hlt e')
  · intro he' f hf
    rcases List.mem_or_eq_of_mem_set hf with hf | rfl
    · exact hs f hf
    · exact he'

theorem good_swap_iff {f e' f' : Held α} {j : Nat} (hs : Good s) (hj : s[j]? = some e)
    (hk : s[k]? = some f) (hjk : j ≠ k) : Good ((s.set j e').set k f') ↔ e'.Good ∧ f'.Good := by
  have hk' : ∀ e', (s.set j e')[k]? = some f := by
    intro e'
    rw [List.getElem?_set_ne hjk]
    exact hk
  constructor
  · intro hg
    have hlt : j < s.length := (List.getElem?_eq_some_iff.mp hj).1
    refine ⟨hg.get (k := j) ?_, hg.get (k := k) ?_⟩
    · rw [List.getElem?_set_ne (Ne.symm hjk), List.getElem?_set_self hlt]
    · exact List.getElem?_set_self (List.getElem?_eq_some_iff.mp (hk' e')).1
  · rintro ⟨he', hf'⟩
    exact (good_set_iff ((good_set_iff hs hj e').mpr he') (hk' e') f').mpr hf'

theorem good_append_iff (hs : Good s) (e' : Held α) : Good (s ++ [e']) ↔ e'.Good := by
  constructor
  · exact fun hg => hg e' (by simp)
  · intro he' f hf
    rcases List.mem_append.mp hf with hf | hf
    · exact hs f hf
    · exact List.mem_singleton.mp hf ▸ he'

/-- With its values in place an array is good if its tombstones are right. -/
theorem Held.good_iff {kept : Nat → Option (Component α)} (hle : a.data.length ≤ a.numAllocated)
    (hfound : ∀ pos c, kept pos = some c → a.Live pos c) :
    Held.Good ⟨a, kept⟩ ↔ a.Tombstones :=
  ⟨fun h => h.kept.tombstones, fun h => ⟨h.kept hle, hfound⟩⟩

/-- The values stay in place where the elements do. -/
theorem Held.Good.found_of_data (he : e.Good) {pos : Nat} {c : Component α}
    (hdata : a.data[pos]? = e.array.data[pos]?) (hkept : e.kept pos = some c) : a.Live pos c := by
  obtain ⟨hc, hv⟩ := he.found pos c hkept
  exact ⟨by rw [hdata]; exact hc, hv⟩

theorem Held.Good.added (he : e.Good) {r : StableArray α × SlotPtr} (hkept : r.1.Kept)
    (hadded : Added e.array r.1 value r.2) : (e.added value r).Good where
  kept := hkept
  found := by
    intro pos c hc
    show r.1.Live pos c
    rw [hadded.live]
    by_cases hpos : pos = r.2.index
    · subst hpos
      rw [Held.added] at hc
      simp only [Function.update_self, Option.some.injEq] at hc
      exact Or.inr ⟨rfl, hc.symm⟩
    · rw [Held.added] at hc
      simp only [Function.update_of_ne hpos] at hc
      exact Or.inl (he.found pos c hc)

/-- `Add`, of any value. -/
theorem Held.Good.add_iff (he : e.Good) (T : ComponentClass α) (value : Component α) :
    ∃ r, e.array.add T value = some r ∧ ((e.added value r).Good ↔ value.Valid) := by
  by_cases hvalue : value.Valid
  · obtain ⟨a', p, hrun, hkept, hadded⟩ := he.kept.add T hvalue
    exact ⟨(a', p), hrun, iff_of_true (he.added hkept hadded) hvalue⟩
  · obtain ⟨a', p, hrun, hno⟩ := he.kept.not_tombstones_add T hvalue
    exact ⟨(a', p), hrun, iff_of_false (fun hg => hno hg.kept.tombstones) hvalue⟩

/-- `remove` takes the values of the slots it frees. -/
theorem Held.Good.removeRange (he : e.Good) {pos count : Nat} {a : StableArray α}
    (hrun : e.array.removeRange pos count = some a) :
    Held.Good ⟨a, fun i => if pos ≤ i ∧ i < pos + count then none else e.kept i⟩ := by
  obtain ⟨hkept, hlive⟩ := he.kept.removeRange hrun
  refine ⟨hkept, fun i c hc => ?_⟩
  dsimp only at hc
  split at hc
  · exact nomatch hc
  · rename_i hout
    exact (hlive i c).mpr ⟨he.found i c hc, hout⟩

theorem Held.Good.resize_iff (he : e.Good) (T : ComponentClass α) (n : Nat) (shrink : Bool) :
    ∃ a, e.array.resize T n shrink = some a ∧
      (Held.Good ⟨a, fun i => if i < n then e.kept i else none⟩ ↔
        e.array.ResizeKeeps T n shrink) := by
  obtain ⟨a, hrun, hdata, hinvalid, hle⟩ := resize_spec T he.kept.length_le n shrink
  refine ⟨a, hrun, ?_⟩
  rw [Held.good_iff hle ?_, he.kept.tombstones.resize_iff hdata hinvalid]
  -- a value below the new size stays where it is
  intro pos c hc
  split at hc
  · rename_i hpos
    have hlt := (List.getElem?_eq_some_iff.mp (he.found pos c hc).1).1
    refine he.found_of_data ?_ hc
    rw [hdata, List.getElem?_append_left (by rw [List.length_take]; omega),
      List.getElem?_take_of_lt hpos]
  · exact nomatch hc

theorem Held.Good.clear_iff (he : e.Good) (T : ComponentClass α) (shrink : Bool) :
    ∃ a, e.array.clear T shrink = some a ∧
      (Held.Good ⟨a, fun _ => none⟩ ↔ e.array.invalid = []) := by
  obtain ⟨a, hrun, hdata, hinvalid, hle⟩ := resize_spec T he.kept.length_le 0 shrink
  refine ⟨a, hrun, ?_⟩
  rw [Held.good_iff hle (fun _ _ hc => by cases hc),
    he.kept.tombstones.resize_iff hdata hinvalid, StableArray.clear_iff]

theorem Held.Good.copy_iff (he : e.Good) (T : ComponentClass α) (dirty : Bool) :
    ∃ a, StableArray.copy T e.array dirty = some a ∧
      (Held.Good ⟨a, e.kept⟩ ↔ e.array.invalid = []) := by
  obtain ⟨a, hrun, hdata, hinvalid, hle⟩ := copy_spec T e.array dirty
  refine ⟨a, hrun, ?_⟩
  rw [Held.good_iff hle fun _ _ => he.found_of_data (by rw [hdata]),
    he.kept.tombstones.copy_iff hdata hinvalid]

/-- Both assignments, with values of what is assigned. -/
theorem Held.Good.assign_iff (he : e.Good) (T : ComponentClass α) (other : List (Component α))
    {kept : Nat → Option (Component α)}
    (hkept : ∀ pos c, kept pos = some c → other[pos]? = some c ∧ c.Valid) :
    ∃ a, e.array.operatorAssign T other = some a ∧
      (Held.Good ⟨a, kept⟩ ↔ e.array.AssignKeeps T other) := by
  obtain ⟨a, hrun, hdata, hinvalid, hle⟩ := operatorAssign_spec T he.kept.length_le other
  refine ⟨a, hrun, ?_⟩
  rw [Held.good_iff hle ?_, he.kept.tombstones.assign_iff hdata hinvalid]
  intro pos c hc
  rw [Live, hdata]
  exact hkept pos c hc

/-- Two arrays are good after `swap` if their tombstones stand at the same positions. -/
theorem Good.swap_iff {f : Held α} {j : Nat} (hs : Good s) (hj : s[j]? = some e)
    (hk : s[k]? = some f) :
    Good ((s.set j ⟨(StableArray.swap e.array f.array).1, f.kept⟩).set k
        ⟨(StableArray.swap e.array f.array).2, e.kept⟩) ↔
      ∀ pos, pos ∈ e.array.invalid ↔ pos ∈ f.array.invalid := by
  have he := hs.get hj
  have hf := hs.get hk
  by_cases hjk : j = k
  · -- an array that is swapped with itself
    subst hjk
    obtain rfl := Option.some.inj (hj.symm.trans hk)
    refine iff_of_true ?_ fun _ => Iff.rfl
    rw [List.set_set, good_set_iff hs hj]
    exact he
  · rw [good_swap_iff hs hj hk hjk, ← he.kept.tombstones.swap_iff hf.kept.tombstones]
    refine and_congr (Held.good_iff hf.kept.length_le ?_) (Held.good_iff he.kept.length_le ?_)
    · exact fun pos c => hf.found_of_data rfl
    · exact fun pos c => he.found_of_data rfl

/-- What is done to the array at `k` is decided by what it does to that array; there is no
result, and no condition, if there is no array. -/
theorem good_bind_iff (k : Nat) {f : Held α → Option (List (Held α))} {P : Held α → Prop}
    (hf : ∀ e, s[k]? = some e → (f e = none ∧ P e) ∨ ∃ s', f e = some s' ∧ (Good s' ↔ P e)) :
    ((s[k]?).bind f = none ∧ ∀ e, s[k]? = some e → P e)
      ∨ ∃ s', (s[k]?).bind f = some s' ∧ (Good s' ↔ ∀ e, s[k]? = some e → P e) := by
  rcases hk : s[k]? with - | e
  · apply Or.inl
    refine ⟨rfl, ?_⟩
    intro e he
    cases he
  · have hiff : (∀ e', some e = some e' → P e') ↔ P e := by simp
    rw [Option.bind_some, hiff]
    exact hf e hk

theorem good_bind_iff_of_some (k : Nat) {f : Held α → Option (List (Held α))} {P : Held α → Prop}
    (hf : ∀ e, s[k]? = some e → ∃ s', f e = some s' ∧ (Good s' ↔ P e)) :
    ((s[k]?).bind f = none ∧ ∀ e, s[k]? = some e → P e)
      ∨ ∃ s', (s[k]?).bind f = some s' ∧ (Good s' ↔ ∀ e, s[k]? = some e → P e) :=
  good_bind_iff k fun e hk => Or.inr (hf e hk)

/-- The same for two arrays. -/
theorem good_bind₂_iff (j k : Nat) {f : Held α → Held α → Option (List (Held α))}
    {P : Held α → Held α → Prop}
    (hf : ∀ e e', s[j]? = some e → s[k]? = some e' → ∃ s', f e e' = some s' ∧ (Good s' ↔ P e e')) :
    (((s[j]?).bind fun e => (s[k]?).bind (f e)) = none ∧
        ∀ e e', s[j]? = some e → s[k]? = some e' → P e e')
      ∨ ∃ s', ((s[j]?).bind fun e => (s[k]?).bind (f e)) = some s' ∧
        (Good s' ↔ ∀ e e', s[j]? = some e → s[k]? = some e' → P e e') := by
  have hswap : (∀ e e', s[j]? = some e → s[k]? = some e' → P e e')
      ↔ ∀ e, s[j]? = some e → ∀ e', s[k]? = some e' → P e e' := by
    constructor
    · intro h e he e' he'
      exact h e e' he he'
    · intro h e e' he he'
      exact h e he e' he'
  rw [hswap]
  apply good_bind_iff j
  intro e he
  apply good_bind_iff_of_some k
  intro e' he'
  exact hf e e' he he'

/-- The values of a vector that are marked invalid are not kept. -/
theorem of_filter_valid {other : List (Component α)} {pos : Nat} {c : Component α}
    (hc : ((other[pos]?).filter fun c => decide c.Valid) = some c) :
    other[pos]? = some c ∧ c.Valid := by
  obtain ⟨hget, hv⟩ := Option.filter_eq_some_iff.mp hc
  exact ⟨hget, of_decide_eq_true hv⟩

/-- One operation: it has no result for arrays that there are not, and otherwise leaves
the arrays good exactly under its condition. -/
theorem step_good_iff (T : ComponentClass α) (hs : Good s) (op : StoreOp α) :
    (step T s op = none ∧ op.Keeps T s)
      ∨ ∃ s', step T s op = some s' ∧ (Good s' ↔ op.Keeps T s) := by
  cases op with
  | new dirty =>
      refine Or.inr ⟨_, rfl, ?_⟩
      rw [good_append_iff hs]
      refine iff_of_true ⟨kept_empty dirty, ?_⟩ trivial
      exact fun pos c hc => nomatch hc
  | add k value =>
      -- the condition does not name the array
      have hkeeps : (StoreOp.add k value).Keeps T s ↔ ∀ e, s[k]? = some e → value.Valid := by
        constructor
        · intro h e he
          exact h (List.getElem?_eq_some_iff.mp he).1
        · intro h hlt
          exact h _ (List.getElem?_eq_getElem hlt)
      rw [hkeeps]
      apply good_bind_iff_of_some k
      intro e hk
      obtain ⟨r, hrun, hiff⟩ := (hs.get hk).add_iff T value
      refine ⟨s.set k (e.added value r), ?_, (good_set_iff hs hk _).trans hiff⟩
      simp only [Option.bind_eq_bind, hrun, Option.bind_some]
  | addElement k i =>
      have hkeeps : (StoreOp.addElement k i).Keeps T s
          ↔ ∀ e, s[k]? = some e → ∀ c, e.array.data[i]? = some c → c.Valid := by
        constructor
        · intro h e he c hc
          exact h e c he hc
        · intro h e c he hc
          exact h e he c hc
      rw [hkeeps]
      apply good_bind_iff k
      intro e hk
      rcases hi : e.array.data[i]? with - | c
      · refine Or.inl ⟨rfl, ?_⟩
        intro c hc
        cases hc
      · obtain ⟨r, hrun, hiff⟩ := (hs.get hk).add_iff T c
        refine Or.inr ⟨s.set k (e.added c r), ?_, ?_⟩
        · simp only [Option.bind_eq_bind, Option.bind_some, addElement_eq, hi, hrun]
        · rw [good_set_iff hs hk, hiff]
          simp
  | remove k pos count =>
      rcases hk : s[k]? with - | e
      · exact Or.inl ⟨by rw [step, hk]; rfl, trivial⟩
      · rcases hrun : e.array.removeRange pos count with - | a
        · refine Or.inl ⟨?_, trivial⟩
          simp only [step, hk, Option.bind_eq_bind, Option.bind_some, hrun, Option.bind_none]
        · refine Or.inr ⟨s.set k ⟨a, fun i => if pos ≤ i ∧ i < pos + count then none else e.kept i⟩,
            ?_, ?_⟩
          · simp only [step, hk, Option.bind_eq_bind, Option.bind_some, hrun]
          · rw [good_set_iff hs hk]
            exact iff_of_true ((hs.get hk).removeRange hrun) trivial
  | resize k n shrinkIfNecessary =>
      apply good_bind_iff_of_some k
      intro e hk
      obtain ⟨a, hrun, hiff⟩ := (hs.get hk).resize_iff T n shrinkIfNecessary
      refine ⟨_, ?_, (good_set_iff hs hk _).trans hiff⟩
      simp only [Option.bind_eq_bind, hrun, Option.bind_some]
  | clear k shrink =>
      apply good_bind_iff_of_some k
      intro e hk
      obtain ⟨a, hrun, hiff⟩ := (hs.get hk).clear_iff T shrink
      refine ⟨_, ?_, (good_set_iff hs hk _).trans hiff⟩
      simp only [Option.bind_eq_bind, hrun, Option.bind_some]
  | swap j k =>
      apply good_bind₂_iff j k
      intro e f hj hk
      exact ⟨_, rfl, hs.swap_iff hj hk⟩
  | copy k dirty =>
      apply good_bind_iff_of_some k
      intro e hk
      obtain ⟨a, hrun, hiff⟩ := (hs.get hk).copy_iff T dirty
      refine ⟨_, ?_, (good_append_iff hs _).trans hiff⟩
      simp only [Option.bind_eq_bind, hrun, Option.bind_some]
  | assign j k =>
      apply good_bind₂_iff j k
      intro e f hj hk
      obtain ⟨a, hrun, hiff⟩ := (hs.get hj).assign_iff T f.array.data (hs.get hk).found
      refine ⟨_, ?_, (good_set_iff hs hj _).trans hiff⟩
      simp only [Option.bind_eq_bind, hrun, Option.bind_some]
  | assignVector k other =>
      apply good_bind_iff_of_some k
      intro e hk
      obtain ⟨a, hrun, hiff⟩ := (hs.get hk).assign_iff T other fun pos c => of_filter_valid
      refine ⟨_, ?_, (good_set_iff hs hk _).trans hiff⟩
      simp only [Option.bind_eq_bind, hrun, Option.bind_some]

/-! ### Runs -/

/-- **Exactness of the bookkeeping.**  Over a run, in every state every array has the
tombstones of its elements, the right size, and the values added to it and not removed
or cleared, exactly when each operation meets its condition. -/
theorem tombstones_kept_iff (T : ComponentClass α) (hs : Good s) (ops : List (StoreOp α)) :
    (∀ pre s', pre <+: ops → pre.foldlM (step T) s = some s' → Good s') ↔
      ∀ pre op s', pre ++ [op] <+: ops → pre.foldlM (step T) s = some s' → op.Keeps T s' := by
  refine Run.forall_prefix_iff (step T) Good Good (fun _ => True) (fun s op => op.Keeps T s)
    (fun _ h => h) ?_ ?_ hs fun _ _ => trivial
  · intro s op s' hs _ hop e
    rcases step_good_iff T hs op with ⟨hnone, -⟩ | ⟨s'', e', hiff⟩
    · rw [hnone] at e
      exact nomatch e
    · obtain rfl := Option.some.inj (e.symm.trans e')
      exact hiff.mpr hop
  · intro s op hs _ hno
    rcases step_good_iff T hs op with ⟨-, hop⟩ | ⟨s', e', hiff⟩
    · exact absurd hop hno
    · exact ⟨s', e', fun hg => hno (hiff.mp hg)⟩

/-- An array of one valid component and one that was removed. -/
def withTombstone : StableArray Unit :=
  { allocation := 1
    data := [⟨{ id := 1, flags := 3 }, ()⟩, ⟨.new 2, ()⟩]
    invalid := [0]
    numAllocated := 32
    dirty := true }

theorem tombstones_withTombstone : withTombstone.Tombstones := by
  refine ⟨by decide, fun pos => ?_⟩
  rcases pos with - | - | pos
  · exact iff_of_true (by decide) ⟨_, rfl, by decide⟩
  · refine iff_of_false (by decide) ?_
    rintro ⟨c, hc, hno⟩
    obtain rfl := Option.some.inj hc
    exact hno rfl
  · refine iff_of_false (by simp [withTombstone]) ?_
    rintro ⟨c, hc, -⟩
    cases hc

/-- It and an empty array, with the component that was added and not removed. -/
def besideEmpty : List (Held Unit) :=
  [⟨withTombstone, fun pos => if pos = 1 then some ⟨.new 2, ()⟩ else none⟩,
    ⟨empty true, fun _ => none⟩]

theorem good_besideEmpty : Good besideEmpty := by
  intro e he
  rcases List.mem_pair.mp he with rfl | rfl
  · refine ⟨⟨tombstones_withTombstone, by decide, by decide⟩, fun pos c hc => ?_⟩
    obtain ⟨rfl, hc⟩ := Option.ite_none_right_eq_some.mp hc
    exact ⟨hc, by rw [← Option.some.inj hc]; decide⟩
  · exact ⟨kept_empty true, fun pos c hc => by cases hc⟩

/-- The array is cut to the component that was removed, swapped with the empty one, and
cleared. -/
theorem tombstones_kept_iff_of_swap :
    (∀ pre s', pre <+: [StoreOp.resize 0 1 true, .swap 0 1, .clear 1 true] →
        pre.foldlM (step ⟨8, ⟨.new 0, ()⟩⟩) besideEmpty = some s' → Good s') ↔
      ∀ pre op s', pre ++ [op] <+: [StoreOp.resize 0 1 true, .swap 0 1, .clear 1 true] →
        pre.foldlM (step ⟨8, ⟨.new 0, ()⟩⟩) besideEmpty = some s' →
          op.Keeps ⟨8, ⟨.new 0, ()⟩⟩ s' :=
  tombstones_kept_iff ⟨8, ⟨.new 0, ()⟩⟩ good_besideEmpty [.resize 0 1 true, .swap 0 1, .clear 1 true]

/-- After `clear` it has the size -1, and a copy of it has the removed component for a
valid one. -/
theorem clear_leaves_tombstone :
    withTombstone.Tombstones
      ∧ (∃ a', withTombstone.clear ⟨8, ⟨.new 0, ()⟩⟩ true = some a' ∧ a'.data = []
        ∧ a'.size = -1 ∧ ¬ a'.Tombstones)
      ∧ ∃ a', copy ⟨8, ⟨.new 0, ()⟩⟩ withTombstone true = some a' ∧ a'.size = 2
        ∧ a'.countValid = 1 ∧ ¬ a'.Tombstones := by
  refine ⟨tombstones_withTombstone, ?_, ?_⟩
  · obtain ⟨a', hrun, hdata, hinvalid, -⟩ :=
      resize_spec ⟨8, ⟨.new 0, ()⟩⟩ (a := withTombstone) (by decide) 0 true
    have hinvalid : a'.invalid = [0] := hinvalid
    have hdata : a'.data = [] := hdata
    refine ⟨a', hrun, hdata, ?_, fun h => ?_⟩
    · rw [size, hdata, hinvalid]
      decide
    · obtain ⟨c, hc, -⟩ := (h.mem_iff 0).mp (by rw [hinvalid]; decide)
      rw [hdata] at hc
      cases hc
  · obtain ⟨a', hrun, hdata, hinvalid, -⟩ := copy_spec ⟨8, ⟨.new 0, ()⟩⟩ withTombstone true
    refine ⟨a', hrun, ?_, ?_, fun h => ?_⟩
    · rw [size, hdata, hinvalid]
      decide
    · rw [countValid, hdata]
      decide
    · have hnil := (tombstones_withTombstone.copy_iff hdata hinvalid).mp h
      cases hnil

end StableArray

end PCGForUnity
