/-
PCGForUnity/ECS/StableArray.lean

The array a system keeps its components in (`StableArray.h`).  Removing only marks a slot
invalid, and adding fills the slot given up last, so that the other components stay where
they are; only growing moves the array to a new allocation.

Design.  A pointer is an allocation, told by how many were made before it, and a position, so
that a pointer to a slot that moved differs from every pointer to a slot there is.  Placing an
element behind the allocation has no defined result and is `none`; the lemmas on `Add` show
that this does not happen.

`_invalid` is a stack of positions, the last one on top.  Positions and sizes are unbounded,
and the growth factor is the number that the `float` of the source is.

`WF` is what a system relies on: every slot is allocated, and the slots in `_invalid` are
given up, each once.  `SlotReuse` and `StableArrayCopies` have the other functions.
-/
import PCGForUnity.ECS.IComponent
import Mathlib.Data.List.Nodup

namespace PCGForUnity

/-- The address of a slot. -/
structure SlotPtr where
  allocation : Nat
  index : Nat
deriving DecidableEq, Repr

/-- The members of `StableArray<T>`; `data` are the `num` elements constructed in
the current allocation. -/
structure StableArray (α : Type) where
  allocation : Nat
  data : List (Component α)
  invalid : List Nat
  numAllocated : Nat
  dirty : Bool

namespace StableArray

variable {α : Type}

/-! ### The array as coded -/

/-- The constructor, with the value it leaves unset. -/
def empty (dirty : Bool) : StableArray α :=
  { allocation := 0, data := [], invalid := [], numAllocated := 0, dirty }

/-- The move of `resize` to a new allocation, with the elements that there were. -/
def realloc (a : StableArray α) (oldNum : Nat) : StableArray α :=
  { a with
    allocation := a.allocation + 1
    data := a.data.take (min oldNum a.numAllocated)
    invalid := []
    dirty := true }

/-- `MIN_ELEMENTS` -/
def minElements : Nat := 32

/-- `MIN_BYTES` -/
def minBytes : Nat := 32

/-- `(size_t)(numAllocated * growFactor)`.  The last factor is the `float` 1.2. -/
def grown (sizeofT numAllocated : Nat) : Nat :=
  let oldSizeBytes := numAllocated * sizeofT
  if oldSizeBytes > 10000000 then numAllocated * 10066330 / 8388608
  else if oldSizeBytes > 400000 then numAllocated * 3 / 2
  else if oldSizeBytes > 64000 then numAllocated * 2
  else numAllocated * 3

/-- The new `numAllocated` when `num` elements do not fit. -/
def newAllocated (sizeofT numAllocated num : Nat) : Nat :=
  let minSize := max minElements (minBytes / sizeofT)
  if numAllocated = 0 then num
  else if num < minSize then minSize
  else max ((num - numAllocated) + grown sizeofT numAllocated) minSize

/-- `resize`; with `MIN_ELEMENTS` as it is the array is never deallocated. -/
def resize (T : ComponentClass α) (a : StableArray α) (n : Nat) (shrinkIfNecessary : Bool) :
    Option (StableArray α) :=
  if a.data.length = n then some a
  else
    let oldNum := a.data.length
    let a := { a with data := a.data.take n, dirty := a.dirty || decide (oldNum > n) }
    let minSize := max minElements (minBytes / T.sizeofT)
    let a :=
      if n > a.numAllocated then
        realloc { a with numAllocated := newAllocated T.sizeofT a.numAllocated n } oldNum
      else if n ≤ a.numAllocated / 3 ∧ shrinkIfNecessary ∧ n > minSize then
        a.realloc (min n oldNum)
      else a
    if n ≤ a.numAllocated then
      some { a with data := a.data ++ List.replicate (n - oldNum) T.new }
    else none

/-- `flush` -/
def flush (a : StableArray α) : StableArray α := { a with dirty := false }

/-- `remove` of the element at a position. -/
def remove (a : StableArray α) (pos : Nat) : Option (StableArray α) :=
  (a.data[pos]?).map fun element =>
    if !element.getInvalid then
      { a with data := a.data.set pos (element.setInvalid true), invalid := a.invalid ++ [pos] }
    else a

/-- `data[pos] = value`. -/
def assign (a : StableArray α) (pos : Nat) (value : Component α) :
    Option (StableArray α × SlotPtr) :=
  if pos < a.data.length then
    some ({ a with data := a.data.set pos value }, ⟨a.allocation, pos⟩)
  else none

/-- `Add`.  A value that is an element itself is copied first, so it need not be
told from another one. -/
def add (T : ComponentClass α) (a : StableArray α) (value : Component α) :
    Option (StableArray α × SlotPtr) :=
  match a.invalid.getLast? with
  | some pos => { a with invalid := a.invalid.dropLast }.assign pos value
  | none =>
      if a.data.length < a.numAllocated then
        some ({ a with data := a.data ++ [value] }, ⟨a.allocation, a.data.length⟩)
      else do
        let a ← a.resize T (a.data.length + 1) false
        a.assign (a.data.length - 1) value

/-! ### What an array keeps -/

/-- Every slot is allocated, and the slots in `_invalid` are given up, each once. -/
structure WF (a : StableArray α) : Prop where
  length_le : a.data.length ≤ a.numAllocated
  invalid : ∀ pos ∈ a.invalid, ∃ c, a.data[pos]? = some c ∧ ¬ c.Valid
  nodup : a.invalid.Nodup

/-- The slot at a position holds a valid component. -/
def Live (a : StableArray α) (pos : Nat) (c : Component α) : Prop :=
  a.data[pos]? = some c ∧ c.Valid

variable {T : ComponentClass α} {a a' : StableArray α} {c value : Component α} {pos i : Nat}

theorem wf_empty (dirty : Bool) : (empty dirty : StableArray α).WF :=
  ⟨Nat.le_refl _, by simp [empty], List.nodup_nil⟩

theorem le_grown (sizeofT n : Nat) : n ≤ grown sizeofT n := by
  simp only [grown]
  split
  · rw [Nat.le_div_iff_mul_le (by decide)]
    omega
  · split
    · omega
    · split <;> omega

/-- Growing makes room. -/
theorem le_newAllocated (sizeofT : Nat) {numAllocated num : Nat} (h : numAllocated < num) :
    num ≤ newAllocated sizeofT numAllocated num := by
  have hgrown := le_grown sizeofT numAllocated
  simp only [newAllocated]
  split
  · exact Nat.le_refl _
  · split
    · omega
    · omega

/-- What `remove` does to a slot in use. -/
theorem WF.remove (h : a.WF) (hlive : a.Live pos c) :
    ∃ a', a.remove pos = some a' ∧ a'.WF ∧ a'.allocation = a.allocation ∧
      ∀ i d, a'.Live i d ↔ a.Live i d ∧ i ≠ pos := by
  obtain ⟨hget, hvalid⟩ := hlive
  have hlt : pos < a.data.length := (List.getElem?_eq_some_iff.mp hget).1
  have hinvalid : ¬ (c.setInvalid true).Valid := by
    intro hv
    have := IComponent.getInvalid_setInvalid c.toIComponent true
    rw [Component.Valid, Component.setInvalid, this] at hv
    cases hv
  -- a slot is given back once only, for it is no longer valid then
  have hnew : pos ∉ a.invalid := by
    intro hmem
    obtain ⟨d, hd, hno⟩ := h.invalid pos hmem
    rw [hget] at hd
    exact hno (Option.some.inj hd ▸ hvalid)
  have hneg : (!c.getInvalid) = true := by
    rw [show c.getInvalid = false from hvalid]
    rfl
  refine ⟨{ a with data := a.data.set pos (c.setInvalid true), invalid := a.invalid ++ [pos] },
    ?_, ⟨?_, ?_, ?_⟩, rfl, ?_⟩
  · rw [StableArray.remove, hget, Option.map_some, if_pos hneg]
  · show (a.data.set _ _).length ≤ _
    rw [List.length_set]
    exact h.length_le
  · intro i hmem
    rcases List.mem_append.mp hmem with hmem | hmem
    · have hne : pos ≠ i := fun e => hnew (e ▸ hmem)
      obtain ⟨d, hd, hno⟩ := h.invalid i hmem
      exact ⟨d, by rw [List.getElem?_set_ne hne]; exact hd, hno⟩
    · obtain rfl := List.mem_singleton.mp hmem
      exact ⟨_, List.getElem?_set_self hlt, hinvalid⟩
  · rw [← List.concat_eq_append]
    exact h.nodup.concat hnew
  · intro i d
    by_cases hi : i = pos
    · subst hi
      refine iff_of_false ?_ fun hd => hd.2 rfl
      rintro ⟨hd, hv⟩
      rw [List.getElem?_set_self hlt] at hd
      exact hinvalid (Option.some.inj hd ▸ hv)
    · rw [Live, List.getElem?_set_ne (Ne.symm hi)]
      exact (and_iff_left hi).symm

/-- Placing a value into an allocated slot not in use. -/
theorem live_set {data : List (Component α)} (hlt : pos < data.length) (hvalue : value.Valid)
    (hfree : ∀ d, data[pos]? = some d → ¬ d.Valid) (i : Nat) (d : Component α) :
    (data.set pos value)[i]? = some d ∧ d.Valid ↔
      (data[i]? = some d ∧ d.Valid) ∨ i = pos ∧ d = value := by
  by_cases hi : i = pos
  · subst hi
    rw [List.getElem?_set_self hlt]
    constructor
    · rintro ⟨hd, -⟩
      exact Or.inr ⟨rfl, (Option.some.inj hd).symm⟩
    · rintro (⟨hd, hv⟩ | ⟨-, rfl⟩)
      · exact absurd hv (hfree d hd)
      · exact ⟨rfl, hvalue⟩
  · rw [List.getElem?_set_ne (Ne.symm hi)]
    exact (or_iff_left fun hd => hi hd.1).symm

theorem live_append {data : List (Component α)} (hvalue : value.Valid) (i : Nat)
    (d : Component α) :
    (data ++ [value])[i]? = some d ∧ d.Valid ↔
      (data[i]? = some d ∧ d.Valid) ∨ i = data.length ∧ d = value := by
  rcases Nat.lt_trichotomy i data.length with hi | rfl | hi
  · rw [List.getElem?_append_left hi]
    exact (or_iff_left fun hd => absurd hd.1 (Nat.ne_of_lt hi)).symm
  · rw [List.getElem?_concat_length, List.getElem?_eq_none (Nat.le_refl _)]
    constructor
    · rintro ⟨hd, -⟩
      exact Or.inr ⟨rfl, (Option.some.inj hd).symm⟩
    · rintro (⟨hd, -⟩ | ⟨-, rfl⟩)
      · cases hd
      · exact ⟨rfl, hvalue⟩
  · rw [List.getElem?_eq_none (by rw [List.length_append]; exact hi), List.getElem?_eq_none (Nat.le_of_lt hi)]
    refine iff_of_false (fun hd => by cases hd.1) ?_
    rintro (⟨hd, -⟩ | ⟨rfl, -⟩)
    · cases hd
    · exact absurd hi (Nat.lt_irrefl _)

/-- A full array grows by one element. -/
theorem resize_of_full (T : ComponentClass α) (hfull : a.data.length = a.numAllocated) :
    ∃ m, a.data.length + 1 ≤ m ∧ a.resize T (a.data.length + 1) false
      = some ⟨a.allocation + 1, a.data ++ [T.new], [], m, true⟩ := by
  have hroom := le_newAllocated T.sizeofT (Nat.lt_succ_of_le (Nat.le_of_eq hfull.symm))
  refine ⟨_, hroom, ?_⟩
  have hne : ¬ a.data.length = a.data.length + 1 := (Nat.succ_ne_self _).symm
  have hgrow : a.data.length + 1 > a.numAllocated := by omega
  have hmin : min a.data.length (newAllocated T.sizeofT a.numAllocated (a.data.length + 1))
      = a.data.length := Nat.min_eq_left (Nat.le_of_succ_le hroom)
  simp only [resize, if_neg hne, if_pos hgrow, realloc, hmin, List.take_length,
    List.take_of_length_le (Nat.le_succ a.data.length), if_pos hroom, Nat.add_sub_cancel_left,
    List.replicate_one]

/-- The ways of `Add`: it uses the slot given up last again, or places the value behind
the elements, in the allocation there is or in a new one. -/
theorem add_cases (T : ComponentClass α) (hle : a.data.length ≤ a.numAllocated)
    (hinvalid : ∀ pos ∈ a.invalid, pos < a.data.length) (value : Component α) :
    (∃ rest pos, a.invalid = rest ++ [pos] ∧ a.add T value
        = some ({ a with invalid := rest, data := a.data.set pos value }, ⟨a.allocation, pos⟩)) ∨
      a.invalid = [] ∧ ∃ a', a.add T value = some (a', ⟨a'.allocation, a.data.length⟩) ∧
        a'.data = a.data ++ [value] ∧ a'.invalid = [] ∧ a'.data.length ≤ a'.numAllocated := by
  cases hlast : a.invalid.getLast? with
  | some pos =>
      obtain ⟨rest, hrest⟩ := List.getLast?_eq_some_iff.mp hlast
      have hlt : pos < a.data.length := hinvalid pos (by rw [hrest]; simp)
      refine Or.inl ⟨rest, pos, hrest, ?_⟩
      simp only [StableArray.add, hlast]
      rw [hrest, List.dropLast_concat, assign, if_pos hlt]
  | none =>
      refine Or.inr ⟨List.getLast?_eq_none_iff.mp hlast, ?_⟩
      by_cases hroom : a.data.length < a.numAllocated
      · refine ⟨{ a with data := a.data ++ [value] }, ?_, rfl,
          List.getLast?_eq_none_iff.mp hlast, ?_⟩
        · simp only [StableArray.add, hlast, if_pos hroom]
        · show (a.data ++ [value]).length ≤ _
          rw [List.length_append]
          exact hroom
      · have hfull : a.data.length = a.numAllocated := Nat.le_antisymm hle (Nat.not_lt.mp hroom)
        obtain ⟨m, hm, hresize⟩ := resize_of_full T hfull
        -- the array moves: the pointers given out before are of an older allocation
        have hset : (a.data ++ [T.new]).set a.data.length value = a.data ++ [value] := by
          rw [List.set_append_right _ _ (Nat.le_refl _), Nat.sub_self]
          rfl
        refine ⟨⟨a.allocation + 1, a.data ++ [value], [], m, true⟩, ?_, rfl, rfl, ?_⟩
        · simp only [StableArray.add, hlast, if_neg hroom, hresize, Option.bind_eq_bind,
            Option.bind_some, assign, List.length_append, List.length_singleton,
            Nat.add_sub_cancel, if_pos (Nat.lt_succ_self _), hset]
        · show (a.data ++ [value]).length ≤ m
          rw [List.length_append]
          exact hm

theorem WF.lt_of_mem (h : a.WF) (hmem : pos ∈ a.invalid) : pos < a.data.length := by
  obtain ⟨d, hd, -⟩ := h.invalid pos hmem
  exact (List.getElem?_eq_some_iff.mp hd).1

/-- What `Add` does: the value stands in a slot that was not in use, and the
slots in use keep their components. -/
theorem WF.add (T : ComponentClass α) (h : a.WF) (hvalue : value.Valid) :
    ∃ a' p, a.add T value = some (a', p) ∧ a'.WF ∧ p.allocation = a'.allocation ∧
      (∀ i d, a'.Live i d ↔ a.Live i d ∨ i = p.index ∧ d = value) ∧
      ∀ d, ¬ a.Live p.index d := by
  rcases add_cases T h.length_le (fun _ => h.lt_of_mem) value with
    ⟨rest, pos, hrest, hadd⟩ | ⟨-, a', hadd, hdata, hnil, hle⟩
  · have hmem : pos ∈ a.invalid := by rw [hrest]; simp
    have hfree : ∀ d, a.data[pos]? = some d → ¬ d.Valid := by
      intro d' hd'
      obtain ⟨d, hd, hno⟩ := h.invalid pos hmem
      rw [hd] at hd'
      exact Option.some.inj hd' ▸ hno
    have hnodup := h.nodup
    rw [hrest] at hnodup
    obtain ⟨hnodup', -, hdisjoint⟩ := List.nodup_append.mp hnodup
    refine ⟨_, _, hadd, ⟨?_, ?_, hnodup'⟩, rfl, live_set (h.lt_of_mem hmem) hvalue hfree,
      fun d hlive => hfree d hlive.1 hlive.2⟩
    · show (a.data.set _ _).length ≤ _
      rw [List.length_set]
      exact h.length_le
    · intro i hi
      obtain ⟨d, hd, hno⟩ := h.invalid i (by rw [hrest]; simp [hi])
      have hne : pos ≠ i := fun e => hdisjoint i hi pos (by simp) e.symm
      exact ⟨d, by rw [List.getElem?_set_ne hne]; exact hd, hno⟩
  · refine ⟨a', _, hadd, ⟨hle, by simp [hnil], by simp [hnil]⟩, rfl, ?_, ?_⟩
    · intro i d
      rw [Live, hdata]
      exact live_append hvalue i d
    · rintro d ⟨hd, -⟩
      rw [List.getElem?_eq_none (Nat.le_refl _)] at hd
      cases hd

end StableArray

end PCGForUnity
