/-
PCGForUnity/ECS/SlotReuse.lean

`Add` and `remove` of a `StableArray`, over whole runs (`slot_reuse_sound`).  Whatever they have
made of an array, from an empty one on,

* the positions in `_invalid` are those of the elements marked invalid, each once;
* the next operation has a result, and keeps every element in use where it is, but those it
  removes;
* `Add` puts its value into a slot that no element in use has.

Design.  `_invalid` is a second view of the flags in the elements, and `Tombstones` says that
the two agree.  Then growing, which clears `_invalid`, loses nothing, for an array grows in
`Add` only when `_invalid` is empty.  `Does` has the effect of an operation on the elements in
use alone, without a word on `_invalid`.

A value that is an element of the array is read where `Add` reads it (`addElement`), so that the
copy that is made before the array moves is seen to be needed.
-/
import PCGForUnity.ECS.StableArray
import PCGForUnity.Network.MessageBuffer
import Mathlib.Data.List.Induction

namespace PCGForUnity

namespace StableArray

variable {α : Type}

/-! ### The other functions as coded -/

/-- `static_cast<int>` of a `size_t`. -/
def toInt (n : Nat) : Int := Int.bmod n (2 ^ 32)

/-- `size`. -/
def size (a : StableArray α) : Int := toInt (sizeSub a.data.length a.invalid.length)

/-- `remove` of `count` elements from a position on. -/
def removeRange (a : StableArray α) (pos : Nat) : Nat → Option (StableArray α)
  | 0 => some a
  | count + 1 => do
      let a ← a.remove pos
      a.removeRange (pos + 1) count

/-- `Add` of a reference to the element `i` of the array itself. -/
def addElement (T : ComponentClass α) (a : StableArray α) (i : Nat) :
    Option (StableArray α × SlotPtr) :=
  match a.invalid.getLast? with
  | some pos => do
      let a := { a with invalid := a.invalid.dropLast }
      let value ← a.data[i]?
      a.assign pos value
  | none =>
      if a.data.length < a.numAllocated then do
        let value ← a.data[i]?
        some ({ a with data := a.data ++ [value] }, ⟨a.allocation, a.data.length⟩)
      else do
        -- `inArray` holds, and the value is copied before the array moves
        let tmp ← a.data[i]?
        a.add T tmp

/-- What the systems do with an array. -/
inductive ReuseOp (α : Type)
  | add (value : Component α)
  | addElement (i : Nat)
  | remove (pos count : Nat)

/-- An operation, with the slot that `Add` returns. -/
def reuse (T : ComponentClass α) (a : StableArray α) :
    ReuseOp α → Option (StableArray α × Option SlotPtr)
  | .add value => (a.add T value).map fun (a, p) => (a, some p)
  | .addElement i => (a.addElement T i).map fun (a, p) => (a, some p)
  | .remove pos count => (a.removeRange pos count).map fun a => (a, none)

/-! ### What is asked of the array -/

/-- `_invalid` has the positions of the elements marked invalid, each once. -/
structure Tombstones (a : StableArray α) : Prop where
  nodup : a.invalid.Nodup
  mem_iff : ∀ pos, pos ∈ a.invalid ↔ ∃ c, a.data[pos]? = some c ∧ ¬ c.Valid

/-- The number of elements not marked invalid. -/
def countValid (a : StableArray α) : Nat := a.data.countP fun c => decide c.Valid

/-- `Tombstones`, with a place for every slot and the right size. -/
structure Kept (a : StableArray α) : Prop where
  tombstones : a.Tombstones
  length_le : a.data.length ≤ a.numAllocated
  size_eq : a.size = toInt a.countValid

/-- What may be asked of an array: a value is valid, an element is in use, and the
positions to remove are positions of the array. -/
def ReuseOp.Allowed (a : StableArray α) : ReuseOp α → Prop
  | .add value => value.Valid
  | .addElement i => ∃ c, a.Live i c
  | .remove pos count => pos + count ≤ a.data.length

/-- `Add` of a value from `a` to `a'`: the slot has the value and was not in use, and the
elements in use are the others and this. -/
structure Added (a a' : StableArray α) (value : Component α) (p : SlotPtr) : Prop where
  allocation : p.allocation = a'.allocation
  holds : a'.data[p.index]? = some value
  fresh : ∀ d, ¬ a.Live p.index d
  live : ∀ i d, a'.Live i d ↔ a.Live i d ∨ i = p.index ∧ d = value

/-- What an operation does from `a` to `a'`. -/
def ReuseOp.Does (a a' : StableArray α) (slot : Option SlotPtr) : ReuseOp α → Prop
  | .add value => ∃ p, slot = some p ∧ Added a a' value p
  | .addElement i => ∃ p value, slot = some p ∧ a.data[i]? = some value ∧ Added a a' value p
  | .remove pos count =>
      slot = none ∧ ∀ i d, a'.Live i d ↔ a.Live i d ∧ ¬ (pos ≤ i ∧ i < pos + count)

/-- The arrays that the allowed operations make from an empty one. -/
inductive Reused (T : ComponentClass α) : StableArray α → Prop
  | empty (dirty : Bool) : Reused T (.empty dirty)
  | step {a a' : StableArray α} {slot : Option SlotPtr} (op : ReuseOp α) :
      Reused T a → op.Allowed a → a.reuse T op = some (a', slot) → Reused T a'

variable {T : ComponentClass α} {a a' : StableArray α} {c value : Component α} {pos i : Nat}

/-! ### Counting -/

/-- The elements with a property are as many as the positions of such elements. -/
theorem countP_range {β : Type} (p : β → Bool) (l : List β) :
    (List.range l.length).countP (fun i => (l[i]?).any p) = l.countP p := by
  induction l using List.reverseRecOn with
  | nil => rfl
  | append_singleton l b ih =>
      have hrest : (List.range l.length).countP (fun i => ((l ++ [b])[i]?).any p)
          = (List.range l.length).countP fun i => (l[i]?).any p := by
        apply List.countP_congr
        intro i hi
        rw [List.getElem?_append_left (List.mem_range.mp hi)]
      rw [List.length_append, List.length_singleton, List.range_succ, List.countP_append, hrest, ih,
        List.countP_append, List.countP_singleton, List.countP_singleton,
        List.getElem?_concat_length]
      rfl

/-- The elements are the valid ones and those in `_invalid`. -/
theorem Tombstones.length_eq (h : a.Tombstones) :
    a.data.length = a.countValid + a.invalid.length := by
  have hmem : ∀ pos, pos ∈ a.invalid
      ↔ pos ∈ (List.range a.data.length).filter fun i => (a.data[i]?).any fun c => !decide c.Valid := by
    intro pos
    rw [h.mem_iff, List.mem_filter, List.mem_range]
    constructor
    · rintro ⟨c, hc, hno⟩
      exact ⟨(List.getElem?_eq_some_iff.mp hc).1, by simp [hc, hno]⟩
    · rintro ⟨-, hany⟩
      rcases hc : a.data[pos]? with - | c
      · simp [hc] at hany
      · exact ⟨c, rfl, by simpa [hc] using hany⟩
  have hperm := (List.perm_ext_iff_of_nodup h.nodup (List.nodup_range.filter _)).mpr hmem
  rw [hperm.length_eq, ← List.countP_eq_length_filter, countP_range, countValid]
  have hsplit := List.length_eq_countP_add_countP (fun c => decide c.Valid) (l := a.data)
  simpa using hsplit

theorem Tombstones.kept (h : a.Tombstones) (hle : a.data.length ≤ a.numAllocated) : a.Kept where
  tombstones := h
  length_le := hle
  size_eq := by
    have hlen := h.length_eq
    rw [size, sizeSub_of_le (by omega)]
    exact congrArg toInt (by omega)

theorem Kept.wf (h : a.Kept) : a.WF where
  length_le := h.length_le
  invalid := fun pos hmem => (h.tombstones.mem_iff pos).mp hmem
  nodup := h.tombstones.nodup

/-! ### `remove` -/

/-- `remove` of a position: its element is in use no longer. -/
theorem Kept.remove (h : a.Kept) {pos : Nat} (hlt : pos < a.data.length) :
    ∃ a', a.remove pos = some a' ∧ a'.Kept ∧ a'.data.length = a.data.length ∧
      ∀ i d, a'.Live i d ↔ a.Live i d ∧ i ≠ pos := by
  have hget : a.data[pos]? = some a.data[pos] := List.getElem?_eq_getElem hlt
  by_cases hvalid : a.data[pos].Valid
  · obtain ⟨a', hrun, hwf, -, hlive⟩ := h.wf.remove ⟨hget, hvalid⟩
    have heq := hrun
    rw [StableArray.remove, hget, Option.map_some, if_pos (by rw [hvalid]; rfl)] at heq
    obtain rfl := Option.some.inj heq
    have hdata : (a.data.set pos (a.data[pos].setInvalid true)).length = a.data.length :=
      List.length_set
    refine ⟨_, hrun, Tombstones.kept ⟨hwf.nodup, fun i => ⟨hwf.invalid i, ?_⟩⟩ hwf.length_le,
      hdata, hlive⟩
    rintro ⟨c, hc, hno⟩
    rw [List.mem_append, List.mem_singleton]
    by_cases hi : i = pos
    · exact Or.inr hi
    · have hc' : a.data[i]? = some c := by
        rw [← hc]
        exact (List.getElem?_set_ne (Ne.symm hi)).symm
      exact Or.inl ((h.tombstones.mem_iff i).mpr ⟨c, hc', hno⟩)
  · refine ⟨a, ?_, h, rfl, fun i d => (and_iff_left_of_imp ?_).symm⟩
    · have hmarked : a.data[pos].getInvalid = true := by
        rw [Component.Valid] at hvalid
        simpa using hvalid
      rw [StableArray.remove, hget, Option.map_some, if_neg (by rw [hmarked]; decide)]
    · rintro ⟨hd, hv⟩ rfl
      rw [hget] at hd
      exact hvalid (Option.some.inj hd ▸ hv)

/-- `remove` of positions of the array has a result. -/
theorem Kept.exists_removeRange (h : a.Kept) {count : Nat} (hle : pos + count ≤ a.data.length) :
    ∃ a', a.removeRange pos count = some a' := by
  induction count generalizing a pos with
  | zero => exact ⟨a, rfl⟩
  | succ count ih =>
      have hlt : pos < a.data.length := by omega
      obtain ⟨a₁, hrun, h₁, hlen, -⟩ := h.remove hlt
      have hle₁ : pos + 1 + count ≤ a₁.data.length := by omega
      obtain ⟨a', hrest⟩ := ih h₁ hle₁
      refine ⟨a', ?_⟩
      rw [removeRange, hrun]
      exact hrest

/-- And then the elements at these positions are in use no longer. -/
theorem Kept.removeRange (h : a.Kept) {count : Nat} (hrun : a.removeRange pos count = some a') :
    a'.Kept ∧ ∀ i d, a'.Live i d ↔ a.Live i d ∧ ¬ (pos ≤ i ∧ i < pos + count) := by
  induction count generalizing a pos with
  | zero =>
      obtain rfl := Option.some.inj hrun
      refine ⟨h, fun i d => (and_iff_left ?_).symm⟩
      omega
  | succ count ih =>
      obtain ⟨a₁, hfirst, hrest⟩ := Option.bind_eq_some_iff.mp hrun
      obtain ⟨c, hget, -⟩ := Option.map_eq_some_iff.mp hfirst
      obtain ⟨a₁', hrun', h₁, -, hlive⟩ := h.remove (List.getElem?_eq_some_iff.mp hget).1
      obtain rfl := Option.some.inj (hfirst.symm.trans hrun')
      obtain ⟨h', hlive'⟩ := ih h₁ hrest
      refine ⟨h', fun i d => ?_⟩
      rw [hlive', hlive, and_assoc]
      refine and_congr_right fun _ => ?_
      omega

/-! ### `Add` -/

/-- An element of the array is added as the value that it has. -/
theorem addElement_eq (T : ComponentClass α) (a : StableArray α) (i : Nat) :
    a.addElement T i = (a.data[i]?).bind (a.add T) := by
  rw [addElement]
  cases hlast : a.invalid.getLast? with
  | some pos =>
      refine congrArg (Option.bind (a.data[i]?)) (funext fun value => ?_)
      rw [add, hlast]
  | none =>
      dsimp only
      split
      · rename_i hroom
        refine congrArg (Option.bind (a.data[i]?)) (funext fun value => ?_)
        simp only [add, hlast, if_pos hroom]
      · rfl

/-- `Add` of a valid value. -/
theorem Kept.add (T : ComponentClass α) (h : a.Kept) (hvalue : value.Valid) :
    ∃ a' p, a.add T value = some (a', p) ∧ a'.Kept ∧ Added a a' value p := by
  obtain ⟨a', p, hrun, hwf, halloc, hlive, hfresh⟩ := h.wf.add T hvalue
  have hvalueAt : a'.Live p.index value := (hlive _ _).mpr (Or.inr ⟨rfl, rfl⟩)
  refine ⟨a', p, hrun, Tombstones.kept ⟨hwf.nodup, fun i => ⟨hwf.invalid i, ?_⟩⟩ hwf.length_le,
    halloc, hvalueAt.1, hfresh, hlive⟩
  rintro ⟨c, hc, hno⟩
  rcases add_cases T h.length_le (fun _ => h.wf.lt_of_mem) value with
    ⟨rest, pos, hrest, hadd⟩ | ⟨hnil, a'', hadd, hdata, hnil', -⟩
  · -- the slot used again is no longer invalid, and the others stay
    obtain ⟨rfl, rfl⟩ := Prod.mk.inj (Option.some.inj (hrun.symm.trans hadd))
    have hne : i ≠ pos := by
      rintro rfl
      have hv := hvalueAt.1
      rw [hc] at hv
      exact hno (Option.some.inj hv ▸ hvalue)
    have hc' : a.data[i]? = some c := by
      rw [← hc]
      exact (List.getElem?_set_ne (Ne.symm hne)).symm
    have hmem := (h.tombstones.mem_iff i).mpr ⟨c, hc', hno⟩
    rw [hrest, List.mem_append, List.mem_singleton] at hmem
    exact hmem.resolve_right hne
  · -- with no slot to use again every element is valid
    obtain ⟨rfl, rfl⟩ := Prod.mk.inj (Option.some.inj (hrun.symm.trans hadd))
    rw [hdata] at hc
    rcases Nat.lt_or_ge i a.data.length with hi | hi
    · rw [List.getElem?_append_left hi] at hc
      have hmem := (h.tombstones.mem_iff i).mpr ⟨c, hc, hno⟩
      rw [hnil] at hmem
      exact nomatch hmem
    · have hlt := (List.getElem?_eq_some_iff.mp hc).1
      rw [List.length_append, List.length_singleton] at hlt
      obtain rfl : i = a.data.length := by omega
      rw [List.getElem?_concat_length] at hc
      exact absurd (Option.some.inj hc ▸ hvalue) hno

/-! ### Runs -/

theorem kept_empty (dirty : Bool) : (empty dirty : StableArray α).Kept :=
  Tombstones.kept ⟨List.nodup_nil, fun pos => by simp [empty]⟩ (Nat.le_refl _)

/-- An allowed operation has a result, keeps the array and does what it should. -/
theorem Kept.reuse (T : ComponentClass α) (h : a.Kept) (op : ReuseOp α) (hop : op.Allowed a) :
    ∃ a' slot, a.reuse T op = some (a', slot) ∧ a'.Kept ∧ op.Does a a' slot := by
  cases op with
  | add value =>
      obtain ⟨a', p, hrun, h', hadded⟩ := h.add T hop
      exact ⟨a', some p, by rw [StableArray.reuse, hrun]; rfl, h', p, rfl, hadded⟩
  | addElement i =>
      obtain ⟨value, hget, hvalue⟩ := hop
      obtain ⟨a', p, hrun, h', hadded⟩ := h.add T hvalue
      refine ⟨a', some p, ?_, h', p, value, rfl, hget, hadded⟩
      rw [StableArray.reuse, addElement_eq, hget, Option.bind_some, hrun]
      rfl
  | remove pos count =>
      obtain ⟨a', hrun⟩ := h.exists_removeRange hop
      obtain ⟨h', hlive⟩ := h.removeRange hrun
      exact ⟨a', none, by rw [StableArray.reuse, hrun]; rfl, h', rfl, hlive⟩

theorem Reused.kept (h : Reused T a) : a.Kept := by
  induction h with
  | empty dirty => exact kept_empty dirty
  | step op _ hop hrun ih =>
      obtain ⟨a', slot, hrun', h', -⟩ := ih.reuse T op hop
      obtain ⟨rfl, rfl⟩ := Prod.mk.inj (Option.some.inj (hrun.symm.trans hrun'))
      exact h'

/-- **Slots are used again soundly.**  Whatever allowed operations have made of an array,
its tombstones are those of its elements, and the next operation keeps every element in
use but those it removes. -/
theorem slot_reuse_sound (h : Reused T a) :
    a.Kept ∧ ∀ op : ReuseOp α, op.Allowed a →
      ∃ a' slot, a.reuse T op = some (a', slot) ∧ a'.Kept ∧ op.Does a a' slot :=
  ⟨h.kept, fun op hop => h.kept.reuse T op hop⟩

/-- A value, and then a copy of it, for which the full array moves. -/
def copied : StableArray Unit :=
  ⟨2, [⟨.new 1, ()⟩, ⟨.new 1, ()⟩], [], 32, true⟩

/-- Then the value is removed, and the copy stays. -/
def copyLeft : StableArray Unit :=
  ⟨2, [⟨(IComponent.new 1).setInvalid true, ()⟩, ⟨.new 1, ()⟩], [0], 32, true⟩

/-- The next value goes to the slot of the removed one. -/
theorem slot_reuse_sound_of_copy :
    ∃ a', reuse ⟨8, ⟨.new 0, ()⟩⟩ copyLeft (.add ⟨.new 2, ()⟩) = some (a', some ⟨2, 0⟩) ∧ a'.Kept
      ∧ (ReuseOp.add ⟨.new 2, ()⟩).Does copyLeft a' (some ⟨2, 0⟩) := by
  have hone : Reused ⟨8, ⟨.new 0, ()⟩⟩ ⟨1, [⟨.new 1, ()⟩], [], 1, true⟩ :=
    .step (.add ⟨.new 1, ()⟩) (.empty false) rfl rfl
  have hcopied : Reused ⟨8, ⟨.new 0, ()⟩⟩ copied := .step (.addElement 0) hone ⟨_, rfl, rfl⟩ rfl
  have hleft : Reused ⟨8, ⟨.new 0, ()⟩⟩ copyLeft :=
    .step (.remove 0 1) hcopied (show 0 + 1 ≤ 2 by decide) rfl
  obtain ⟨a', slot, hrun, hkept, hdoes⟩ :=
    (slot_reuse_sound hleft).2 (.add ⟨.new 2, ()⟩) rfl
  obtain rfl : slot = some ⟨2, 0⟩ := (Prod.mk.inj (Option.some.inj hrun)).2.symm
  exact ⟨a', hrun, hkept, hdoes⟩

end StableArray

end PCGForUnity
