/-
PCGForUnity/ECS/IComponent.lean

Components of entities (`IComponent.h`): an id and a word of flags, whose bit 1 says that
the slot a component is stored in has been given up.  A component class derived from it
has members of its own, which nothing here looks at.

Design.  The flags are kept as the one `UInt32` of the source, with its masks: the catalog
is in the upper 16 bits, and the two low bits are those of `IsDirty` and `GetInvalid`.
`SetCatalog` ORs the new bits in, so that a second call does not replace the first; the
lemmas at the end say what each setter leaves as it was.

`Component α` carries the members of a class as a value of `α`, and `ComponentClass α` is
what a template is told of it besides, `sizeof(T)` and what `T()` makes.
-/
import Mathlib.Data.List.TakeDrop
import Mathlib.Algebra.Order.Ring.Nat

namespace PCGForUnity

/-- `ComponentCatalog`.  The enumeration has a fixed underlying type, so it has
values beside the named ones. -/
inductive ComponentCatalog
  | movement
  | status
  | intervalTimer
  | other (value : UInt16)
deriving DecidableEq, Repr

namespace ComponentCatalog

/-- `static_cast<ComponentCatalog>`. -/
def ofUInt16 (value : UInt16) : ComponentCatalog :=
  if value = 0 then .movement
  else if value = 1 then .status
  else if value = 2 then .intervalTimer
  else .other value

/-- `static_cast<uint16_t>`. -/
def toUInt16 : ComponentCatalog → UInt16
  | movement => 0
  | status => 1
  | intervalTimer => 2
  | other value => value

end ComponentCatalog

/-- The members of `IComponent`. -/
structure IComponent where
  id : UInt32
  flags : UInt32
deriving DecidableEq, Repr

namespace IComponent

/-- `IComponent(int32_t id)`. -/
def new (id : UInt32) : IComponent := { id, flags := 1 }

/-- `GetID` -/
def getID (c : IComponent) : UInt32 := c.id

/-- `GetCatalog`, the upper 16 bits of the flags. -/
def getCatalog (c : IComponent) : ComponentCatalog :=
  .ofUInt16 ((c.flags >>> 16) &&& 0x0000ffff).toUInt16

/-- `SetCatalog`, which only ever sets bits. -/
def setCatalog (c : IComponent) (catalog : ComponentCatalog) : IComponent :=
  { c with flags := c.flags ||| ((catalog.toUInt16.toUInt32 <<< 16) &&& 0xffff0000) }

/-- `SetInvalid` -/
def setInvalid (c : IComponent) (invalid : Bool) : IComponent :=
  if invalid then { c with flags := c.flags ||| 0x2 }
  else { c with flags := c.flags &&& 0xfffffffd }

/-- `GetInvalid` -/
def getInvalid (c : IComponent) : Bool := c.flags &&& 0x00000002 != 0

@[simp] theorem getID_setInvalid (c : IComponent) (invalid : Bool) :
    (c.setInvalid invalid).getID = c.getID := by
  cases invalid <;> rfl

theorem or_and (a b mask : UInt32) : (a ||| b) &&& mask = (a &&& mask) ||| (b &&& mask) := by
  apply UInt32.toBitVec_inj.mp
  apply BitVec.eq_of_getElem_eq
  intro i hi
  simp only [UInt32.toBitVec_and, UInt32.toBitVec_or, BitVec.getElem_and, BitVec.getElem_or,
    Bool.and_or_distrib_right]

theorem getInvalid_setInvalid (c : IComponent) (invalid : Bool) :
    (c.setInvalid invalid).getInvalid = invalid := by
  cases invalid with
  | true =>
      have hset : (c.flags ||| 2) &&& 2 = 2 := by
        apply UInt32.toBitVec_inj.mp
        apply BitVec.eq_of_getElem_eq
        intro i hi
        simp only [UInt32.toBitVec_and, UInt32.toBitVec_or, BitVec.getElem_and,
          BitVec.getElem_or]
        cases (UInt32.toBitVec 2)[i] <;> simp
      show ((c.flags ||| 2) &&& 2 != 0) = true
      rw [hset]
      rfl
  | false =>
      show (c.flags &&& 0xfffffffd &&& 2 != 0) = false
      rw [UInt32.and_assoc]
      show (c.flags &&& 0 != 0) = false
      rw [UInt32.and_zero]
      rfl

/-- A component is valid as its class makes it. -/
theorem getInvalid_setCatalog (id : UInt32) (catalog : ComponentCatalog) :
    ((new id).setCatalog catalog).getInvalid = false := by
  show (((1 : UInt32) ||| ((catalog.toUInt16.toUInt32 <<< 16) &&& 0xffff0000)) &&& 2 != 0) = false
  rw [or_and, UInt32.and_assoc]
  show ((0 : UInt32) ||| (catalog.toUInt16.toUInt32 <<< 16 &&& 0) != 0) = false
  rw [UInt32.and_zero, UInt32.or_zero]
  rfl

end IComponent

/-- A component class `T`: `IComponent` with members of its own. -/
structure Component (α : Type) extends IComponent where
  members : α
deriving DecidableEq, Repr

namespace Component

variable {α : Type}

/-- A component that is stored in a slot in use. -/
def Valid (c : Component α) : Prop := c.getInvalid = false

instance (c : Component α) : Decidable c.Valid := inferInstanceAs (Decidable (_ = _))

/-- `SetInvalid` of the base class. -/
def setInvalid (c : Component α) (invalid : Bool) : Component α :=
  { c with toIComponent := c.toIComponent.setInvalid invalid }

end Component

/-- What `System<T>` and `StableArray<T>` use of the class `T` beside its members:
`sizeof(T)` and what `T()` makes. -/
structure ComponentClass (α : Type) where
  sizeofT : Nat
  new : Component α

end PCGForUnity
