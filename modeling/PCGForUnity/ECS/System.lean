/-
PCGForUnity/ECS/System.lean

`System<T>` (`ISystem.h`): the components of one class, and for each component id the callback
that is told where the component is.  After any operations on a new system
(`pointers_never_dangle`)

* an id has a callback exactly if the last registration or unregistration of one for it is a
  registration;
* the last pointer that was delivered to a callback is null, or points to a slot in use of the
  current array, which holds a component of the id;
* it is not null if a component was registered after the callback and not unregistered.

Design.  A callback is told by what was delivered to it since it was registered.  With
`STABLE_TEST` on, every operation that changes the array ends by delivering the address of
every slot in use, which is why no entity is left with a pointer to a slot that moved or was
given up.

`Watched` is a system with the history of its operations, numbered from 1, which "registered
after" is about; the system itself is not changed by it.
-/
import PCGForUnity.ECS.StableArray
import PCGForUnity.Lib.Run

namespace PCGForUnity

/-- The arguments of a call of a `ComponentChangeEvent`. -/
structure Delivery where
  com : Option SlotPtr
  comId : UInt32
  catalog : ComponentCatalog
deriving DecidableEq, Repr

/-- `ComponentEventMap`: for an id with a callback, what was delivered to it. -/
abbrev ComponentEventMap := UInt32 → Option (List Delivery)

/-- The members of `System<T>`. -/
structure System (α : Type) where
  aData : StableArray α
  eventMap : ComponentEventMap

namespace System

variable {α : Type}

/-! ### The system as coded -/

/-- The constructor. -/
def empty (dirty : Bool) : System α := { aData := .empty dirty, eventMap := fun _ => none }

/-- `RegisterComponentChangeEvent`: an old callback is replaced. -/
def registerComponentChangeEvent (s : System α) (componentId : UInt32) : System α :=
  { s with eventMap := fun id => if id = componentId then some [] else s.eventMap id }

/-- `UnRegisterComponentChangeEvent` -/
def unRegisterComponentChangeEvent (s : System α) (componentId : UInt32) : System α :=
  { s with eventMap := fun id => if id = componentId then none else s.eventMap id }

/-- A call of the callback found for an id, if there is one. -/
def call (m : ComponentEventMap) (d : Delivery) : ComponentEventMap :=
  fun id => if id = d.comId then (m id).map (· ++ [d]) else m id

/-- The call for the component in a slot. -/
def delivery (a : StableArray α) (slot : Component α × Nat) : Delivery :=
  { com := some ⟨a.allocation, slot.2⟩, comId := slot.1.getID, catalog := slot.1.getCatalog }

/-- The loop that delivers the address of every slot in use. -/
def callAll (a : StableArray α) (m : ComponentEventMap) : ComponentEventMap :=
  a.data.zipIdx.foldl
    (fun m slot => if slot.1.getInvalid then m else call m (delivery a slot)) m

/-- `RegisterComponent`: all callbacks are called if the array has moved, else that of `com`. -/
def registerComponent (T : ComponentClass α) (s : System α) (com : Component α) :
    Option (System α) := do
  let (aData, ptr) ← s.aData.add T com
  if aData.dirty then
    some { aData := aData.flush, eventMap := callAll aData s.eventMap }
  else
    let eventMap := call s.eventMap ⟨some ptr, com.getID, com.getCatalog⟩
    some { aData, eventMap := callAll aData eventMap }

/-- The slot that the loop of `UnRegisterComponent` stops at. -/
def find (a : StableArray α) (componentId : UInt32) : Option (Component α × Nat) :=
  a.data.zipIdx.find? fun slot => !slot.1.getInvalid && decide (slot.1.getID = componentId)

/-- `UnRegisterComponent`; its `int` becomes an id wherever it is used. -/
def unRegisterComponent (s : System α) (componentId : UInt32) : Option (System α) :=
  match find s.aData componentId with
  | some (com, pos) => do
      let eventMap := call s.eventMap ⟨none, componentId, com.getCatalog⟩
      let aData ← s.aData.remove pos
      some { aData, eventMap := callAll aData eventMap }
  | none => some s

/-! ### Runs -/

/-- The operations on a system; a component is registered as its class makes it, valid. -/
inductive Op (α : Type)
  | registerComponentChangeEvent (componentId : UInt32)
  | unRegisterComponentChangeEvent (componentId : UInt32)
  | registerComponent (com : { com : Component α // com.Valid })
  | unRegisterComponent (componentId : UInt32)

/-- A system with a history of its operations, which are numbered from 1: when the
callback of an id and the component of a slot were registered, the registrations
of components with their ids, and the registrations taken back since. -/
structure Watched (α : Type) extends System α where
  time : Nat
  since : UInt32 → Nat
  bornAt : Nat → Nat
  registered : List (Nat × UInt32)
  unRegistered : List Nat

/-- An operation, with the time that it takes its place at. -/
def step (T : ComponentClass α) (w : Watched α) : Op α → Option (Watched α)
  | .registerComponentChangeEvent id =>
      some { w with
        toSystem := w.toSystem.registerComponentChangeEvent id
        time := w.time + 1
        since := fun id' => if id' = id then w.time + 1 else w.since id' }
  | .unRegisterComponentChangeEvent id =>
      some { w with
        toSystem := w.toSystem.unRegisterComponentChangeEvent id, time := w.time + 1 }
  | .registerComponent com => do
      let s ← w.toSystem.registerComponent T com
      let (_, ptr) ← w.aData.add T com
      some { w with
        toSystem := s
        time := w.time + 1
        bornAt := fun pos => if pos = ptr.index then w.time + 1 else w.bornAt pos
        registered := (w.time + 1, com.1.getID) :: w.registered }
  | .unRegisterComponent id => do
      let s ← w.toSystem.unRegisterComponent id
      some { w with
        toSystem := s
        time := w.time + 1
        unRegistered :=
          ((find w.aData id).map fun slot => w.bornAt slot.2).toList ++ w.unRegistered }

/-- A new system, before any operation. -/
def start (dirty : Bool) : Watched α :=
  { toSystem := empty dirty
    time := 0
    since := fun _ => 0
    bornAt := fun _ => 0
    registered := []
    unRegistered := [] }

/-- A pointer to a slot in use that holds a component with the id. -/
def PointsTo (a : StableArray α) (p : SlotPtr) (id : UInt32) : Prop :=
  p.allocation = a.allocation ∧ ∃ c, a.Live p.index c ∧ c.getID = id

/-- The last pointer of some deliveries; `none` if the last one was null or there was none. -/
def lastPointer (ds : List Delivery) : Option SlotPtr := ds.getLast?.bind Delivery.com

/-- A component with the id was registered after the callback of the id, and was
not unregistered. -/
def Watched.Registered (w : Watched α) (id : UInt32) : Prop :=
  ∃ n, (n, id) ∈ w.registered ∧ n ∉ w.unRegistered ∧ w.since id < n

/-- What holds of the callback of an id after every operation. -/
structure Told (w : Watched α) (id : UInt32) (ds : List Delivery) : Prop where
  pointsTo : ∀ p, lastPointer ds = some p → PointsTo w.aData p id
  isSome : (∃ pos c, w.aData.Live pos c ∧ c.getID = id ∧ w.since id < w.bornAt pos) →
    (lastPointer ds).isSome

/-- The id has a callback after some operations: the last of those that register or
unregister one for it registers it. -/
def HasCallback (id : UInt32) (ops : List (Op α)) : Prop :=
  ∃ pre post, ops = pre ++ .registerComponentChangeEvent id :: post ∧
    .unRegisterComponentChangeEvent id ∉ post

/-! ### The loop over the slots in use -/

section Loop

variable {a : StableArray α} {m : ComponentEventMap} {id : UInt32} {ds : List Delivery}

/-- The slots in use by components with an id. -/
def slots (a : StableArray α) (id : UInt32) : List (Component α × Nat) :=
  a.data.zipIdx.filter fun slot => !slot.1.getInvalid && decide (slot.1.getID = id)

theorem mem_slots {slot : Component α × Nat} :
    slot ∈ slots a id ↔ a.Live slot.2 slot.1 ∧ slot.1.getID = id := by
  rw [slots, List.mem_filter, List.mem_zipIdx_iff_getElem?, Bool.and_eq_true, Bool.not_eq_true',
    decide_eq_true_eq, StableArray.Live, Component.Valid, and_assoc]

/-- To a callback the loop delivers the slots of its id. -/
theorem callAll_apply (a : StableArray α) (m : ComponentEventMap) (id : UInt32) :
    callAll a m id = (m id).map (· ++ (slots a id).map (delivery a)) := by
  rw [callAll, slots]
  induction a.data.zipIdx generalizing m with
  | nil => simp
  | cons slot rest ih =>
      rw [List.foldl_cons, ih]
      cases hinvalid : slot.1.getInvalid with
      | true => simp [hinvalid]
      | false =>
          by_cases hid : slot.1.getID = id
          · have hcall : call m (delivery a slot) id = (m id).map (· ++ [delivery a slot]) :=
              if_pos hid.symm
            simp [hinvalid, hid, hcall, Function.comp_def]
          · have hcall : call m (delivery a slot) id = m id := if_neg (Ne.symm hid)
            simp [hinvalid, hid, hcall]

/-- After the loop a callback knows a slot in use of its id, and what it knew
before if there is none. -/
theorem lastPointer_callAll {ds' : List Delivery} (h : callAll a m id = some ds') :
    (∃ p, lastPointer ds' = some p ∧ PointsTo a p id) ∨
      (∀ pos c, a.Live pos c → c.getID ≠ id) ∧ m id = some ds' := by
  rw [callAll_apply] at h
  obtain ⟨ds, hds, rfl⟩ := Option.map_eq_some_iff.mp h
  rcases List.eq_nil_or_concat (slots a id) with hnil | ⟨rest, slot, hslot⟩
  · refine Or.inr ⟨fun pos c hlive hid => ?_, by rw [hnil, List.map_nil, List.append_nil, hds]⟩
    have hmem : (c, pos) ∈ slots a id := mem_slots.mpr ⟨hlive, hid⟩
    rw [hnil] at hmem
    cases hmem
  · obtain ⟨hlive, hid⟩ := mem_slots.mp (show slot ∈ slots a id by rw [hslot]; simp)
    refine Or.inl ⟨⟨a.allocation, slot.2⟩, ?_, rfl, slot.1, hlive, hid⟩
    rw [hslot, List.concat_eq_append, List.map_append, ← List.append_assoc, lastPointer,
      List.map_singleton, List.getLast?_concat]
    rfl

/-- The loop leaves a callback with the right pointer, if without any slot in use
of its id it had none to begin with. -/
theorem told_of_callAll {w : Watched α} {ds' : List Delivery}
    (h : callAll w.aData m id = some ds')
    (hold : (∀ pos c, w.aData.Live pos c → c.getID ≠ id) →
      ∀ ds, m id = some ds → lastPointer ds = none) : Told w id ds' := by
  rcases lastPointer_callAll h with ⟨p, hp, hpoints⟩ | ⟨hnone, hm⟩
  · exact ⟨fun q hq => Option.some.inj (hp.symm.trans hq) ▸ hpoints, fun _ => by rw [hp]; rfl⟩
  · refine ⟨fun p hp => ?_, ?_⟩
    · rw [hold hnone ds' hm] at hp
      cases hp
    · rintro ⟨pos, c, hlive, hid, -⟩
      exact absurd hid (hnone pos c hlive)

end Loop

/-! ### Every operation -/

/-- The invariant of runs: the slots in use hold the components registered and not
unregistered, and the callbacks are told where they are. -/
structure Inv (w : Watched α) : Prop where
  wf : w.aData.WF
  bornAt_le : ∀ pos, w.bornAt pos ≤ w.time
  live : ∀ n id, (n, id) ∈ w.registered → n ∉ w.unRegistered →
    ∃ pos c, w.aData.Live pos c ∧ c.getID = id ∧ w.bornAt pos = n
  told : ∀ id ds, w.eventMap id = some ds → Told w id ds

variable {T : ComponentClass α} {w w' : Watched α} {id : UInt32}

theorem inv_start (dirty : Bool) : Inv (start dirty : Watched α) := by
  refine ⟨StableArray.wf_empty dirty, fun _ => Nat.le_refl _, ?_, ?_⟩
  · intro n id hn
    cases hn
  · intro id ds hds
    cases hds

theorem Inv.registerComponentChangeEvent (h : Inv w) :
    ∃ w', step T w (.registerComponentChangeEvent id) = some w' ∧ Inv w' := by
  refine ⟨_, rfl, h.wf, fun pos => Nat.le_succ_of_le (h.bornAt_le pos), h.live,
    fun id' ds hds => ?_⟩
  by_cases hid : id' = id
  · -- a new callback: nothing was delivered to it, and no component is younger
    have hds : some [] = some ds := (if_pos hid).symm.trans hds
    obtain rfl := Option.some.inj hds
    refine ⟨fun p hp => (by cases hp), ?_⟩
    rintro ⟨pos, c, -, -, hborn⟩
    have hsince : (if id' = id then w.time + 1 else w.since id') < w.bornAt pos := hborn
    rw [if_pos hid] at hsince
    exact absurd (h.bornAt_le pos) (by omega)
  · have hold := h.told id' ds ((if_neg hid).symm.trans hds)
    refine ⟨hold.pointsTo, ?_⟩
    rintro ⟨pos, c, hlive, hc, hborn⟩
    have hsince : (if id' = id then w.time + 1 else w.since id') < w.bornAt pos := hborn
    rw [if_neg hid] at hsince
    exact hold.isSome ⟨pos, c, hlive, hc, hsince⟩

theorem Inv.unRegisterComponentChangeEvent (h : Inv w) :
    ∃ w', step T w (.unRegisterComponentChangeEvent id) = some w' ∧ Inv w' := by
  refine ⟨_, rfl, h.wf, fun pos => Nat.le_succ_of_le (h.bornAt_le pos), h.live,
    fun id' ds hds => ?_⟩
  by_cases hid : id' = id
  · have hds : none = some ds := (if_pos hid).symm.trans hds
    cases hds
  · exact ⟨(h.told id' ds ((if_neg hid).symm.trans hds)).pointsTo,
      (h.told id' ds ((if_neg hid).symm.trans hds)).isSome⟩

/-- A callback whose id is in no slot in use has no pointer, if the slots of the
id that were in use still are. -/
theorem Inv.lastPointer_eq_none (h : Inv w) {a' : StableArray α}
    (hkeep : ∀ pos c, w.aData.Live pos c → c.getID = id → a'.Live pos c)
    (hnone : ∀ pos c, a'.Live pos c → c.getID ≠ id) {ds : List Delivery}
    (hds : w.eventMap id = some ds) : lastPointer ds = none := by
  cases hp : lastPointer ds with
  | none => rfl
  | some p =>
      obtain ⟨-, c, hlive, hid⟩ := (h.told id ds hds).pointsTo p hp
      exact absurd hid (hnone _ c (hkeep _ c hlive hid))

theorem Inv.registerComponent (h : Inv w) (com : { com : Component α // com.Valid }) :
    ∃ w', step T w (.registerComponent com) = some w' ∧ Inv w' := by
  obtain ⟨a', ptr, hadd, hwf, hptr, hlive, hfree⟩ := h.wf.add T com.2
  -- both branches of the code end in the loop over the new array
  obtain ⟨aData, m, hreg, hwf', hlive', hm⟩ : ∃ aData m,
      w.toSystem.registerComponent T com = some ⟨aData, callAll aData m⟩ ∧ aData.WF ∧
        (∀ pos c, aData.Live pos c ↔ a'.Live pos c) ∧
        ∀ id, id ≠ com.1.getID → m id = w.eventMap id := by
    cases hdirty : a'.dirty with
    | true =>
        refine ⟨a'.flush, w.eventMap, ?_, ⟨hwf.length_le, hwf.invalid, hwf.nodup⟩,
          fun _ _ => Iff.rfl, fun _ _ => rfl⟩
        simp only [System.registerComponent, hadd, Option.bind_eq_bind, Option.bind_some, hdirty,
          if_true]
        rfl
    | false =>
        refine ⟨a', call w.eventMap ⟨some ptr, com.1.getID, com.1.getCatalog⟩, ?_, hwf,
          fun _ _ => Iff.rfl, fun id hid => if_neg hid⟩
        simp only [System.registerComponent, hadd, Option.bind_eq_bind, Option.bind_some, hdirty,
          Bool.false_eq_true, if_false]
  refine ⟨{ w with
    toSystem := ⟨aData, callAll aData m⟩
    time := w.time + 1
    bornAt := fun pos => if pos = ptr.index then w.time + 1 else w.bornAt pos
    registered := (w.time + 1, com.1.getID) :: w.registered }, ?_, hwf', ?_, ?_, ?_⟩
  · rw [step, hreg, hadd]
    rfl
  · intro pos
    show (if pos = ptr.index then w.time + 1 else w.bornAt pos) ≤ w.time + 1
    split
    · exact Nat.le_refl _
    · exact Nat.le_succ_of_le (h.bornAt_le pos)
  · intro n id hn hnot
    rcases List.mem_cons.mp hn with hn | hn
    · obtain ⟨rfl, rfl⟩ := Prod.mk.inj hn
      exact ⟨ptr.index, com.1, (hlive' _ _).mpr ((hlive _ _).mpr (Or.inr ⟨rfl, rfl⟩)), rfl,
        if_pos rfl⟩
    · obtain ⟨pos, c, hc, hid, hborn⟩ := h.live n id hn hnot
      have hne : pos ≠ ptr.index := fun e => hfree c (e ▸ hc)
      exact ⟨pos, c, (hlive' _ _).mpr ((hlive _ _).mpr (Or.inl hc)), hid,
        (if_neg hne).trans hborn⟩
  · -- a callback that the loop does not reach has an id without a component
    intro id ds hds
    refine told_of_callAll hds fun hnone ds' hds' => ?_
    have hid : id ≠ com.1.getID := by
      rintro rfl
      exact hnone ptr.index com ((hlive' _ _).mpr ((hlive _ _).mpr (Or.inr ⟨rfl, rfl⟩))) rfl
    rw [hm id hid] at hds'
    exact h.lastPointer_eq_none
      (fun pos c hc _ => (hlive' _ _).mpr ((hlive _ _).mpr (Or.inl hc))) hnone hds'

theorem Inv.unRegisterComponent (h : Inv w) :
    ∃ w', step T w (.unRegisterComponent id) = some w' ∧ Inv w' := by
  cases hfind : find w.aData id with
  | none =>
      have hsame : w.toSystem.unRegisterComponent id = some w.toSystem := by
        rw [System.unRegisterComponent, hfind]
      refine ⟨{ w with time := w.time + 1 }, ?_, h.wf,
        fun pos => Nat.le_succ_of_le (h.bornAt_le pos), h.live, fun id' ds hds => ?_⟩
      · rw [step, hsame, hfind]
        rfl
      · exact ⟨(h.told id' ds hds).pointsTo, (h.told id' ds hds).isSome⟩
  | some slot =>
      obtain ⟨com, pos⟩ := slot
      have hpred := List.find?_some hfind
      have hmem : (com, pos) ∈ slots w.aData id :=
        List.mem_filter.mpr ⟨List.mem_of_find?_eq_some hfind, hpred⟩
      obtain ⟨hcom, hid⟩ := mem_slots.mp hmem
      obtain ⟨a', hremove, hwf, -, hlive⟩ := h.wf.remove hcom
      have heq : w.toSystem.unRegisterComponent id
          = some ⟨a', callAll a' (call w.eventMap ⟨none, id, com.getCatalog⟩)⟩ := by
        rw [System.unRegisterComponent, hfind]
        simp only [hremove, Option.bind_eq_bind, Option.bind_some]
      refine ⟨{ w with
        toSystem := ⟨a', callAll a' (call w.eventMap ⟨none, id, com.getCatalog⟩)⟩
        time := w.time + 1
        unRegistered := w.bornAt pos :: w.unRegistered }, ?_, hwf,
        fun pos => Nat.le_succ_of_le (h.bornAt_le pos), ?_, fun id' ds hds => ?_⟩
      · rw [step, heq, hfind]
        rfl
      · intro n id' hn hnot
        obtain ⟨hne, hnot⟩ := not_or.mp (mt List.mem_cons.mpr hnot)
        obtain ⟨pos', c, hc, hid', hborn⟩ := h.live n id' hn hnot
        refine ⟨pos', c, (hlive _ _).mpr ⟨hc, ?_⟩, hid', hborn⟩
        rintro rfl
        exact hne hborn.symm
      · refine told_of_callAll hds fun hnone ds' hds' => ?_
        by_cases hid' : id' = id
        · -- the callback of the component given up was told null last
          have hds' : (w.eventMap id').map (· ++ [⟨none, id, com.getCatalog⟩]) = some ds' :=
            (if_pos hid').symm.trans hds'
          obtain ⟨old, -, rfl⟩ := Option.map_eq_some_iff.mp hds'
          rw [lastPointer, List.getLast?_concat]
          rfl
        · refine h.lastPointer_eq_none (fun pos' c hc hc' => (hlive _ _).mpr ⟨hc, ?_⟩) hnone
            ((if_neg hid').symm.trans hds')
          rintro rfl
          have hsame : c = com := Option.some.inj (hc.1.symm.trans hcom.1)
          exact hid' (by rw [← hc', hsame, hid])

theorem Inv.step (h : Inv w) (op : Op α) : ∃ w', System.step T w op = some w' ∧ Inv w' := by
  cases op with
  | registerComponentChangeEvent id => exact h.registerComponentChangeEvent
  | unRegisterComponentChangeEvent id => exact h.unRegisterComponentChangeEvent
  | registerComponent com => exact h.registerComponent com
  | unRegisterComponent id => exact h.unRegisterComponent

theorem Inv.isSome (h : Inv w) {ds : List Delivery} (hds : w.eventMap id = some ds)
    (hregistered : w.Registered id) : (lastPointer ds).isSome := by
  obtain ⟨n, hn, hnot, hsince⟩ := hregistered
  obtain ⟨pos, c, hlive, hid, hborn⟩ := h.live n id hn hnot
  exact (h.told id ds hds).isSome ⟨pos, c, hlive, hid, hborn ▸ hsince⟩

/-! ### Which ids have a callback -/

theorem hasCallback_concat {ops : List (Op α)} {op : Op α} :
    HasCallback id (ops ++ [op]) ↔ op = .registerComponentChangeEvent id ∨
      op ≠ .unRegisterComponentChangeEvent id ∧ HasCallback id ops := by
  constructor
  · rintro ⟨pre, post, hops, hnot⟩
    rcases List.eq_nil_or_concat post with rfl | ⟨post, last, rfl⟩
    · obtain ⟨-, hlast⟩ := List.append_inj' hops rfl
      exact Or.inl (List.cons.inj hlast).1
    · rw [List.concat_eq_append, ← List.cons_append, ← List.append_assoc] at hops
      obtain ⟨rfl, hlast⟩ := List.append_inj' hops rfl
      obtain rfl := (List.cons.inj hlast).1
      rw [List.concat_eq_append, List.mem_append, not_or, List.mem_singleton] at hnot
      exact Or.inr ⟨Ne.symm hnot.2, pre, post, rfl, hnot.1⟩
  · rintro (rfl | ⟨hne, pre, post, rfl, hnot⟩)
    · exact ⟨ops, [], rfl, List.not_mem_nil⟩
    · refine ⟨pre, post ++ [op], by rw [List.append_assoc, List.cons_append], ?_⟩
      rw [List.mem_append, not_or, List.mem_singleton]
      exact ⟨hnot, Ne.symm hne⟩

/-- A call finds the callback that it is for, and makes none. -/
theorem isSome_call (m : ComponentEventMap) (d : Delivery) (id : UInt32) :
    (call m d id).isSome = (m id).isSome := by
  rw [call]
  split
  · exact Option.isSome_map
  · rfl

theorem isSome_callAll (a : StableArray α) (m : ComponentEventMap) (id : UInt32) :
    (callAll a m id).isSome = (m id).isSome := by
  rw [callAll_apply, Option.isSome_map]

/-- Components come and go without the callbacks. -/
theorem isSome_registerComponent {s s' : System α} {com : Component α}
    (e : s.registerComponent T com = some s') (id : UInt32) :
    (s'.eventMap id).isSome = (s.eventMap id).isSome := by
  obtain ⟨⟨aData, ptr⟩, -, e⟩ := Option.bind_eq_some_iff.mp e
  dsimp only at e
  split at e
  · obtain rfl := Option.some.inj e
    exact isSome_callAll aData s.eventMap id
  · obtain rfl := Option.some.inj e
    exact (isSome_callAll aData _ id).trans (isSome_call s.eventMap _ id)

theorem isSome_unRegisterComponent {s s' : System α} {componentId : UInt32}
    (e : s.unRegisterComponent componentId = some s') (id : UInt32) :
    (s'.eventMap id).isSome = (s.eventMap id).isSome := by
  rw [System.unRegisterComponent] at e
  split at e
  · obtain ⟨aData, -, e⟩ := Option.bind_eq_some_iff.mp e
    obtain rfl := Option.some.inj e
    exact (isSome_callAll aData _ id).trans (isSome_call s.eventMap _ id)
  · obtain rfl := Option.some.inj e
    rfl

/-- One operation registers the callback, or leaves it unless it unregisters it. -/
theorem isSome_step {op : Op α} (e : System.step T w op = some w') (id : UInt32) :
    (w'.eventMap id).isSome ↔ op = .registerComponentChangeEvent id ∨
      op ≠ .unRegisterComponentChangeEvent id ∧ (w.eventMap id).isSome := by
  cases op with
  | registerComponentChangeEvent id' =>
      obtain rfl := Option.some.inj e
      show (if id = id' then some [] else w.eventMap id).isSome ↔ _
      by_cases hid : id = id'
      · simp [hid]
      · simp [hid, Ne.symm hid]
  | unRegisterComponentChangeEvent id' =>
      obtain rfl := Option.some.inj e
      show (if id = id' then none else w.eventMap id).isSome ↔ _
      by_cases hid : id = id'
      · simp [hid]
      · simp [hid, Ne.symm hid]
  | registerComponent com =>
      obtain ⟨s, hs, e⟩ := Option.bind_eq_some_iff.mp e
      obtain ⟨ptr, -, e⟩ := Option.bind_eq_some_iff.mp e
      obtain rfl := Option.some.inj e
      show (s.eventMap id).isSome ↔ _
      simp [isSome_registerComponent hs id]
  | unRegisterComponent id' =>
      obtain ⟨s, hs, e⟩ := Option.bind_eq_some_iff.mp e
      obtain rfl := Option.some.inj e
      show (s.eventMap id).isSome ↔ _
      simp [isSome_unRegisterComponent hs id]

/-- An id has a callback exactly as its last registration says. -/
theorem isSome_eventMap_iff {dirty : Bool} {ops : List (Op α)}
    (hrun : ops.foldlM (System.step T) (start dirty) = some w) (id : UInt32) :
    (w.eventMap id).isSome ↔ HasCallback id ops := by
  induction ops using List.reverseRecOn generalizing w with
  | nil =>
      obtain rfl := Option.some.inj hrun
      refine iff_of_false Bool.false_ne_true ?_
      rintro ⟨pre, post, hnil, -⟩
      simp at hnil
  | append_singleton ops op ih =>
      obtain ⟨w₁, hrun₁, e⟩ := Run.foldlM_concat.mp hrun
      rw [isSome_step e, ih hrun₁, hasCallback_concat]

/-! ### The pointers of entities -/

/-- **Pointers to components do not dangle.**  After any operations on a new
system an id has a callback if the last of its registrations and unregistrations is a
registration.  The last pointer delivered to it is null, or points to a slot in use of
the current array with a component of that id; and if such a component was registered
after the callback and not unregistered, it is not null. -/
theorem pointers_never_dangle (T : ComponentClass α) (dirty : Bool) (ops : List (Op α)) :
    ∃ w, ops.foldlM (System.step T) (start dirty) = some w ∧
      (∀ id, (w.eventMap id).isSome ↔ HasCallback id ops) ∧
      ∀ id ds, w.eventMap id = some ds →
        (∀ p, lastPointer ds = some p → PointsTo w.aData p id) ∧
        (w.Registered id → (lastPointer ds).isSome) := by
  obtain ⟨w, hrun, hinv⟩ := Run.foldlM_rel (System.step T) (fun _ _ => ()) (fun w _ => Inv w)
    (fun _ _ => True) (fun w _ op h _ => h.step op) (inv_start dirty)
    (Run.eachStep_true () ops)
  exact ⟨w, hrun, isSome_eventMap_iff hrun, fun id ds hds =>
    ⟨(hinv.told id ds hds).pointsTo, hinv.isSome hds⟩⟩

end System

end PCGForUnity
