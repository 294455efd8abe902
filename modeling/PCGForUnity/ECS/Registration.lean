/-
PCGForUnity/ECS/Registration.lean

`RegisterComponent` and `UnRegisterComponent` of a `SystemContainer`, down to the arrays of the
systems.  From a new system of a catalog on

    its components in use are those registered and not unregistered, in an array no longer
    than the most of them at a time   ↔   each call reaches the system

(`registered_iff`).

Design.  Both calls look for the system of a catalog in the container's list.  The `switch` of
`UnRegisterComponent` has no case for `INTERVAL_TIMER`, so the components of that catalog stay
for good, the timers of a destroyed `WorldSession` among them.  And a system that the list has
lost (see `SystemContainer`) gets no component and loses none.

`Registered` is the abstract state, a list of components and the longest it has been; a run
is compared with it after every prefix.  An id is registered once at a time (`Admits`).
-/
import PCGForUnity.ECS.SystemContainer
import PCGForUnity.ECS.System
import PCGForUnity.ECS.SlotReuse

namespace PCGForUnity

/-! ### The components in use -/

namespace StableArray

variable {α : Type} {T : ComponentClass α} {a a' : StableArray α} {c value : Component α}
  {pos : Nat}

/-- The components in use. -/
def live (a : StableArray α) : List (Component α) := a.data.filter fun c => decide c.Valid

theorem mem_live : c ∈ a.live ↔ ∃ pos, a.Live pos c := by
  rw [live, List.mem_filter, decide_eq_true_eq, List.mem_iff_getElem?]
  constructor
  · rintro ⟨⟨pos, hpos⟩, hv⟩
    exact ⟨pos, hpos, hv⟩
  · rintro ⟨pos, hpos, hv⟩
    exact ⟨⟨pos, hpos⟩, hv⟩

theorem Kept.length_live (h : a.Kept) : a.data.length = a.live.length + a.invalid.length := by
  rw [h.tombstones.length_eq, live, countValid, List.countP_eq_length_filter]

/-- The elements with a property, if one changes. -/
theorem perm_filter_set {β : Type} {p : β → Bool} {l : List β} {b b' : β}
    (hget : l[pos]? = some b) (hb : p b = false) (hb' : p b' = true) :
    ((l.set pos b').filter p).Perm (b' :: l.filter p) := by
  obtain ⟨hlt, rfl⟩ := List.getElem?_eq_some_iff.mp hget
  have hl : l = l.take pos ++ l[pos] :: l.drop (pos + 1) := by
    rw [List.cons_getElem_drop_succ, List.take_append_drop]
  have hset : l.set pos b' = l.take pos ++ b' :: l.drop (pos + 1) := List.set_eq_take_cons_drop b' hlt
  have hold : l.filter p = (l.take pos).filter p ++ (l.drop (pos + 1)).filter p := by
    conv_lhs => rw [hl]
    rw [List.filter_append, List.filter_cons_of_neg (by simp [hb])]
  rw [hset, List.filter_append, List.filter_cons_of_pos hb', hold]
  exact List.perm_middle

/-- `Add`: the value is in use beside the others, and the array gets longer only if all
its elements were in use. -/
theorem Kept.perm_add (T : ComponentClass α) (h : a.Kept) (hvalue : value.Valid) :
    ∃ a' p, a.add T value = some (a', p) ∧ a'.Kept ∧ a'.live.Perm (value :: a.live)
      ∧ a'.data.length ≤ max a.data.length (a.live.length + 1) := by
  obtain ⟨a', p, hrun, hkept, -⟩ := h.add T hvalue
  refine ⟨a', p, hrun, hkept, ?_⟩
  rcases add_cases T h.length_le (fun _ => h.wf.lt_of_mem) value with
    ⟨rest, pos, hrest, hadd⟩ | ⟨hnil, a'', hadd, hdata, -⟩
  · obtain ⟨rfl, rfl⟩ := Prod.mk.inj (Option.some.inj (hrun.symm.trans hadd))
    obtain ⟨c, hc, hno⟩ := (h.tombstones.mem_iff pos).mp (by rw [hrest]; simp)
    refine ⟨perm_filter_set hc (by simp [hno]) (by simp [hvalue]), ?_⟩
    show (a.data.set pos value).length ≤ _
    rw [List.length_set]
    exact Nat.le_max_left _ _
  · obtain ⟨rfl, rfl⟩ := Prod.mk.inj (Option.some.inj (hrun.symm.trans hadd))
    have hlen := h.length_live
    rw [hnil, List.length_nil, Nat.add_zero] at hlen
    refine ⟨?_, ?_⟩
    · rw [live, hdata, List.filter_append, List.filter_cons_of_pos (by simp [hvalue])]
      exact List.perm_append_singleton _ _
    · rw [hdata, List.length_append, hlen]
      exact Nat.le_max_right _ _

/-- `remove` of a component in use. -/
theorem Kept.perm_remove (h : a.Kept) (hlive : a.Live pos c) :
    ∃ a', a.remove pos = some a' ∧ a'.Kept ∧ a.live.Perm (c :: a'.live)
      ∧ a'.data.length = a.data.length := by
  obtain ⟨hget, hvalid⟩ := hlive
  obtain ⟨hlt, -⟩ := List.getElem?_eq_some_iff.mp hget
  obtain ⟨a', hrun, hkept, hlen, hlive'⟩ := h.remove hlt
  refine ⟨a', hrun, hkept, ?_, hlen⟩
  have heq := hrun
  rw [StableArray.remove, hget, Option.map_some, if_pos (by rw [hvalid]; rfl)] at heq
  obtain rfl := Option.some.inj heq
  have hmarked : ¬ (c.setInvalid true).Valid := fun hv =>
    ((hlive' pos _).mp ⟨List.getElem?_set_self hlt, hv⟩).2 rfl
  have hback : (a.data.set pos (c.setInvalid true)).set pos c = a.data := by
    rw [List.set_set, ← (List.getElem?_eq_some_iff.mp hget).2]
    exact List.set_getElem_self hlt
  have hperm : (((a.data.set pos (c.setInvalid true)).set pos c).filter fun c => decide c.Valid).Perm
      (c :: (a.data.set pos (c.setInvalid true)).filter fun c => decide c.Valid) :=
    perm_filter_set (List.getElem?_set_self hlt) (by simp [hmarked]) (by simp [hvalid])
  rw [hback] at hperm
  exact hperm

end StableArray

/-! ### What a system does -/

namespace System

variable {α : Type} {T : ComponentClass α} {s : System α} {com : Component α}

/-- `RegisterComponent` adds the component, and flushes the array if it has moved. -/
theorem registerComponent_spec (T : ComponentClass α) (h : s.aData.Kept) (hcom : com.Valid) :
    ∃ s', s.registerComponent T com = some s' ∧ s'.aData.Kept
      ∧ s'.aData.live.Perm (com :: s.aData.live)
      ∧ s'.aData.data.length ≤ max s.aData.data.length (s.aData.live.length + 1) := by
  obtain ⟨a', p, hadd, hkept, hperm, hlen⟩ := h.perm_add T hcom
  cases hdirty : a'.dirty with
  | true =>
      have hflush : a'.flush.Kept :=
        ⟨⟨hkept.tombstones.nodup, hkept.tombstones.mem_iff⟩, hkept.length_le, hkept.size_eq⟩
      refine ⟨⟨a'.flush, callAll a' s.eventMap⟩, ?_, hflush, hperm, hlen⟩
      simp only [registerComponent, hadd, Option.bind_eq_bind, Option.bind_some, hdirty, if_true]
  | false =>
      refine ⟨⟨a', callAll a' (call s.eventMap ⟨some p, com.getID, com.getCatalog⟩)⟩, ?_, hkept,
        hperm, hlen⟩
      simp only [registerComponent, hadd, Option.bind_eq_bind, Option.bind_some, hdirty,
        Bool.false_eq_true, if_false]

/-- `UnRegisterComponent` removes a component in use of the id, or there is none. -/
theorem unRegisterComponent_spec (h : s.aData.Kept) (componentId : UInt32) :
    (∃ c s', c ∈ s.aData.live ∧ c.getID = componentId
        ∧ s.unRegisterComponent componentId = some s' ∧ s'.aData.Kept
        ∧ s.aData.live.Perm (c :: s'.aData.live) ∧ s'.aData.data.length = s.aData.data.length)
      ∨ (∀ c ∈ s.aData.live, c.getID ≠ componentId)
        ∧ s.unRegisterComponent componentId = some s := by
  cases hfind : find s.aData componentId with
  | none =>
      refine Or.inr ⟨fun c hc hid => ?_, by rw [unRegisterComponent, hfind]⟩
      obtain ⟨pos, hlive⟩ := StableArray.mem_live.mp hc
      have hmem : (c, pos) ∈ slots s.aData componentId := mem_slots.mpr ⟨hlive, hid⟩
      obtain ⟨hzip, hpred⟩ := List.mem_filter.mp hmem
      exact List.find?_eq_none.mp hfind _ hzip hpred
  | some slot =>
      obtain ⟨c, pos⟩ := slot
      have hpred := List.find?_some hfind
      have hmem : (c, pos) ∈ slots s.aData componentId :=
        List.mem_filter.mpr ⟨List.mem_of_find?_eq_some hfind, hpred⟩
      obtain ⟨hlive, hid⟩ := mem_slots.mp hmem
      obtain ⟨a', hremove, hkept, hperm, hlen⟩ := h.perm_remove hlive
      refine Or.inl ⟨c, ⟨a', callAll a' (call s.eventMap ⟨none, componentId, c.getCatalog⟩)⟩,
        StableArray.mem_live.mpr ⟨pos, hlive⟩, hid, ?_, hkept, hperm, hlen⟩
      rw [unRegisterComponent, hfind]
      simp only [hremove, Option.bind_eq_bind, Option.bind_some]

theorem exists_unRegisterComponent (s : System α) (componentId : UInt32) :
    ∃ s', s.unRegisterComponent componentId = some s' := by
  cases hfind : find s.aData componentId with
  | none => exact ⟨s, by rw [unRegisterComponent, hfind]⟩
  | some slot =>
      obtain ⟨c, pos⟩ := slot
      have hmem := List.mem_of_find?_eq_some hfind
      have hget : s.aData.data[pos]? = some c := List.mem_zipIdx_iff_getElem?.mp hmem
      rw [unRegisterComponent, hfind]
      simp only [StableArray.remove, hget, Option.map_some, Option.bind_eq_bind, Option.bind_some]
      exact ⟨_, rfl⟩

end System

/-! ### The container as coded -/

/-- A `SystemContainer` with the data of its systems, in the order they were created. -/
structure EcsContainer (α : Type) where
  container : SystemContainer
  data : List (System α)

namespace EcsContainer

variable {α : Type}

/-- `AddSystem`, with the value that the array of a new system leaves unset. -/
def addSystem (e : EcsContainer α) (catalog : SystemCatalog) (priority : Int) (dirty : Bool) :
    Option (EcsContainer α × Bool) := do
  let (container, ret) ← e.container.addSystem catalog priority
  some ({ container, data := if ret then e.data ++ [.empty dirty] else e.data }, ret)

/-- The system that a loop over the list stops at. -/
def lookup (c : SystemContainer) (stop : Addr → Bool) : Option (Option Addr) := do
  match ← c.lSystem.findIter stop with
  | none => some none
  | some itr => do
      let node ← c.lSystem.heap itr
      some (some node.val.data)

/-- The first system of a catalog; its class is that of the catalog. -/
def getSystem (c : SystemContainer) (catalog : SystemCatalog) : Option (Option Addr) :=
  lookup c (c.hasCatalog catalog)

/-- A function of the system that was found. -/
def onSystem (e : EcsContainer α) (found : Option Addr) (f : System α → Option (System α)) :
    Option (EcsContainer α) :=
  match found with
  | none => some e
  | some d => do
      let sys ← e.data[d]?
      let sys ← f sys
      some { e with data := e.data.set d sys }

/-- `RegisterComponent` of a component of the class of the catalog. -/
def registerComponent (T : SystemCatalog → ComponentClass α) (e : EcsContainer α)
    (com : Component α) (catalog : SystemCatalog) : Option (EcsContainer α) := do
  let found ← getSystem e.container catalog
  e.onSystem found fun sys => sys.registerComponent (T catalog) com

/-- The catalogs that the `switch` of `UnRegisterComponent` has a case for. -/
def unRegisters : SystemCatalog → Bool
  | .movement | .status => true
  | _ => false

/-- `UnRegisterComponent`: a system that the `switch` has no case for is passed by. -/
def unRegisterComponent (e : EcsContainer α) (componentId : UInt32) (catalog : SystemCatalog) :
    Option (EcsContainer α) := do
  let found ← lookup e.container fun d => e.container.hasCatalog catalog d && unRegisters catalog
  e.onSystem found fun sys => sys.unRegisterComponent componentId

/-- `RegisterComponentChangeEvent` of the system of a catalog. -/
def registerComponentChangeEvent (e : EcsContainer α) (componentId : UInt32)
    (catalog : SystemCatalog) : Option (EcsContainer α) := do
  let found ← getSystem e.container catalog
  e.onSystem found fun sys => some (sys.registerComponentChangeEvent componentId)

/-- `UnRegisterComponentChangeEvent` of the system of a catalog. -/
def unRegisterComponentChangeEvent (e : EcsContainer α) (componentId : UInt32)
    (catalog : SystemCatalog) : Option (EcsContainer α) := do
  let found ← getSystem e.container catalog
  e.onSystem found fun sys => some (sys.unRegisterComponentChangeEvent componentId)

/-! ### Runs in one catalog -/

/-- The calls in a catalog. -/
inductive Op (α : Type)
  | registerComponent (com : Component α)
  | unRegisterComponent (componentId : UInt32)

/-- An operation on the system of `catalog`. -/
def step (T : SystemCatalog → ComponentClass α) (catalog : SystemCatalog) (e : EcsContainer α) :
    Op α → Option (EcsContainer α)
  | .registerComponent com => e.registerComponent T com catalog
  | .unRegisterComponent componentId => e.unRegisterComponent componentId catalog

/-- The components registered and not yet unregistered, and the most that there were of
them at a time. -/
structure Registered (α : Type) where
  components : List (Component α)
  most : Nat

namespace Registered

/-- Nothing is registered. -/
def start : Registered α := { components := [], most := 0 }

/-- The ids of the components that are registered, the last first. -/
def ids (a : Registered α) : List UInt32 := a.components.map fun c => c.getID

/-- What an operation does to the components that are registered. -/
def step (a : Registered α) : Op α → Registered α
  | .registerComponent com =>
      { components := com :: a.components, most := max a.most (a.components.length + 1) }
  | .unRegisterComponent componentId =>
      { a with components := a.components.filter fun c => decide (c.getID ≠ componentId) }

/-- A component is registered as its class makes it, valid, and with an id that no other
has. -/
def Admits (a : Registered α) : Op α → Prop
  | .registerComponent com => com.Valid ∧ com.getID ∉ a.ids
  | .unRegisterComponent _ => True

/-- Where a call does to the system `d` of a catalog what it should.  A registration has
to find it, and so has the removal of a component, in a catalog that the `switch` knows.
Where there is nothing to remove, the loop over the list has to end. -/
def Reaches (c : SystemContainer) (catalog : SystemCatalog) (d : Addr) (a : Registered α) :
    Op α → Prop
  | .registerComponent _ => getSystem c catalog = some (some d)
  | .unRegisterComponent componentId =>
      if componentId ∈ a.ids then unRegisters catalog = true ∧ getSystem c catalog = some (some d)
      else lookup c (fun d => c.hasCatalog catalog d && unRegisters catalog) ≠ none

instance (c : SystemContainer) (catalog : SystemCatalog) (d : Addr) (a : Registered α) :
    (op : Op α) → Decidable (a.Reaches c catalog d op)
  | .registerComponent _ => inferInstanceAs (Decidable (_ = _))
  | .unRegisterComponent _ => inferInstanceAs (Decidable (ite _ _ _))

end Registered

/-- The components in use of the system `d` are the registered ones, and its array is
no longer than the most that there were. -/
def HoldsRegistered (d : Addr) (o : Option (EcsContainer α)) (a : Registered α) : Prop :=
  ∃ e sys, o = some e ∧ e.data[d]? = some sys ∧ sys.aData.live.Perm a.components
    ∧ sys.aData.data.length ≤ a.most

/-- What such runs keep. -/
structure Inv (c : SystemContainer) (d : Addr) (e : EcsContainer α) (a : Registered α) : Prop where
  container : e.container = c
  length_eq : e.data.length = c.systems.length
  sys : ∃ sys, e.data[d]? = some sys ∧ sys.aData.Kept ∧ sys.aData.live.Perm a.components
    ∧ sys.aData.data.length ≤ a.most
  nodup : a.ids.Nodup
  length_le : a.components.length ≤ a.most

variable {T : SystemCatalog → ComponentClass α} {c : SystemContainer} {catalog : SystemCatalog}
  {d : Addr} {e e' : EcsContainer α} {a : Registered α} {op : Op α}

/-- What a search finds is an object that it stops at. -/
theorem stop_of_lookup {stop : Addr → Bool} {d : Addr} (h : lookup c stop = some (some d)) :
    stop d = true := by
  obtain ⟨itr?, hfind, hrest⟩ := Option.bind_eq_some_iff.mp h
  rcases itr? with - | itr
  · exact nomatch hrest
  · obtain ⟨node, hnode, hd⟩ := Option.bind_eq_some_iff.mp hrest
    obtain ⟨⟨itr', p⟩, hscan, hitr⟩ := Option.map_eq_some_iff.mp hfind
    obtain rfl : itr' = some itr := hitr
    obtain ⟨node', hnode', hstop⟩ := Heap.stop_of_scan hscan
    rw [hnode] at hnode'
    obtain rfl := Option.some.inj hnode'
    exact Option.some.inj (Option.some.inj hd) ▸ hstop

/-- The two searches of `UnRegisterComponent` and `RegisterComponent` agree where the
`switch` has a case, and otherwise that of `UnRegisterComponent` finds nothing. -/
theorem lookup_unRegisters (h : unRegisters catalog = true) :
    lookup c (fun d => c.hasCatalog catalog d && unRegisters catalog) = getSystem c catalog := by
  rw [getSystem]
  congr 1
  funext d
  rw [h, Bool.and_true]

theorem found_of_lookup {found : Addr}
    (h : lookup c (fun d => c.hasCatalog catalog d && unRegisters catalog) = some (some found)) :
    unRegisters catalog = true ∧ getSystem c catalog = some (some found) := by
  have hstop := stop_of_lookup h
  rw [Bool.and_eq_true] at hstop
  exact ⟨hstop.2, by rw [← lookup_unRegisters hstop.2, h]⟩

theorem lt_of_hasCatalog (h : c.hasCatalog catalog d = true) : d < c.systems.length := by
  rw [SystemContainer.hasCatalog] at h
  by_contra hlt
  rw [List.getElem?_eq_none (Nat.not_lt.mp hlt)] at h
  exact Bool.false_ne_true h

/-- Another system than the one that is found stays as it is. -/
theorem data_of_onSystem {found : Option Addr} {f : System α → Option (System α)}
    (hne : found ≠ some d) (h : e.onSystem found f = some e') :
    e'.container = e.container ∧ e'.data.length = e.data.length ∧ e'.data[d]? = e.data[d]? := by
  rcases found with - | d'
  · obtain rfl := Option.some.inj h
    exact ⟨rfl, rfl, rfl⟩
  · obtain ⟨sys, -, hrest⟩ := Option.bind_eq_some_iff.mp h
    obtain ⟨sys', -, hset⟩ := Option.bind_eq_some_iff.mp hrest
    obtain rfl := Option.some.inj hset
    have hd : d' ≠ d := fun heq => hne (congrArg some heq)
    exact ⟨rfl, List.length_set, List.getElem?_set_ne hd⟩

theorem Inv.registerComponent (h : Inv c d e a) {com : Component α}
    (hadm : a.Admits (.registerComponent com)) (hfind : getSystem c catalog = some (some d)) :
    ∃ e', e.registerComponent T com catalog = some e'
      ∧ Inv c d e' (a.step (.registerComponent com)) := by
  obtain ⟨sys, hsys, hkept, hperm, hlen⟩ := h.sys
  obtain ⟨sys', hrun, hkept', hperm', hlen'⟩ :=
    System.registerComponent_spec (T catalog) hkept hadm.1
  have hlt : d < e.data.length := (List.getElem?_eq_some_iff.mp hsys).1
  refine ⟨{ e with data := e.data.set d sys' }, ?_, h.container, ?_, ?_, ?_, ?_⟩
  · simp only [EcsContainer.registerComponent, h.container, hfind, Option.bind_eq_bind,
      Option.bind_some, onSystem, hsys, hrun]
  · rw [← h.length_eq]
    exact List.length_set
  · refine ⟨sys', List.getElem?_set_self hlt, hkept', hperm'.trans (hperm.cons com), ?_⟩
    show _ ≤ max a.most (a.components.length + 1)
    rw [← hperm.length_eq]
    omega
  · exact List.nodup_cons.mpr ⟨hadm.2, h.nodup⟩
  · exact Nat.le_max_right _ _

/-- What is left of the registered components without one of them. -/
theorem perm_filter_of_perm_cons {c : Component α} {l l' : List (Component α)}
    (hnodup : (l.map fun c => c.getID).Nodup) (hperm : (c :: l').Perm l) :
    l'.Perm (l.filter fun x => decide (x.getID ≠ c.getID)) := by
  have hids : ((c :: l').map fun c => c.getID).Nodup := (hperm.map _).nodup_iff.mpr hnodup
  have hnot := (List.nodup_cons.mp hids).1
  have hfilter := hperm.filter fun x => decide (x.getID ≠ c.getID)
  rw [List.filter_cons_of_neg (by simp), List.filter_eq_self.mpr] at hfilter
  · exact hfilter
  · intro x hx
    have hmem : x.getID ∈ l'.map fun c => c.getID := List.mem_map_of_mem hx
    have hne : x.getID ≠ c.getID := by
      intro heq
      rw [heq] at hmem
      exact hnot hmem
    simpa using hne

theorem mem_ids {componentId : UInt32} :
    componentId ∈ a.ids ↔ ∃ c ∈ a.components, c.getID = componentId := List.mem_map

theorem Inv.nodup_filter (h : Inv c d e a) (componentId : UInt32) :
    (a.step (.unRegisterComponent componentId)).ids.Nodup :=
  (List.filter_sublist.map _).nodup h.nodup

theorem Inv.unRegisterComponent (h : Inv c d e a) {componentId : UInt32}
    (hmem : componentId ∈ a.ids) (hswitch : unRegisters catalog = true)
    (hfind : getSystem c catalog = some (some d)) :
    ∃ e', e.unRegisterComponent componentId catalog = some e'
      ∧ Inv c d e' (a.step (.unRegisterComponent componentId)) := by
  obtain ⟨sys, hsys, hkept, hperm, hlen⟩ := h.sys
  have hlt : d < e.data.length := (List.getElem?_eq_some_iff.mp hsys).1
  rcases System.unRegisterComponent_spec hkept componentId with
    ⟨com, sys', hcom, rfl, hrun, hkept', hperm', hlen'⟩ | ⟨hnone, -⟩
  · refine ⟨{ e with data := e.data.set d sys' }, ?_, h.container, ?_, ?_, h.nodup_filter _, ?_⟩
    · simp only [EcsContainer.unRegisterComponent, h.container, lookup_unRegisters hswitch, hfind,
        Option.bind_eq_bind, Option.bind_some, onSystem, hsys, hrun]
    · rw [← h.length_eq]
      exact List.length_set
    · refine ⟨sys', List.getElem?_set_self hlt, hkept', ?_, by rw [hlen']; exact hlen⟩
      exact perm_filter_of_perm_cons h.nodup (hperm'.symm.trans hperm)
    · exact Nat.le_trans (List.length_filter_le _ _) h.length_le
  · obtain ⟨com, hcom, hid⟩ := mem_ids.mp hmem
    exact absurd hid (hnone com (hperm.mem_iff.mpr hcom))

/-- There is nothing to remove, in whatever system the loop finds. -/
theorem Inv.unRegisterComponent_absent (h : Inv c d e a) {componentId : UInt32}
    (hmem : componentId ∉ a.ids)
    (hend : lookup c (fun d => c.hasCatalog catalog d && unRegisters catalog) ≠ none) :
    ∃ e', e.unRegisterComponent componentId catalog = some e'
      ∧ Inv c d e' (a.step (.unRegisterComponent componentId)) := by
  have hsame : a.components.filter (fun c => decide (c.getID ≠ componentId)) = a.components := by
    refine List.filter_eq_self.mpr fun x hx => ?_
    have hne : x.getID ≠ componentId := fun heq => hmem (mem_ids.mpr ⟨x, hx, heq⟩)
    simpa using hne
  have hinv : ∀ e', e'.container = c → e'.data.length = e.data.length →
      e'.data[d]? = e.data[d]? → Inv c d e' (a.step (.unRegisterComponent componentId)) := by
    intro e' hc hlen hd
    refine ⟨hc, by rw [hlen, h.length_eq], ?_, h.nodup_filter _, ?_⟩
    · rw [hd, Registered.step, hsame]
      exact h.sys
    · rw [Registered.step, hsame]
      exact h.length_le
  obtain ⟨found, hfound⟩ := Option.ne_none_iff_exists'.mp hend
  have hrun : e.unRegisterComponent componentId catalog
      = e.onSystem found fun sys => sys.unRegisterComponent componentId := by
    rw [EcsContainer.unRegisterComponent, h.container, hfound, Option.bind_eq_bind,
      Option.bind_some]
  rw [hrun]
  rcases found with - | d'
  · exact ⟨e, rfl, hinv e h.container rfl rfl⟩
  · have hlt : d' < e.data.length := by
      have hstop := stop_of_lookup hfound
      rw [Bool.and_eq_true] at hstop
      rw [h.length_eq]
      exact lt_of_hasCatalog hstop.1
    have hsys' : e.data[d']? = some e.data[d'] := List.getElem?_eq_getElem hlt
    -- the system that the loop stops at is this one or another
    by_cases hd : d' = d
    · subst hd
      obtain ⟨sys, hsys, hkept, hperm, -⟩ := h.sys
      rcases System.unRegisterComponent_spec hkept componentId with
        ⟨com, -, hcom, hid, -⟩ | ⟨-, hnone⟩
      · exact absurd (mem_ids.mpr ⟨com, hperm.mem_iff.mp hcom, hid⟩) hmem
      · refine ⟨{ e with data := e.data.set d' sys }, ?_, hinv _ h.container List.length_set ?_⟩
        · simp only [onSystem, hsys, hnone, Option.bind_eq_bind, Option.bind_some]
        · rw [hsys]
          exact List.getElem?_set_self hlt
    · obtain ⟨sys', hrun'⟩ := System.exists_unRegisterComponent e.data[d'] componentId
      refine ⟨{ e with data := e.data.set d' sys' }, ?_, hinv _ h.container List.length_set ?_⟩
      · simp only [onSystem, hsys', hrun', Option.bind_eq_bind, Option.bind_some]
      · exact List.getElem?_set_ne hd

theorem Inv.holds (h : Inv c d e a) : HoldsRegistered d (some e) a := by
  obtain ⟨sys, hsys, -, hperm, hlen⟩ := h.sys
  exact ⟨e, sys, rfl, hsys, hperm, hlen⟩

/-- With the system as it was, the components are as many as before. -/
theorem Inv.length_of_data (h : Inv c d e a) {a' : Registered α} (hd : e'.data[d]? = e.data[d]?)
    (hholds : HoldsRegistered d (some e') a') : a'.components.length = a.components.length := by
  obtain ⟨sys, hsys, -, hperm, -⟩ := h.sys
  obtain ⟨e'', sys', he, hsys', hperm', -⟩ := hholds
  obtain rfl := Option.some.inj he
  rw [hd, hsys] at hsys'
  obtain rfl := Option.some.inj hsys'
  rw [← hperm'.length_eq, ← hperm.length_eq]

theorem Inv.step (h : Inv c d e a) (hadm : a.Admits op) (hop : a.Reaches c catalog d op) :
    ∃ e', step T catalog e op = some e' ∧ Inv c d e' (a.step op) := by
  cases op with
  | registerComponent com => exact h.registerComponent hadm hop
  | unRegisterComponent componentId =>
      rw [Registered.Reaches] at hop
      by_cases hmem : componentId ∈ a.ids
      · rw [if_pos hmem] at hop
        exact h.unRegisterComponent hmem hop.1 hop.2
      · rw [if_neg hmem] at hop
        exact h.unRegisterComponent_absent hmem hop

/-- Where a call does not reach the system, the component is not added or not removed. -/
theorem Inv.not_holds (h : Inv c d e a) (hop : ¬ a.Reaches c catalog d op) :
    ¬ HoldsRegistered d (EcsContainer.step T catalog e op) (a.step op) := by
  intro hholds
  obtain ⟨e', -, hrun, -⟩ := id hholds
  rw [hrun] at hholds
  cases op with
  | registerComponent com =>
      obtain ⟨found, hfound, hon⟩ := Option.bind_eq_some_iff.mp hrun
      rw [h.container] at hfound
      have hne : found ≠ some d := by
        rintro rfl
        exact hop hfound
      have hlen := h.length_of_data (data_of_onSystem hne hon).2.2 hholds
      exact absurd hlen (Nat.succ_ne_self _)
  | unRegisterComponent componentId =>
      obtain ⟨found, hfound, hon⟩ := Option.bind_eq_some_iff.mp hrun
      rw [h.container] at hfound
      rw [Registered.Reaches] at hop
      by_cases hmem : componentId ∈ a.ids
      · rw [if_pos hmem] at hop
        have hne : found ≠ some d := fun heq => hop (found_of_lookup (heq ▸ hfound))
        have hlen := h.length_of_data (data_of_onSystem hne hon).2.2 hholds
        obtain ⟨com, hcom, hid⟩ := mem_ids.mp hmem
        have hlt : (a.components.filter fun c => decide (c.getID ≠ componentId)).length
            < a.components.length := List.length_filter_lt_length_iff_exists.mpr
          ⟨com, hcom, by simp [hid]⟩
        exact absurd hlen (Nat.ne_of_lt hlt)
      · rw [if_neg hmem] at hop
        exact hop fun hnone => by rw [hnone] at hfound; exact nomatch hfound

/-- A system of a catalog, as `AddSystem` makes it. -/
structure NewSystem (e : EcsContainer α) (catalog : SystemCatalog) (d : Addr) : Prop where
  catalog : e.container.hasCatalog catalog d = true
  length_eq : e.data.length = e.container.systems.length
  sys : ∃ dirty, e.data[d]? = some (.empty dirty)

/-- **Exactness of registration.**  From a new system of a catalog on, its components in
use are those registered and not unregistered, in an array no longer than the most of
them at a time, exactly when each call reaches the system. -/
theorem registered_iff (T : SystemCatalog → ComponentClass α) (h : NewSystem e catalog d)
    (ops : List (Op α))
    (hadm : Run.EachStep Registered.step Registered.Admits Registered.start ops) :
    (∀ pre, pre <+: ops → HoldsRegistered d (pre.foldlM (EcsContainer.step T catalog) e)
        (pre.foldl Registered.step Registered.start))
      ↔ Run.EachStep Registered.step (fun a op => a.Reaches e.container catalog d op)
        Registered.start ops := by
  refine Run.forall_prefix_good_iff (EcsContainer.step T catalog) Registered.step
    (Inv e.container d) Registered.Admits _ (HoldsRegistered d) (fun _ _ h => h.holds)
    (fun _ _ _ h hadm hop => h.step hadm hop) (fun _ _ _ h _ hop => h.not_holds hop) ?_ hadm
  obtain ⟨dirty, hsys⟩ := h.sys
  exact ⟨rfl, h.length_eq, ⟨_, hsys, StableArray.kept_empty dirty, List.Perm.refl _,
    Nat.le_refl _⟩, List.nodup_nil, Nat.le_refl _⟩

/-! ### Systems that are reached -/

/-- `AddSystem` makes a new system of the catalog. -/
theorem newSystem_of_addSystem {priority : Int} {dirty : Bool}
    (hlen : e.data.length = e.container.systems.length)
    (h : e.addSystem catalog priority dirty = some (e', true)) :
    NewSystem e' catalog e.container.systems.length := by
  obtain ⟨⟨container, ret⟩, hadd, hres⟩ := Option.bind_eq_some_iff.mp h
  obtain ⟨rfl, rfl⟩ := Prod.mk.inj (Option.some.inj hres)
  obtain ⟨found, -, hfound⟩ := Option.bind_eq_some_iff.mp hadd
  have hsystems : container.systems = e.container.systems ++ [⟨catalog, priority, true⟩] := by
    rcases found with - | itr
    · cases catalog with
      | other value => exact nomatch (Prod.mk.inj (Option.some.inj hfound)).2
      | _ =>
          obtain ⟨lSystem, -, hcontainer⟩ := Option.bind_eq_some_iff.mp hfound
          rw [← (Prod.mk.inj (Option.some.inj hcontainer)).1]
    · exact nomatch (Prod.mk.inj (Option.some.inj hfound)).2
  refine ⟨?_, ?_, dirty, ?_⟩
  · rw [SystemContainer.hasCatalog, hsystems, List.getElem?_concat_length]
    simp
  · show (e.data ++ [System.empty dirty]).length = container.systems.length
    rw [hsystems, List.length_append, List.length_append, hlen]
    rfl
  · show (e.data ++ [System.empty dirty])[e.container.systems.length]? = _
    rw [← hlen, List.getElem?_concat_length]

section Holds

variable {spec : SystemContainer.Spec}

theorem getSystem_of_holds (hc : c.Holds spec) (hcat : c.hasCatalog catalog d = true) :
    getSystem c catalog = some (some d) := by
  have hd := hc.hasCatalog_iff.mp hcat
  rcases hc.findIter catalog with ⟨pos, entry, n, hf, hcell, hidx, -⟩ | ⟨-, -, habsent⟩
  · rw [List.findIdx?_eq_some_iff_getElem] at hidx
    obtain ⟨hlt, heq, -⟩ := hidx
    obtain ⟨hlt', hget⟩ := List.getElem?_eq_some_iff.mp hd
    have hsame : spec.catalogs[entry.data] = spec.catalogs[d] := by
      rw [hget]
      exact of_decide_eq_true heq
    obtain rfl := (List.Nodup.getElem_inj_iff hc.nodup).mp hsame
    rw [getSystem, lookup, hf]
    simp only [Option.bind_eq_bind, Option.bind_some, hcell]
    rfl
  · exact absurd (List.mem_of_getElem? hd) habsent

/-- In a container that holds its systems every call reaches the system of a catalog, but
the removal of a component in a catalog that the `switch` does not know. -/
theorem reaches_iff (hc : c.Holds spec) (hcat : c.hasCatalog catalog d = true) :
    a.Reaches c catalog d op ↔ ∀ componentId ∈ a.ids,
      op = .unRegisterComponent componentId → unRegisters catalog = true := by
  have hfind := getSystem_of_holds hc hcat
  cases op with
  | registerComponent com =>
      exact iff_of_true hfind fun _ _ heq => nomatch heq
  | unRegisterComponent componentId =>
      rw [Registered.Reaches]
      by_cases hmem : componentId ∈ a.ids
      · rw [if_pos hmem, and_iff_left hfind]
        constructor
        · exact fun h _ _ _ => h
        · exact fun h => h componentId hmem rfl
      · rw [if_neg hmem]
        refine iff_of_true ?_ ?_
        · rw [lookup]
          rcases hc.inOrder.findIter fun d => c.hasCatalog catalog d && unRegisters catalog with
            ⟨pos, entry, n, hf, hcell, -⟩ | ⟨hf, -⟩
          · rw [hf]
            simp only [Option.bind_eq_bind, Option.bind_some, hcell]
            exact nofun
          · rw [hf]
            exact nofun
        · rintro id hid ⟨⟩
          exact absurd hid hmem

end Holds

/-! ### The timers of a session -/

/-- `WorldSession::Initilize`, with the ids that the generator gave it. -/
def initilize (T : SystemCatalog → ComponentClass α) (e : EcsContainer α)
    (timer heartBeatTimer : Component α) : Option (EcsContainer α) := do
  let e ← e.registerComponentChangeEvent timer.getID .intervalTimer
  let e ← e.registerComponent T timer .intervalTimer
  let e ← e.registerComponentChangeEvent heartBeatTimer.getID .intervalTimer
  e.registerComponent T heartBeatTimer .intervalTimer

/-- The pointer that a session was told for a timer: `m_pTimer` and `m_pHeatBeatTimer`. -/
def timerPointer (e : EcsContainer α) (timerId : UInt32) : Option (System α × SlotPtr) := do
  let d ← (getSystem e.container .intervalTimer).join
  let sys ← e.data[d]?
  let ds ← sys.eventMap timerId
  let p ← System.lastPointer ds
  some (sys, p)

/-- What the destructor does for one of its timers, if it has the pointer. -/
def destroyTimer (e : EcsContainer α) (timerId : UInt32) : Option (EcsContainer α) :=
  match e.timerPointer timerId with
  | none => some e
  | some (sys, p) => do
      let timer ← sys.aData.data[p.index]?
      let e ← e.unRegisterComponentChangeEvent timer.getID .intervalTimer
      e.unRegisterComponent timer.getID .intervalTimer

/-- `~WorldSession`, for the timers. -/
def destroy (e : EcsContainer α) (timerId heartBeatTimerId : UInt32) :
    Option (EcsContainer α) := do
  let e ← e.destroyTimer timerId
  e.destroyTimer heartBeatTimerId

/-- The arrays of the systems. -/
def arrays (e : EcsContainer α) : List (StableArray α) := e.data.map System.aData

theorem arrays_of_onSystem {found : Option Addr} {f : System α → Option (System α)}
    (hf : ∀ s s', f s = some s' → s'.aData = s.aData) (h : e.onSystem found f = some e') :
    e'.arrays = e.arrays := by
  rcases found with - | d
  · obtain rfl := Option.some.inj h
    rfl
  · obtain ⟨sys, hsys, hrest⟩ := Option.bind_eq_some_iff.mp h
    obtain ⟨sys', hrun, hset⟩ := Option.bind_eq_some_iff.mp hrest
    obtain rfl := Option.some.inj hset
    show (e.data.set d sys').map System.aData = e.data.map System.aData
    obtain ⟨hlt, rfl⟩ := List.getElem?_eq_some_iff.mp hsys
    have hmap : d < (e.data.map System.aData).length := by
      rw [List.length_map]
      exact hlt
    have hget : (e.data.map System.aData)[d] = e.data[d].aData := List.getElem_map System.aData
    rw [List.map_set, hf _ _ hrun, ← hget, List.set_getElem_self hmap]

/-- `UnRegisterComponent` in a catalog that the `switch` does not know. -/
theorem arrays_of_unRegisterComponent {componentId : UInt32} (hno : unRegisters catalog = false)
    (h : e.unRegisterComponent componentId catalog = some e') : e'.arrays = e.arrays := by
  obtain ⟨found, hfound, hon⟩ := Option.bind_eq_some_iff.mp h
  rcases found with - | d'
  · obtain rfl := Option.some.inj hon
    rfl
  · have hswitch := (found_of_lookup hfound).1
    rw [hno] at hswitch
    exact nomatch hswitch

theorem arrays_of_destroyTimer {timerId : UInt32} (h : e.destroyTimer timerId = some e') :
    e'.arrays = e.arrays := by
  rw [destroyTimer] at h
  split at h
  · obtain rfl := Option.some.inj h
    rfl
  · obtain ⟨timer, -, hrest⟩ := Option.bind_eq_some_iff.mp h
    obtain ⟨e₁, hevent, hun⟩ := Option.bind_eq_some_iff.mp hrest
    obtain ⟨found, -, hon⟩ := Option.bind_eq_some_iff.mp hevent
    rw [arrays_of_unRegisterComponent rfl hun, arrays_of_onSystem ?_ hon]
    intro s s' hs
    obtain rfl := Option.some.inj hs
    rfl

/-- The destructor of a session leaves every array as it is, with the timers. -/
theorem arrays_of_destroy {timerId heartBeatTimerId : UInt32}
    (h : e.destroy timerId heartBeatTimerId = some e') : e'.arrays = e.arrays := by
  obtain ⟨e₁, h₁, h₂⟩ := Option.bind_eq_some_iff.mp h
  rw [arrays_of_destroyTimer h₂, arrays_of_destroyTimer h₁]

/-! ### Two containers -/

/-- Component classes without members of their own. -/
def bare (_ : SystemCatalog) : ComponentClass Unit := ⟨24, ⟨.new 0, ()⟩⟩

/-- A new container with one system of a catalog. -/
def single (catalog : SystemCatalog) : Option (EcsContainer Unit) :=
  (addSystem ⟨.empty, []⟩ catalog 0 false).map Prod.fst

/-- In the catalog `MOVEMENT` a component is registered and unregistered. -/
theorem registered_iff_of_movement :
    ∃ e, single .movement = some e ∧
      ∀ pre, pre <+: [Op.registerComponent ⟨.new 7, ()⟩, .unRegisterComponent 7] →
        HoldsRegistered 0 (pre.foldlM (EcsContainer.step bare .movement) e)
          (pre.foldl Registered.step Registered.start) := by
  refine ⟨_, rfl, ?_⟩
  refine (registered_iff bare ⟨rfl, rfl, false, rfl⟩ _ ?_).mpr ?_
  · exact ⟨⟨rfl, by decide⟩, trivial, trivial⟩
  · decide

/-- In the catalog `INTERVAL_TIMER` it stays, and so do the two timers of a session that
is destroyed. -/
theorem timers_stay :
    (∃ e, single .intervalTimer = some e ∧
      ¬ HoldsRegistered 0
        ([Op.registerComponent ⟨.new 7, ()⟩, .unRegisterComponent 7].foldlM
          (EcsContainer.step bare .intervalTimer) e)
        ([Op.registerComponent ⟨.new 7, ()⟩, .unRegisterComponent 7].foldl Registered.step
          Registered.start)) ∧
      (do
        let e ← single .intervalTimer
        let e ← e.initilize bare ⟨.new 0, ()⟩ ⟨.new 1, ()⟩
        let e ← e.destroy 0 1
        some (e.arrays.map StableArray.live)) = some [[⟨.new 0, ()⟩, ⟨.new 1, ()⟩]] := by
  constructor
  · refine ⟨_, rfl, ?_⟩
    rintro ⟨e, sys, hrun, hsys, hperm, -⟩
    have hlive : sys.aData.live = [⟨.new 7, ()⟩] := by
      obtain rfl := Option.some.inj hrun
      obtain rfl := Option.some.inj hsys
      decide
    rw [hlive] at hperm
    exact absurd hperm.length_eq (by decide)
  · decide

end EcsContainer

end PCGForUnity
