/-
PCGForUnity/Server/SessionTimers.lean

The two timers of a `WorldSession` (`WorldSession.cpp`): components of the `Sys_IntervalTimer`
of the world, which the session reaches through the pointers its callback was last given.

Design.  `Timers` is the system with its array (`ECS/StableArray`) and, for each session, the
pointers and ids that it holds.  A callback is told by the session it belongs to, because all
it does is to store a pointer.  A pointer to a slot that moved has no value, so a step through
one has no result.

`SystemContainer::UnRegisterComponent` does nothing for these components, so no slot is ever
given up and no callback is given a null pointer.  That is why the `i`-th timer that was made
has the id `i` and the slot `i`, and is the timer of the session `i / 2` (`Registered`).

Left out: the other systems, of which the world has none, and the destructor of a session,
which takes back its own callbacks only.  What a session sends is told by a count.
-/
import PCGForUnity.ECS.StableArray
import PCGForUnity.Server.World

namespace PCGForUnity

namespace IComponent

/-- `IsDirty` -/
def isDirty (c : IComponent) : Bool := c.flags &&& 0x1 != 0

/-- `SetDirty` -/
def setDirty (c : IComponent) (dirty : Bool) : IComponent :=
  if dirty then { c with flags := c.flags ||| 1 } else { c with flags := c.flags &&& 0xfffffffe }

end IComponent

/-- The members of `IntervalTimer`. -/
structure IntervalTimer where
  interval : ℤ
  current : ℤ
deriving DecidableEq, Repr

namespace IntervalTimer

/-- `IntervalTimer(uint32_t id)` -/
def new (id : UInt32) : Component IntervalTimer :=
  { (IComponent.new id).setCatalog .intervalTimer with members := ⟨0, 0⟩ }

/-- `IntervalTimer()`.  The members it leaves unset are assigned before they are read. -/
def timerClass : ComponentClass IntervalTimer := { sizeofT := 24, new := new 0 }

/-- `Passed` -/
def passed (t : IntervalTimer) : Bool := decide (t.current ≥ t.interval)

/-- `Reset` -/
def reset (c : Component IntervalTimer) : Component IntervalTimer :=
  let current :=
    if c.members.current ≥ c.members.interval then c.members.current.tmod c.members.interval
    else c.members.current
  { c.toIComponent.setDirty true with members := { c.members with current } }

end IntervalTimer

/-- The members of `WorldSession` that its timers use. -/
structure SessionTimers where
  timer : Option SlotPtr
  timerId : UInt32
  heartBeatTimer : Option SlotPtr
  heartBeatTimerId : UInt32
  heartBeats : ℕ
deriving DecidableEq, Repr

/-- `Sys_IntervalTimer` and the sessions, told by their addresses, which its callbacks belong to.
`nextId` is the `_current` of `ComponentIDGenerator`. -/
structure Timers where
  aData : StableArray IntervalTimer
  eventMap : UInt32 → Option ℕ
  nextId : UInt32
  session : ℕ → SessionTimers

namespace Timers

/-- The interval of the timer that the session is updated by. -/
def worldSessionUpdateInterval : ℤ := 50

/-- The interval of the heartbeat. -/
def heartBeatInterval : ℤ := 6000

/-- The system before any session, with the value its array leaves unset. -/
def create (dirty : Bool) : Timers :=
  { aData := .empty dirty
    eventMap := fun _ => none
    nextId := 0
    session := fun _ => ⟨none, 0, none, 0, 0⟩ }

/-- The session at `ptr` is changed. -/
def setSession (t : Timers) (ptr : ℕ) (f : SessionTimers → SessionTimers) : Timers :=
  { t with session := fun p => if p = ptr then f (t.session p) else t.session p }

/-- `com->interval = interval` -/
def setInterval (t : Timers) (com : SlotPtr) (interval : ℤ) : Timers :=
  { t with
    aData := { t.aData with
      data := t.aData.data.modify com.index fun c =>
        { c with members := { c.members with interval } } } }

/-- `OnComponentChangeEvent` -/
def onComponentChangeEvent (t : Timers) (ptr : ℕ) (com : SlotPtr) (comId : UInt32)
    (catalog : ComponentCatalog) : Timers :=
  if catalog = .intervalTimer then
    if comId = (t.session ptr).timerId then
      (t.setSession ptr fun s => { s with timer := some com }).setInterval com
        worldSessionUpdateInterval
    else if comId = (t.session ptr).heartBeatTimerId then
      (t.setSession ptr fun s => { s with heartBeatTimer := some com }).setInterval com
        heartBeatInterval
    else t
  else t

/-- The call of the callback that is found for a component, if there is one. -/
def call (t : Timers) (com : SlotPtr) (c : Component IntervalTimer) : Timers :=
  match t.eventMap c.getID with
  | some ptr => t.onComponentChangeEvent ptr com c.getID c.getCatalog
  | none => t

/-- The body of the loop over the slots. -/
def callSlot (t : Timers) (pos : ℕ) : Timers :=
  match t.aData.data[pos]? with
  | some c => if c.getInvalid then t else t.call ⟨t.aData.allocation, pos⟩ c
  | none => t

/-- The callbacks of all slots are called. -/
def callAll (t : Timers) : Timers := (List.range t.aData.data.length).foldl callSlot t

/-- `RegisterComponentChangeEvent`, for a session. -/
def registerComponentChangeEvent (t : Timers) (ptr : ℕ) (componentId : UInt32) : Timers :=
  { t with eventMap := fun id => if id = componentId then some ptr else t.eventMap id }

/-- `RegisterComponent` -/
def registerComponent (t : Timers) (com : Component IntervalTimer) : Option Timers := do
  let (aData, ptr) ← t.aData.add IntervalTimer.timerClass com
  let t := { t with aData }
  if aData.dirty then
    let t := t.callAll
    some { t with aData := t.aData.flush }
  else some (t.call ptr com).callAll

/-- One half of `Initilize`: `setId` keeps the id of the new component. -/
def initilizeTimer (t : Timers) (ptr : ℕ) (setId : UInt32 → SessionTimers → SessionTimers) :
    Option Timers :=
  let timerId := t.nextId
  let t := { t with nextId := t.nextId + 1 }.setSession ptr (setId timerId)
  (t.registerComponentChangeEvent ptr timerId).registerComponent (IntervalTimer.new timerId)

/-- `Initilize` of a session: its two timers. -/
def initilize (t : Timers) (ptr : ℕ) : Option Timers := do
  let t ← t.initilizeTimer ptr fun id s => { s with timerId := id }
  t.initilizeTimer ptr fun id s => { s with heartBeatTimerId := id }

/-- The component behind a pointer; a pointer into an array that was moved has none. -/
def deref (t : Timers) (p : SlotPtr) : Option (Component IntervalTimer) :=
  if p.allocation = t.aData.allocation then t.aData.data[p.index]? else none

/-- `p->Reset()`, for the component that is there. -/
def reset (t : Timers) (p : SlotPtr) (c : Component IntervalTimer) : Timers :=
  { t with aData := { t.aData with data := t.aData.data.set p.index (IntervalTimer.reset c) } }

/-- The update timer of a session, and its heartbeat timer. -/
def timerOf (t : Timers) (ptr : ℕ) : Option (Component IntervalTimer) :=
  (t.session ptr).timer.bind t.deref

/-- The heartbeat timer, where the session has its address. -/
def heartBeatTimerOf (t : Timers) (ptr : ℕ) : Option (Component IntervalTimer) :=
  (t.session ptr).heartBeatTimer.bind t.deref

/-- The end of `WorldSession::Update`. -/
def updateHeartBeat (t : Timers) (ptr : ℕ) : Option Timers :=
  match (t.session ptr).heartBeatTimer with
  | none => some t
  | some p => do
      let c ← t.deref p
      if c.members.passed then
        some ((t.reset p c).setSession ptr fun s => { s with heartBeats := s.heartBeats + 1 })
      else some t

/-- `WorldSession::Update` of a session that is neither idle nor disconnected. -/
def updateAlive (t : Timers) (ptr : ℕ) : Option Timers :=
  match (t.session ptr).timer with
  | none => t.updateHeartBeat ptr
  | some p => do
      let c ← t.deref p
      if !c.members.passed then some t else (t.reset p c).updateHeartBeat ptr

/-- `WorldSession::Update`, whose answer is whether the session is neither idle nor
disconnected. -/
def update (t : Timers) (alive : Bool) (ptr : ℕ) : Option Timers :=
  if alive then t.updateAlive ptr else some t

/-- The body of the loop of `Sys_IntervalTimer::OnUpdate`. -/
def onUpdateTimer (timeDiff : ℤ) (c : Component IntervalTimer) : Component IntervalTimer :=
  if c.isDirty then
    let c := { c with members := { c.members with current := c.members.current + timeDiff } }
    if c.members.passed then { c with toIComponent := c.toIComponent.setDirty false } else c
  else c

/-- The session has its callbacks, for neither of its ids was given to another one since. -/
def KeepsTimers (t : Timers) (ptr : ℕ) : Prop :=
  t.eventMap (t.session ptr).timerId = some ptr ∧
    t.eventMap (t.session ptr).heartBeatTimerId = some ptr

instance (t : Timers) (ptr : ℕ) : Decidable (t.KeepsTimers ptr) :=
  inferInstanceAs (Decidable (_ ∧ _))

/-- `OnUpdate` -/
def onUpdate (t : Timers) (timeDiff : ℤ) : Timers :=
  { t with aData := { t.aData with data := t.aData.data.map (onUpdateTimer timeDiff) } }

end Timers

/-- `World` with the timers of its `m_pEcs`. -/
structure TimedWorld where
  world : World
  timers : Timers

/-- What a call of `World::Update` depends on: the time, the ids of the sessions in
`addSessQueue`, the order in which the sessions are visited, which of them are neither
idle nor disconnected, and its argument. -/
structure Tick where
  now : ℤ
  added : List UInt32
  order : List (UInt32 × WorldSession)
  alive : WorldSession → Bool
  diff : UInt32

namespace TimedWorld

/-- The world and the timers before any session. -/
def create (dirty : Bool) (playerLimit maxActiveSessionCount maxQueuedSessionCount : UInt32) :
    TimedWorld :=
  { world := .create playerLimit maxActiveSessionCount maxQueuedSessionCount
    timers := .create dirty }

/-- `AddSession_` -/
def addNewSession (now : ℤ) (w : TimedWorld) (id : UInt32) : Option TimedWorld := do
  let timers ← w.timers.initilize (w.world.newSession id).ptr
  some { world := w.world.addNewSession now id, timers }

/-- The loop body of `UpdateSessions`. -/
def updateSession (now : ℤ) (alive : WorldSession → Bool) (w : TimedWorld)
    (itr : UInt32 × WorldSession) : Option TimedWorld := do
  let timers ← w.timers.update (alive itr.2) itr.2.ptr
  some { world := w.world.updateSession now alive itr, timers }

/-- `UpdateSessions` -/
def updateSessions (w : TimedWorld) (t : Tick) : Option TimedWorld := do
  let w ← t.added.foldlM (addNewSession t.now) w
  if t.order.Perm w.world.sessions then t.order.foldlM (updateSession t.now t.alive) w else none

/-- `World::Update` -/
def update (w : TimedWorld) (t : Tick) : Option TimedWorld := do
  let w ← w.updateSessions t
  some { w with timers := w.timers.onUpdate t.diff.toInt32.toInt }

end TimedWorld

/-! ### The timers in the slots -/

/-- The components there are: valid timers, to be updated or not. -/
def IntervalTimer.component (id : UInt32) (dirty : Bool) (interval current : ℤ) :
    Component IntervalTimer :=
  { id, flags := if dirty then 0x20001 else 0x20000, members := ⟨interval, current⟩ }

namespace Timers

open IntervalTimer

/-- The timers of a session are told by numbers: twice its address, and one more. -/
def setTimerId (i : ℕ) (id : UInt32) (s : SessionTimers) : SessionTimers :=
  if i % 2 = 0 then { s with timerId := id } else { s with heartBeatTimerId := id }

/-- A timer has come to a slot. -/
def setTimer (i : ℕ) (com : SlotPtr) (s : SessionTimers) : SessionTimers :=
  if i % 2 = 0 then { s with timer := some com } else { s with heartBeatTimer := some com }

/-- The id of a timer. -/
def timerId (t : Timers) (i : ℕ) : UInt32 :=
  if i % 2 = 0 then (t.session (i / 2)).timerId else (t.session (i / 2)).heartBeatTimerId

/-- Where a timer is. -/
def timer (t : Timers) (i : ℕ) : Option SlotPtr :=
  if i % 2 = 0 then (t.session (i / 2)).timer else (t.session (i / 2)).heartBeatTimer

/-- The interval of a timer. -/
def interval (i : ℕ) : ℤ := if i % 2 = 0 then worldSessionUpdateInterval else heartBeatInterval

/-- The callback of the id that the `i`-th timer was given is the one of its session. -/
def Registered (t : Timers) (i : ℕ) : Prop := t.eventMap (UInt32.ofNat i) = some (i / 2)

/-- The number of timers made. -/
def size (t : Timers) : ℕ := t.aData.data.length

variable {t t' : Timers} {i j pos ptr : ℕ} {p com : SlotPtr} {id : UInt32} {dirty : Bool}
  {c : Component IntervalTimer}

theorem new_eq (id : UInt32) : IntervalTimer.new id = component id true 0 0 := by
  have hflags : (1 : UInt32) ||| ((2 : UInt16).toUInt32 <<< 16 &&& 0xffff0000) = 0x20001 := by
    decide
  show (⟨⟨id, _⟩, ⟨0, 0⟩⟩ : Component IntervalTimer) = ⟨⟨id, 0x20001⟩, ⟨0, 0⟩⟩
  rw [← hflags]
  rfl

theorem getInvalid_component (id : UInt32) (dirty : Bool) (interval current : ℤ) :
    (component id dirty interval current).getInvalid = false := by
  cases dirty with
  | true =>
      show ((0x20001 : UInt32) &&& 0x2 != 0) = false
      decide
  | false =>
      show ((0x20000 : UInt32) &&& 0x2 != 0) = false
      decide

theorem getCatalog_component (id : UInt32) (dirty : Bool) (interval current : ℤ) :
    (component id dirty interval current).getCatalog = .intervalTimer := by
  cases dirty with
  | true =>
      show ComponentCatalog.ofUInt16 (((0x20001 : UInt32) >>> 16) &&& 0xffff).toUInt16 = _
      decide
  | false =>
      show ComponentCatalog.ofUInt16 (((0x20000 : UInt32) >>> 16) &&& 0xffff).toUInt16 = _
      decide

theorem isDirty_component (id : UInt32) (dirty : Bool) (interval current : ℤ) :
    (component id dirty interval current).isDirty = dirty := by
  cases dirty with
  | true =>
      show ((0x20001 : UInt32) &&& 0x1 != 0) = true
      decide
  | false =>
      show ((0x20000 : UInt32) &&& 0x1 != 0) = false
      decide

theorem setDirty_component (id : UInt32) (dirty d : Bool) (interval current : ℤ) :
    (component id dirty interval current).toIComponent.setDirty d =
      (component id d interval current).toIComponent := by
  have hset (flags : UInt32) (h : flags = 0x20001 ∨ flags = 0x20000) :
      flags ||| 1 = 0x20001 ∧ flags &&& 0xfffffffe = 0x20000 := by
    rcases h with rfl | rfl <;> decide
  obtain ⟨hor, hand⟩ := hset (if dirty then 0x20001 else 0x20000) (by cases dirty <;> simp)
  cases d with
  | true => exact congrArg (IComponent.mk id) hor
  | false => exact congrArg (IComponent.mk id) hand

theorem reset_component (id : UInt32) (dirty : Bool) (interval current : ℤ) :
    IntervalTimer.reset (component id dirty interval current) =
      component id true interval
        (if current ≥ interval then current.tmod interval else current) := by
  rw [IntervalTimer.reset, setDirty_component]
  rfl

theorem onUpdateTimer_component (timeDiff : ℤ) (id : UInt32) (interval current : ℤ) :
    onUpdateTimer timeDiff (component id true interval current) =
      component id (!decide (current + timeDiff ≥ interval)) interval (current + timeDiff) := by
  rw [onUpdateTimer, isDirty_component, if_pos rfl]
  show (if passed ⟨interval, current + timeDiff⟩ then _ else _) = _
  rw [passed]
  cases decide (current + timeDiff ≥ interval) with
  | true =>
      rw [if_pos rfl, setDirty_component]
      rfl
  | false => rfl

/-- Timers with numbers that differ by a multiple of the number of ids have the same one. -/
theorem ofNat_succ_ne (i : ℕ) : UInt32.ofNat (i + 1) ≠ UInt32.ofNat i := by
  intro h
  have hmod := congrArg UInt32.toNat h
  rw [UInt32.toNat_ofNat', UInt32.toNat_ofNat'] at hmod
  omega

theorem timer_even (t : Timers) (ptr : ℕ) : t.timer (2 * ptr) = (t.session ptr).timer := by
  rw [timer, if_pos (by omega), Nat.mul_div_cancel_left ptr Nat.two_pos]

theorem timer_odd (t : Timers) (ptr : ℕ) :
    t.timer (2 * ptr + 1) = (t.session ptr).heartBeatTimer := by
  rw [timer, if_neg (by omega), show (2 * ptr + 1) / 2 = ptr by omega]

theorem timerId_even (t : Timers) (ptr : ℕ) : t.timerId (2 * ptr) = (t.session ptr).timerId := by
  rw [timerId, if_pos (by omega), Nat.mul_div_cancel_left ptr Nat.two_pos]

theorem timerId_odd (t : Timers) (ptr : ℕ) :
    t.timerId (2 * ptr + 1) = (t.session ptr).heartBeatTimerId := by
  rw [timerId, if_neg (by omega), show (2 * ptr + 1) / 2 = ptr by omega]

/-! ### The callbacks -/

/-- What a callback does to the `i`-th timer. -/
def deliver (t : Timers) (i : ℕ) (com : SlotPtr) : Timers :=
  (t.setSession (i / 2) (setTimer i com)).setInterval com (interval i)

/-- A callback with the id of a timer of its session delivers it, the update timer first. -/
theorem onComponentChangeEvent_cases (t : Timers) (ptr : ℕ) (com : SlotPtr) (comId : UInt32) :
    (∀ i, i / 2 = ptr → t.timerId i ≠ comId) ∧
        t.onComponentChangeEvent ptr com comId .intervalTimer = t ∨
      ∃ i, i / 2 = ptr ∧ t.timerId i = comId ∧ (i % 2 = 1 → t.timerId (2 * ptr) ≠ comId) ∧
        t.onComponentChangeEvent ptr com comId .intervalTimer = t.deliver i com := by
  have heven : 2 * ptr / 2 = ptr := by omega
  have hodd : (2 * ptr + 1) / 2 = ptr := by omega
  have hid := t.timerId_even ptr
  have hid' := t.timerId_odd ptr
  rw [onComponentChangeEvent, if_pos rfl]
  split
  · rename_i h
    refine Or.inr ⟨2 * ptr, heven, hid.trans h.symm, fun h => by omega, ?_⟩
    rw [deliver, heven, interval, if_pos (by omega)]
    congr 2
    funext s
    rw [setTimer, if_pos (by omega)]
  · rename_i h
    split
    · rename_i h'
      refine Or.inr ⟨2 * ptr + 1, hodd, hid'.trans h'.symm, fun _ => hid ▸ Ne.symm h, ?_⟩
      rw [deliver, hodd, interval, if_neg (by omega)]
      congr 2
      funext s
      rw [setTimer, if_neg (by omega)]
    · rename_i h'
      refine Or.inl ⟨fun i hi => ?_, rfl⟩
      rcases Nat.mod_two_eq_zero_or_one i with hmod | hmod
      · rw [show i = 2 * ptr by omega, hid]
        exact Ne.symm h
      · rw [show i = 2 * ptr + 1 by omega, hid']
        exact Ne.symm h'

@[simp] theorem setTimer_timerId (i : ℕ) (com : SlotPtr) (s : SessionTimers) :
    (setTimer i com s).timerId = s.timerId := by
  rw [setTimer]
  split <;> rfl

@[simp] theorem setTimer_heartBeatTimerId (i : ℕ) (com : SlotPtr) (s : SessionTimers) :
    (setTimer i com s).heartBeatTimerId = s.heartBeatTimerId := by
  rw [setTimer]
  split <;> rfl

@[simp] theorem setTimer_heartBeats (i : ℕ) (com : SlotPtr) (s : SessionTimers) :
    (setTimer i com s).heartBeats = s.heartBeats := by
  rw [setTimer]
  split <;> rfl

@[simp] theorem size_deliver : (t.deliver i com).size = t.size := List.length_modify ..

theorem timerId_deliver : (t.deliver i com).timerId j = t.timerId j := by
  simp only [timerId, deliver, setInterval, setSession]
  by_cases h : j / 2 = i / 2
  · simp [h]
  · simp [h]

theorem heartBeats_deliver :
    ((t.deliver i com).session ptr).heartBeats = (t.session ptr).heartBeats := by
  simp only [deliver, setInterval, setSession]
  split
  · simp
  · rfl

theorem timer_deliver : (t.deliver i com).timer j = if j = i then some com else t.timer j := by
  simp only [timer, deliver, setInterval, setSession]
  by_cases hj : j = i
  · subst hj
    rw [if_pos rfl, if_pos rfl, setTimer]
    split <;> rfl
  · rw [if_neg hj]
    by_cases h : j / 2 = i / 2
    · rw [if_pos h, setTimer]
      split
      · rw [if_neg (by omega)]
      · rw [if_pos (by omega)]
    · rw [if_neg h]

theorem getElem?_deliver_of_ne (h : com.index ≠ j) :
    (t.deliver i com).aData.data[j]? = t.aData.data[j]? :=
  List.getElem?_modify_ne _ _ h

/-- What callbacks leave as it is: all but the pointers and the intervals. -/
structure Same (t t' : Timers) : Prop where
  eventMap : t'.eventMap = t.eventMap
  nextId : t'.nextId = t.nextId
  allocation : t'.aData.allocation = t.aData.allocation
  invalid : t'.aData.invalid = t.aData.invalid
  numAllocated : t'.aData.numAllocated = t.aData.numAllocated
  size : t'.size = t.size
  timerId : ∀ i, t'.timerId i = t.timerId i
  heartBeats : ∀ ptr, (t'.session ptr).heartBeats = (t.session ptr).heartBeats
  slot : ∀ (i : ℕ) id dirty interval current,
    t.aData.data[i]? = some (component id dirty interval current) →
      ∃ interval', t'.aData.data[i]? = some (component id dirty interval' current)

theorem Same.refl (t : Timers) : t.Same t :=
  ⟨rfl, rfl, rfl, rfl, rfl, rfl, fun _ => rfl, fun _ => rfl,
    fun _ _ _ interval _ h => ⟨interval, h⟩⟩

theorem Same.trans {t₁ t₂ t₃ : Timers} (h : t₁.Same t₂) (h' : t₂.Same t₃) : t₁.Same t₃ where
  eventMap := h'.eventMap.trans h.eventMap
  nextId := h'.nextId.trans h.nextId
  allocation := h'.allocation.trans h.allocation
  invalid := h'.invalid.trans h.invalid
  numAllocated := h'.numAllocated.trans h.numAllocated
  size := h'.size.trans h.size
  timerId i := (h'.timerId i).trans (h.timerId i)
  heartBeats ptr := (h'.heartBeats ptr).trans (h.heartBeats ptr)
  slot i id dirty interval current hslot := by
    obtain ⟨interval', hslot'⟩ := h.slot i id dirty interval current hslot
    exact h'.slot i id dirty interval' current hslot'

theorem same_deliver : t.Same (t.deliver i com) where
  eventMap := rfl
  nextId := rfl
  allocation := rfl
  invalid := rfl
  numAllocated := rfl
  size := size_deliver
  timerId _ := timerId_deliver
  heartBeats _ := heartBeats_deliver
  slot k id dirty iv current hslot := by
    by_cases hk : com.index = k
    · refine ⟨Timers.interval i, ?_⟩
      subst hk
      show (t.aData.data.modify _ _)[com.index]? = _
      rw [List.getElem?_modify_eq, hslot]
      rfl
    · exact ⟨iv, (getElem?_deliver_of_ne hk).trans hslot⟩

/-! ### What holds of the system and its sessions -/

/-- The slots hold the timers made, and a session has no pointer to the timer of another one
that has its callback. -/
structure Shape (t : Timers) : Prop where
  length_le : t.size ≤ t.aData.numAllocated
  invalid : t.aData.invalid = []
  slot : ∀ i < t.size, ∃ dirty interval current,
    t.aData.data[i]? = some (component (UInt32.ofNat i) dirty interval current)
  nextId : t.nextId = UInt32.ofNat t.size
  timerId : ∀ i < t.size, t.timerId i = UInt32.ofNat i
  registered : ∀ i < t.size,
    t.Registered i ↔ ∀ j < t.size, i < j → UInt32.ofNat j ≠ UInt32.ofNat i
  own : ∀ i p, t.timer i = some p → p.index < t.size ∧ (t.Registered p.index → p.index = i)

/-- A session knows where its timer is, and the timer has its interval. -/
def Told (t : Timers) (i : ℕ) : Prop :=
  t.timer i = some ⟨t.aData.allocation, i⟩ ∧
    ∀ c, t.aData.data[i]? = some c → c.members.interval = interval i

/-- The invariant: the sessions that have their callbacks are told of their timers. -/
structure Inv (t : Timers) : Prop extends Shape t where
  told : ∀ i < t.size, t.Registered i → t.Told i

theorem Same.registered (h : t.Same t') : t'.Registered i ↔ t.Registered i := by
  rw [Registered, Registered, h.eventMap]

theorem Same.shape (h : t.Same t') (hshape : t.Shape)
    (hown : ∀ i p, t'.timer i = some p → p.index < t.size ∧ (t.Registered p.index → p.index = i)) :
    t'.Shape where
  length_le := by
    rw [h.size, h.numAllocated]
    exact hshape.length_le
  invalid := h.invalid.trans hshape.invalid
  slot i hi := by
    rw [h.size] at hi
    obtain ⟨dirty, interval, current, hslot⟩ := hshape.slot i hi
    obtain ⟨interval', hslot'⟩ := h.slot i _ _ _ _ hslot
    exact ⟨dirty, interval', current, hslot'⟩
  nextId := by rw [h.nextId, h.size, hshape.nextId]
  timerId i hi := (h.timerId i).trans (hshape.timerId i (h.size ▸ hi))
  registered i hi := by
    rw [h.registered, h.size]
    exact hshape.registered i (h.size ▸ hi)
  own i p hp := by
    rw [h.size, h.registered]
    exact hown i p hp

/-- What a round of the loop does: it tells of the timer in its slot, if that has its callback,
and of no timer with another id. -/
theorem Shape.callSlot (h : t.Shape) (hpos : pos < t.size) :
    t.Same (t.callSlot pos) ∧ (t.callSlot pos).Shape ∧
      (t.Registered pos → (t.callSlot pos).Told pos) ∧
      ∀ i < t.size, UInt32.ofNat pos ≠ UInt32.ofNat i →
        (t.callSlot pos).timer i = t.timer i ∧
          (t.callSlot pos).aData.data[i]? = t.aData.data[i]? := by
  obtain ⟨dirty, iv, current, hslot⟩ := h.slot pos hpos
  have hcall : t.callSlot pos = t.call ⟨t.aData.allocation, pos⟩
      (component (UInt32.ofNat pos) dirty iv current) := by
    rw [Timers.callSlot, hslot]
    exact if_neg (by rw [getInvalid_component]; exact Bool.false_ne_true)
  have hid : (component (UInt32.ofNat pos) dirty iv current).getID = UInt32.ofNat pos := rfl
  rw [hcall, call, hid, getCatalog_component]
  cases hevent : t.eventMap (UInt32.ofNat pos) with
  | none =>
      refine ⟨.refl t, h, fun hreg => ?_, fun _ _ _ => ⟨rfl, rfl⟩⟩
      rw [Registered, hevent] at hreg
      cases hreg
  | some ptr =>
      dsimp only
      have hptr (hreg : t.Registered pos) : pos / 2 = ptr :=
        Option.some.inj (hreg.symm.trans hevent)
      rcases t.onComponentChangeEvent_cases ptr ⟨t.aData.allocation, pos⟩ (UInt32.ofNat pos) with
        ⟨hnone, heq⟩ | ⟨i, hi, hidi, hfirst, heq⟩
      · rw [heq]
        exact ⟨.refl t, h, fun hreg => absurd (h.timerId pos hpos) (hnone pos (hptr hreg)),
          fun _ _ _ => ⟨rfl, rfl⟩⟩
      · rw [heq]
        -- of the two timers of the session it is the one in the slot
        have hsame (hreg : t.Registered pos) : pos = i := by
          have hpi := hptr hreg
          by_contra hne
          rcases Nat.mod_two_eq_zero_or_one i with hmod | hmod
          · have hsucc : pos = i + 1 := by omega
            rw [h.timerId i (by omega), hsucc] at hidi
            exact ofNat_succ_ne i hidi.symm
          · apply hfirst hmod
            rw [show 2 * ptr = pos by omega, h.timerId pos hpos]
        have hother (j : ℕ) (hj : j < t.size) (hne : UInt32.ofNat pos ≠ UInt32.ofNat j) :
            (t.deliver i ⟨t.aData.allocation, pos⟩).timer j = t.timer j ∧
              (t.deliver i ⟨t.aData.allocation, pos⟩).aData.data[j]? = t.aData.data[j]? := by
          refine ⟨?_, getElem?_deliver_of_ne fun heq => hne (congrArg UInt32.ofNat heq)⟩
          rw [timer_deliver, if_neg]
          rintro rfl
          exact hne (hidi.symm.trans (h.timerId j hj))
        refine ⟨same_deliver, same_deliver.shape h fun j p hp => ?_, fun hreg => ?_, hother⟩
        · rw [timer_deliver] at hp
          split at hp
          · rename_i hj
            obtain rfl := Option.some.inj hp
            exact ⟨hpos, fun hreg => (hsame hreg).trans hj.symm⟩
          · exact h.own j p hp
        · obtain rfl := hsame hreg
          refine ⟨by rw [timer_deliver, if_pos rfl]; rfl, fun c hc => ?_⟩
          have hc : (t.aData.data.modify pos _)[pos]? = some c := hc
          rw [List.getElem?_modify_eq, hslot] at hc
          obtain rfl := Option.some.inj hc
          rfl

/-- After the loop every session that has its callbacks is told of its timers. -/
theorem Shape.callAll (h : t.Shape) : t.Same t.callAll ∧ t.callAll.Inv := by
  -- the rounds so far have told of the timers in their slots, which are the last with their ids
  have hloop (n : ℕ) (hn : n ≤ t.size) : t.Same ((List.range n).foldl Timers.callSlot t) ∧
      ((List.range n).foldl Timers.callSlot t).Shape ∧
      ∀ i < n, t.Registered i → ((List.range n).foldl Timers.callSlot t).Told i := by
    induction n with
    | zero => exact ⟨.refl t, h, fun i hi => absurd hi (Nat.not_lt_zero i)⟩
    | succ n ih =>
        obtain ⟨hsame, hshape, htold⟩ := ih (Nat.le_of_succ_le hn)
        rw [List.range_succ, List.foldl_append, List.foldl_cons, List.foldl_nil]
        generalize (List.range n).foldl Timers.callSlot t = t₁ at hsame hshape htold ⊢
        have hn₁ : n < t₁.size := hsame.size ▸ hn
        obtain ⟨hsame', hshape', htells, hother⟩ := hshape.callSlot hn₁
        refine ⟨hsame.trans hsame', hshape', fun i hi hreg => ?_⟩
        have hreg₁ := hsame.registered.mpr hreg
        rcases Nat.lt_succ_iff_lt_or_eq.mp hi with hi | rfl
        · obtain ⟨htimer, hslot⟩ := hother i (hi.trans hn₁)
            ((hshape.registered i (hi.trans hn₁)).mp hreg₁ n hn₁ hi)
          rw [Told, htimer, hslot, hsame'.allocation]
          exact htold i hi hreg
        · exact htells hreg₁
  obtain ⟨hsame, hshape, htold⟩ := hloop t.size (Nat.le_refl _)
  refine ⟨hsame, { hshape with told := fun i hi hreg => ?_ }⟩
  exact htold i (hsame.size ▸ hi) (hsame.registered.mp hreg)

/-! ### The operations -/

theorem Inv.flush (h : t.Inv) : { t with aData := t.aData.flush }.Inv :=
  { h with told := h.told }

theorem Same.flush (h : t.Same t') : t.Same { t' with aData := t'.aData.flush } :=
  { h with slot := h.slot }

/-- Registering the component of the last slot ends in the loop over all of them. -/
theorem Shape.registerComponent {aData : StableArray IntervalTimer}
    (hadd : t.aData.add IntervalTimer.timerClass c = some (aData, ⟨aData.allocation, pos⟩))
    (hslot : aData.data[pos]? = some c) (hvalid : c.getInvalid = false)
    (h : Shape { t with aData }) :
    ∃ t', t.registerComponent c = some t' ∧ Same { t with aData } t' ∧ t'.Inv := by
  rw [Timers.registerComponent, hadd, Option.bind_eq_bind, Option.bind_some]
  dsimp only
  split
  · obtain ⟨hsame, hinv⟩ := h.callAll
    exact ⟨_, rfl, hsame.flush, hinv.flush⟩
  · have hcall : Timers.callSlot { t with aData } pos
        = Timers.call { t with aData } ⟨aData.allocation, pos⟩ c := by
      simp only [Timers.callSlot, hslot, hvalid, Bool.false_eq_true, if_false]
    have hpos : pos < Timers.size { t with aData } := (List.getElem?_eq_some_iff.mp hslot).1
    obtain ⟨hsame, hshape, -, -⟩ := h.callSlot hpos
    rw [hcall] at hsame hshape
    obtain ⟨hsame', hinv⟩ := hshape.callAll
    exact ⟨_, rfl, hsame.trans hsame', hinv⟩

/-- Among the timers made before a new one, those that keep their callbacks have other ids. -/
theorem registered_of_registerComponentChangeEvent {n : ℕ} (hi : i < n)
    (hevent : t'.eventMap =
      (t.registerComponentChangeEvent (n / 2) (UInt32.ofNat n)).eventMap) :
    t'.Registered i ↔ t.Registered i ∧ UInt32.ofNat n ≠ UInt32.ofNat i := by
  rw [Registered, hevent]
  show (if UInt32.ofNat i = UInt32.ofNat n then some (n / 2) else t.eventMap _) = _ ↔ _
  by_cases hid : UInt32.ofNat i = UInt32.ofNat n
  · rw [if_pos hid]
    refine iff_of_false (fun heq => ?_) fun hne => hne.2 hid.symm
    have hhalf := Option.some.inj heq
    rw [show n = i + 1 by omega] at hid
    exact ofNat_succ_ne i hid.symm
  · rw [if_neg hid]
    exact (and_iff_left (Ne.symm hid)).symm

/-- What a timer made later leaves of the others: those that keep their callbacks had them, and
stand as they did. -/
structure Kept (t t' : Timers) : Prop where
  size_le : t.size ≤ t'.size
  registered : ∀ i < t.size, t'.Registered i → t.Registered i
  slot : ∀ i < t.size, t'.Registered i → t'.aData.data[i]? = t.aData.data[i]?
  heartBeats : ∀ ptr, (t'.session ptr).heartBeats = (t.session ptr).heartBeats

theorem Kept.trans {t₁ t₂ t₃ : Timers} (h : t₁.Kept t₂) (h' : t₂.Kept t₃) : t₁.Kept t₃ where
  size_le := h.size_le.trans h'.size_le
  registered i hi hreg := h.registered i hi (h'.registered i (hi.trans_le h.size_le) hreg)
  slot i hi hreg := by
    have hi' := hi.trans_le h.size_le
    rw [h'.slot i hi' hreg, h.slot i hi (h'.registered i hi' hreg)]
  heartBeats ptr := (h'.heartBeats ptr).trans (h.heartBeats ptr)

/-- The slot of a timer that has its callback. -/
theorem Inv.slot_of_registered (h : t.Inv) (hi : i < t.size) (hreg : t.Registered i)
    {id : UInt32} {iv current : ℤ}
    (hslot : t.aData.data[i]? = some (component id dirty iv current)) :
    t.aData.data[i]? = some (component id dirty (interval i) current) := by
  have hiv : iv = interval i := (h.told i hi hreg).2 _ hslot
  rw [hslot, hiv]

theorem timerId_setTimerId (t : Timers) (i j : ℕ) (id : UInt32) :
    (t.setSession (i / 2) (setTimerId i id)).timerId j = if j = i then id else t.timerId j := by
  simp only [timerId, setSession]
  by_cases hj : j = i
  · subst hj
    rw [if_pos rfl, if_pos rfl, setTimerId]
    split <;> rfl
  · rw [if_neg hj]
    by_cases h : j / 2 = i / 2
    · rw [if_pos h, setTimerId]
      split
      · rw [if_neg (by omega)]
      · rw [if_pos (by omega)]
    · rw [if_neg h]

theorem timer_setTimerId (t : Timers) (i j : ℕ) (id : UInt32) :
    (t.setSession (i / 2) (setTimerId i id)).timer j = t.timer j := by
  simp only [timer, setSession]
  by_cases h : j / 2 = i / 2
  · rw [if_pos h, setTimerId]
    split <;> split <;> rfl
  · rw [if_neg h]

theorem heartBeats_setTimerId (t : Timers) (i ptr : ℕ) (id : UInt32) :
    ((t.setSession (i / 2) (setTimerId i id)).session ptr).heartBeats
      = (t.session ptr).heartBeats := by
  simp only [setSession, setTimerId]
  split
  · split <;> rfl
  · rfl

/-- The next timer, stored in a slot but not yet told of. -/
theorem Inv.shape_store (h : t.Inv) {aData : StableArray IntervalTimer}
    (hdata : aData.data = t.aData.data ++ [IntervalTimer.new (UInt32.ofNat t.size)])
    (hinvalid : aData.invalid = []) (hle : aData.data.length ≤ aData.numAllocated)
    (hids : ∀ i, t'.timerId i = if i = t.size then UInt32.ofNat t.size else t.timerId i)
    (htimers : ∀ i, t'.timer i = t.timer i)
    (hnext : t'.nextId = UInt32.ofNat (t.size + 1))
    (hevent : t'.eventMap =
      (t.registerComponentChangeEvent (t.size / 2) (UInt32.ofNat t.size)).eventMap) :
    Shape { t' with aData } := by
  have hsize : Timers.size { t' with aData } = t.size + 1 := by
    show aData.data.length = _
    rw [hdata, List.length_append]
    rfl
  have hlast : t'.Registered t.size := by
    rw [Registered, hevent]
    exact if_pos rfl
  have hreg (i : ℕ) (hi : i < t.size) :
      t'.Registered i ↔ t.Registered i ∧ UInt32.ofNat t.size ≠ UInt32.ofNat i :=
    registered_of_registerComponentChangeEvent hi hevent
  refine ⟨hle, hinvalid, fun i hi => ?_, ?_, fun i hi => ?_, fun i hi => ?_, fun i p hp => ?_⟩
  · rw [hsize] at hi
    show ∃ dirty interval current, aData.data[i]? = _
    rw [hdata]
    rcases Nat.lt_succ_iff_lt_or_eq.mp hi with hi | rfl
    · rw [List.getElem?_append_left hi]
      exact h.slot i hi
    · exact ⟨true, 0, 0, by rw [size, List.getElem?_concat_length, new_eq]⟩
  · rw [hsize]
    exact hnext
  · rw [hsize] at hi
    show t'.timerId i = _
    rw [hids]
    split
    · rename_i heq
      rw [heq]
    · exact h.timerId i (by omega)
  · rw [hsize] at hi ⊢
    show t'.Registered i ↔ _
    rcases Nat.lt_succ_iff_lt_or_eq.mp hi with hi | rfl
    -- an earlier timer loses its callback to the new one if their ids agree in 32 bits
    · rw [hreg i hi, h.registered i hi]
      constructor
      · rintro ⟨hothers, hne⟩ j hj hij
        rcases Nat.lt_succ_iff_lt_or_eq.mp hj with hj | rfl
        · exact hothers j hj hij
        · exact hne
      · exact fun hothers => ⟨fun j hj hij => hothers j (Nat.lt_succ_of_lt hj) hij,
          hothers t.size (Nat.lt_succ_self _) hi⟩
    · exact iff_of_true hlast fun j hj hij => absurd hij (by omega)
  · obtain ⟨hlt, hown⟩ := h.own i p ((htimers i).symm.trans hp)
    rw [hsize]
    exact ⟨Nat.lt_succ_of_lt hlt, fun hp => hown ((hreg p.index hlt).mp hp).1⟩

/-- A half of `Initilize` makes the next timer. -/
theorem Inv.initilizeTimer (h : t.Inv) :
    ∃ t', t.initilizeTimer (t.size / 2) (setTimerId t.size) = some t' ∧ t'.Inv ∧ t.Kept t' ∧
      t'.size = t.size + 1 ∧ t'.aData.data[t.size]? =
        some (component (UInt32.ofNat t.size) true (interval t.size) 0) := by
  set n := t.size with hn
  -- the state in which the component is registered
  set t₁ := ({ t with nextId := t.nextId + 1 }.setSession (n / 2)
    (setTimerId n t.nextId)).registerComponentChangeEvent (n / 2) t.nextId with ht₁
  have hnext : t.nextId = UInt32.ofNat n := h.nextId
  obtain ⟨aData, hadd, hdata, hinvalid, hle⟩ : ∃ a', t.aData.add IntervalTimer.timerClass
      (IntervalTimer.new t.nextId) = some (a', ⟨a'.allocation, n⟩) ∧
      a'.data = t.aData.data ++ [IntervalTimer.new t.nextId] ∧ a'.invalid = [] ∧
      a'.data.length ≤ a'.numAllocated := by
    -- no slot was given up, so the timer is appended
    rcases StableArray.add_cases IntervalTimer.timerClass h.length_le
      (by rw [h.invalid]; simp) (IntervalTimer.new t.nextId) with ⟨rest, pos, hrest, -⟩ | ⟨-, hnew⟩
    · rw [h.invalid] at hrest
      exact absurd hrest (by simp)
    · exact hnew
  rw [hnext] at hdata hadd
  have hevent : t₁.eventMap =
      (t.registerComponentChangeEvent (n / 2) (UInt32.ofNat n)).eventMap := by
    rw [ht₁, hnext]
    rfl
  have hstore : Shape { t₁ with aData } := h.shape_store hdata hinvalid hle
    (fun i => by rw [ht₁, hnext]; exact timerId_setTimerId t n i _)
    (fun i => timer_setTimerId t n i _)
    (by rw [ht₁]; show t.nextId + 1 = _; rw [hnext, UInt32.ofNat_add]; rfl) hevent
  have hslot : aData.data[n]? = some (IntervalTimer.new (UInt32.ofNat n)) := by
    rw [hdata]
    exact List.getElem?_concat_length
  have hvalid : (IntervalTimer.new (UInt32.ofNat n)).getInvalid = false := by
    rw [new_eq, getInvalid_component]
  obtain ⟨t', hrun, hsame, hinv⟩ := Shape.registerComponent (t := t₁) hadd hslot hvalid hstore
  have hsize : t'.size = n + 1 := by
    rw [hsame.size]
    show aData.data.length = _
    rw [hdata, List.length_append]
    rfl
  have hevent' : t'.eventMap = _ := hsame.eventMap.trans hevent
  have hkeeps (i : ℕ) (hi : i < n) (hreg : t'.Registered i) : t.Registered i :=
    ((registered_of_registerComponentChangeEvent hi hevent').mp hreg).1
  refine ⟨t', ?_, hinv, ⟨?_, hkeeps, fun i hi hreg => ?_, fun ptr => ?_⟩, hsize, ?_⟩
  · rw [Timers.initilizeTimer, ← ht₁, hnext]
    exact hrun
  · exact Nat.le_of_lt (hsize ▸ Nat.lt_succ_self n)
  · -- a callback that the loop reaches again sets the interval that its timer has
    obtain ⟨dirty, iv, current, hold⟩ := h.slot i hi
    have hstored : aData.data[i]? = some (component (UInt32.ofNat i) dirty iv current) := by
      rw [hdata, List.getElem?_append_left hi, hold]
    obtain ⟨iv', hnew⟩ := hsame.slot i _ _ _ _ hstored
    rw [hinv.slot_of_registered (hsize ▸ Nat.lt_succ_of_lt hi) hreg hnew,
      h.slot_of_registered hi (hkeeps i hi hreg) hold]
  · rw [hsame.heartBeats, ht₁]
    exact heartBeats_setTimerId _ n ptr _
  · have hreg : t'.Registered n := by
      rw [Registered, hevent']
      exact if_pos rfl
    obtain ⟨iv', hnew⟩ := hsame.slot n _ _ _ _ (hslot.trans (congrArg some (new_eq _)))
    exact hinv.slot_of_registered (hsize ▸ Nat.lt_succ_self n) hreg hnew

/-- What `Initilize` does: it makes two timers, which have not run, and the session has its
callbacks. -/
theorem Inv.initilize (h : t.Inv) (hsize : t.size = 2 * ptr) :
    ∃ t', t.initilize ptr = some t' ∧ t'.Inv ∧ t.Kept t' ∧ t'.size = 2 * ptr + 2 ∧
      t'.aData.data[2 * ptr]? = some (component (UInt32.ofNat (2 * ptr)) true 50 0) ∧
      t'.aData.data[2 * ptr + 1]? =
        some (component (UInt32.ofNat (2 * ptr + 1)) true 6000 0) := by
  obtain ⟨t₁, hrun, hinv, hkept, hsize₁, hslot⟩ := h.initilizeTimer
  obtain ⟨t₂, hrun', hinv', hkept', hsize₂, hslot'⟩ := hinv.initilizeTimer
  have hhalf : t.size / 2 = ptr := by omega
  have hhalf' : t₁.size / 2 = ptr := by omega
  have hset : setTimerId t.size = fun id s => { s with timerId := id } := by
    funext id s
    rw [setTimerId, if_pos (by omega)]
  have hset' : setTimerId t₁.size = fun id s => { s with heartBeatTimerId := id } := by
    funext id s
    rw [setTimerId, if_neg (by omega)]
  rw [hhalf, hset] at hrun
  rw [hhalf', hset'] at hrun'
  refine ⟨t₂, ?_, hinv', hkept.trans hkept', by omega, ?_, ?_⟩
  · rw [Timers.initilize, hrun]
    exact hrun'
  · have hreg : t₂.Registered (2 * ptr) := by
      refine (hinv'.registered _ (by omega)).mpr fun j hj hlt => ?_
      rw [show j = 2 * ptr + 1 by omega]
      exact ofNat_succ_ne _
    rw [hkept'.slot (2 * ptr) (by omega) hreg, ← hsize, hslot, interval, if_pos (by omega)]
    rfl
  · rw [hsize₁, hsize, interval, if_neg (by omega)] at hslot'
    exact hslot'

theorem inv_create (dirty : Bool) : (create dirty).Inv where
  length_le := Nat.le_refl _
  invalid := rfl
  slot _ hi := absurd hi (Nat.not_lt_zero _)
  nextId := rfl
  timerId _ hi := absurd hi (Nat.not_lt_zero _)
  registered _ hi := absurd hi (Nat.not_lt_zero _)
  own i p hp := by
    rw [timer] at hp
    split at hp <;> cases hp
  told _ hi := absurd hi (Nat.not_lt_zero _)

/-- What the running of the timers leaves. -/
structure Runs (t t' : Timers) : Prop where
  eventMap : t'.eventMap = t.eventMap
  nextId : t'.nextId = t.nextId
  allocation : t'.aData.allocation = t.aData.allocation
  invalid : t'.aData.invalid = t.aData.invalid
  numAllocated : t'.aData.numAllocated = t.aData.numAllocated
  size : t'.size = t.size
  timerId : ∀ i, t'.timerId i = t.timerId i
  timer : ∀ i, t'.timer i = t.timer i
  slot : ∀ (i : ℕ) id dirty interval current,
    t.aData.data[i]? = some (component id dirty interval current) →
      ∃ dirty' current', t'.aData.data[i]? = some (component id dirty' interval current')

theorem Runs.refl (t : Timers) : t.Runs t :=
  ⟨rfl, rfl, rfl, rfl, rfl, rfl, fun _ => rfl, fun _ => rfl,
    fun _ _ dirty _ current h => ⟨dirty, current, h⟩⟩

theorem Runs.trans {t₁ t₂ t₃ : Timers} (h : t₁.Runs t₂) (h' : t₂.Runs t₃) : t₁.Runs t₃ where
  eventMap := h'.eventMap.trans h.eventMap
  nextId := h'.nextId.trans h.nextId
  allocation := h'.allocation.trans h.allocation
  invalid := h'.invalid.trans h.invalid
  numAllocated := h'.numAllocated.trans h.numAllocated
  size := h'.size.trans h.size
  timerId i := (h'.timerId i).trans (h.timerId i)
  timer i := (h'.timer i).trans (h.timer i)
  slot i id dirty interval current hslot := by
    obtain ⟨dirty', current', hslot'⟩ := h.slot i id dirty interval current hslot
    exact h'.slot i id dirty' interval current' hslot'

theorem Runs.registered (h : t.Runs t') : t'.Registered i ↔ t.Registered i := by
  rw [Registered, Registered, h.eventMap]

theorem Inv.runs (hinv : t.Inv) (h : t.Runs t') : t'.Inv where
  length_le := by
    rw [h.size, h.numAllocated]
    exact hinv.length_le
  invalid := h.invalid.trans hinv.invalid
  slot i hi := by
    obtain ⟨dirty, interval, current, hslot⟩ := hinv.slot i (h.size ▸ hi)
    obtain ⟨dirty', current', hslot'⟩ := h.slot i _ _ _ _ hslot
    exact ⟨dirty', interval, current', hslot'⟩
  nextId := by rw [h.nextId, h.size, hinv.nextId]
  timerId i hi := (h.timerId i).trans (hinv.timerId i (h.size ▸ hi))
  registered i hi := by
    rw [h.registered, h.size]
    exact hinv.registered i (h.size ▸ hi)
  own i p hp := by
    rw [h.size, h.registered]
    exact hinv.own i p ((h.timer i).symm.trans hp)
  told i hi hreg := by
    have hi' : i < t.size := h.size ▸ hi
    have hreg' := h.registered.mp hreg
    obtain ⟨dirty, interval, current, hslot⟩ := hinv.slot i hi'
    obtain ⟨dirty', current', hslot'⟩ := h.slot i _ _ _ _ hslot
    refine ⟨?_, fun c hc => ?_⟩
    · rw [h.timer, h.allocation]
      exact (hinv.told i hi' hreg').1
    · rw [hslot'] at hc
      obtain rfl := Option.some.inj hc
      have htold : interval = Timers.interval i := (hinv.told i hi' hreg').2 _ hslot
      exact htold

/-- What the visit of a session leaves: the timers of others that keep their callbacks. -/
structure Visits (ptr : ℕ) (t t' : Timers) : Prop extends Runs t t' where
  other : ∀ i < t.size, i / 2 ≠ ptr → t.Registered i → t'.aData.data[i]? = t.aData.data[i]?
  heartBeats : ∀ q, q ≠ ptr → (t'.session q).heartBeats = (t.session q).heartBeats

theorem Visits.refl (ptr : ℕ) (t : Timers) : t.Visits ptr t :=
  { Runs.refl t with other := fun _ _ _ _ => rfl, heartBeats := fun _ _ => rfl }

theorem Visits.trans {t₁ t₂ t₃ : Timers} (h : t₁.Visits ptr t₂) (h' : t₂.Visits ptr t₃) :
    t₁.Visits ptr t₃ :=
  { h.toRuns.trans h'.toRuns with
    other := fun i hi hne hreg =>
      (h'.other i (h.size ▸ hi) hne (h.registered.mpr hreg)).trans (h.other i hi hne hreg)
    heartBeats := fun q hq => (h'.heartBeats q hq).trans (h.heartBeats q hq) }

theorem deref_eq_some_iff : t.deref p = some c ↔
    p.allocation = t.aData.allocation ∧ t.aData.data[p.index]? = some c := by
  rw [deref]
  split
  · rename_i h
    exact (and_iff_right h).symm
  · rename_i h
    exact iff_of_false (fun h' => by cases h') fun h' => h h'.1

/-- `Reset` through a pointer of a session. -/
theorem Inv.reset (h : t.Inv) (hi : t.timer i = some p) (hc : t.deref p = some c) :
    t.Visits (i / 2) (t.reset p c) := by
  obtain ⟨hlt, hown⟩ := h.own i p hi
  obtain ⟨-, hget⟩ := deref_eq_some_iff.mp hc
  have hset (j : ℕ) (hj : p.index ≠ j) : (t.reset p c).aData.data[j]? = t.aData.data[j]? :=
    List.getElem?_set_ne hj
  refine ⟨⟨rfl, rfl, rfl, rfl, rfl, List.length_set, fun _ => rfl, fun _ => rfl,
    fun j id dirty iv current hslot => ?_⟩, fun j hj hne hreg => hset j ?_, fun _ _ => rfl⟩
  · by_cases hj : p.index = j
    · subst hj
      rw [hslot] at hget
      obtain rfl := Option.some.inj hget
      refine ⟨true, if current ≥ iv then current.tmod iv else current, ?_⟩
      show (t.aData.data.set _ _)[p.index]? = _
      rw [List.getElem?_set_self hlt, reset_component]
    · exact ⟨dirty, current, (hset j hj).trans hslot⟩
  · rintro rfl
    exact hne (congrArg (· / 2) (hown hreg))

theorem visits_heartBeat (t : Timers) (ptr : ℕ) :
    t.Visits ptr (t.setSession ptr fun s => { s with heartBeats := s.heartBeats + 1 }) := by
  have hsession (q : ℕ) (f : SessionTimers → SessionTimers) :
      (t.setSession ptr f).session q = if q = ptr then f (t.session q) else t.session q := rfl
  refine ⟨⟨rfl, rfl, rfl, rfl, rfl, rfl, fun i => ?_, fun i => ?_,
    fun _ _ dirty _ current h => ⟨dirty, current, h⟩⟩, fun _ _ _ _ => rfl, fun q hq => ?_⟩
  · simp only [timerId, hsession]
    split <;> split <;> rfl
  · simp only [timer, hsession]
    split <;> split <;> rfl
  · rw [hsession, if_neg hq]

theorem Inv.updateHeartBeat (h : t.Inv) (e : t.updateHeartBeat ptr = some t') :
    t.Visits ptr t' := by
  rw [Timers.updateHeartBeat] at e
  split at e
  · obtain rfl := Option.some.inj e
    exact .refl ptr t
  · rename_i p hp
    obtain ⟨c, hc, e⟩ := Option.bind_eq_some_iff.mp e
    split at e
    · obtain rfl := Option.some.inj e
      have hreset := h.reset ((timer_odd t ptr).trans hp) hc
      rw [show (2 * ptr + 1) / 2 = ptr by omega] at hreset
      exact hreset.trans (visits_heartBeat _ ptr)
    · obtain rfl := Option.some.inj e
      exact .refl ptr t

theorem Inv.updateAlive (h : t.Inv) (e : t.updateAlive ptr = some t') : t.Visits ptr t' := by
  rw [Timers.updateAlive] at e
  split at e
  · exact h.updateHeartBeat e
  · rename_i p hp
    obtain ⟨c, hc, e⟩ := Option.bind_eq_some_iff.mp e
    split at e
    · obtain rfl := Option.some.inj e
      exact .refl ptr t
    · have hreset := h.reset ((timer_even t ptr).trans hp) hc
      rw [Nat.mul_div_cancel_left ptr Nat.two_pos] at hreset
      exact hreset.trans ((h.runs hreset.toRuns).updateHeartBeat e)

/-- The visit of a session. -/
theorem Inv.update (h : t.Inv) {alive : Bool} (e : t.update alive ptr = some t') :
    t.Visits ptr t' := by
  rw [Timers.update] at e
  split at e
  · exact h.updateAlive e
  · obtain rfl := Option.some.inj e
    exact .refl ptr t

theorem runs_onUpdate (t : Timers) (timeDiff : ℤ) : t.Runs (t.onUpdate timeDiff) := by
  refine ⟨rfl, rfl, rfl, rfl, rfl, List.length_map .., fun _ => rfl, fun _ => rfl,
    fun i id dirty iv current hslot => ?_⟩
  show ∃ dirty' current', (t.aData.data.map _)[i]? = _
  rw [List.getElem?_map, hslot]
  cases dirty with
  | true => exact ⟨_, _, congrArg some (onUpdateTimer_component timeDiff id iv current)⟩
  | false =>
      refine ⟨false, current, congrArg some ?_⟩
      rw [onUpdateTimer, isDirty_component]
      rfl

end Timers

end PCGForUnity
