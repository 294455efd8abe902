/-
PCGForUnity/Network/SendWorker.lean

The send task of the server: `SocketServer::Send`, the task of the thread pool that runs
`SendDataHandler`, and `ConditionNotifier::Wait` with `IsSendQueueNotEmpty`.

What runs under a mutex is one step.  `Send` takes two, under `_sendLock`: the push, and
then `NotifyOne`.  The task reads the size of the queue, sends the front buffer, pops it,
and waits; a wait evaluates its predicate and returns or blocks in one step, and a
notified or spuriously woken task evaluates it again.

`SendDataHandler` has no loop, and `IsSendQueueNotEmpty` says that the queue is empty.
So the task sends one datagram in its life, and is lost to any other
(`not_lost_iff`).
-/
import PCGForUnity.Network.WriteBufferQueue

namespace PCGForUnity

/-- Where the send task stands: in the pool, in `SendDataHandler` before `Front`, before
`Pop` or before the predicate of `Wait`, blocked in `Wait`, or terminated. -/
inductive SendTask
  | queued
  | front
  | pop
  | wait
  | blocked
  | terminated
deriving DecidableEq, Repr

/-- The send queue with its task.  `sendLock` is held by a `Send` that has pushed and not
notified yet; `accepted` are the datagrams that `Send` took, and `handed` those that
`SendTo` took whole, so far. -/
structure SendWorker where
  writeQueue : WriteBufferQueue
  connected : Bool
  sendLock : Bool
  task : SendTask
  accepted : List Datagram
  handed : List Datagram
deriving DecidableEq, Repr

namespace SendWorker

open WriteBufferQueue WriteBufferQueue.QueueRun

/-! ### The task as coded -/

/-- After `AddTask` in `StartUp`, with the socket connected. -/
def startUp : SendWorker :=
  { writeQueue := .fresh
    connected := true
    sendLock := false
    task := .queued
    accepted := []
    handed := [] }

/-- `IsSendQueueNotEmpty`, with the negation that it has. -/
def isSendQueueNotEmpty (w : SendWorker) : Bool :=
  w.connected && decide (w.writeQueue.getActiveSize = 0)

/-- `NotifyOne` and `NotifyAll`: only the task ever waits. -/
def notify (w : SendWorker) : SendWorker :=
  match w.task with
  | .blocked => { w with task := .wait }
  | _ => w

/-- `Front`, `SendTo` with what it says it sent, and `ReadCompleted`. -/
def sendFront (mtu : ℕ) (w : SendWorker) (nbytes : Option ℕ) : Option SendWorker := do
  let buffer ← w.writeQueue.front
  match nbytes with
  | none => some { w with task := .wait }
  | some n =>
      if 0 < n ∧ n ≤ min mtu buffer.buffer.getActiveSize then
        let rest := buffer.buffer.readCompleted n
        let w := { w with writeQueue :=
          { w.writeQueue with
            writeList := w.writeQueue.writeList.set 0 { buffer with buffer := rest } } }
        if rest.getActiveSize ≤ 0 then
          some { w with
            task := .pop
            handed := w.handed ++ [content buffer] }
        else some { w with task := .wait }
      else none

/-- The steps of the producers, of the task and of the condition variable. -/
inductive Op
  | send (d : Datagram)
  | notifyOne
  | notifyAll
  | check
  | sendTo (nbytes : Option ℕ)
  | pop
  | wait
  | wake
deriving DecidableEq, Repr

/-- A step, if it can be taken. -/
def step (S : StdSort flushLess) (mtu : ℕ) (w : SendWorker) : Op → Option SendWorker
  | .send d =>
      if w.sendLock then none
      else if !w.connected then some w
      else do
        let (writeQueue, pushed) ← w.writeQueue.push S d
        if pushed then
          some { w with
            writeQueue
            sendLock := true
            accepted := w.accepted ++ [d] }
        else some { w with writeQueue }
  | .notifyOne => if w.sendLock then some { w.notify with sendLock := false } else none
  | .notifyAll => some w.notify
  | .check =>
      if w.task = .queued then
        some { w with task := if w.writeQueue.getActiveSize > 0 then .front else .terminated }
      else none
  | .sendTo nbytes => if w.task = .front then w.sendFront mtu nbytes else none
  | .pop =>
      if w.task = .pop then some { w with writeQueue := (w.writeQueue.pop S).1, task := .wait }
      else none
  | .wait =>
      if w.task = .wait then
        some { w with task := if w.isSendQueueNotEmpty then .terminated else .blocked }
      else none
  | .wake => if w.task = .blocked then some { w with task := .wait } else none

/-! ### What a send task is for -/

/-- Some datagram that `Send` accepted was not handed to the socket. -/
def Pending (w : SendWorker) : Prop := w.handed ≠ w.accepted

/-- While a datagram is pending the task has not terminated, and is not blocked on a
predicate that is false. -/
def NotLost (w : SendWorker) : Prop :=
  w.Pending → w.task ≠ .terminated ∧ (w.task = .blocked → w.isSendQueueNotEmpty = true)

/-- `Send` comes before the end of the task, and the task comes to `Wait` with one
datagram accepted, which `SendTo` took whole. -/
def InTime (w : SendWorker) : Op → Prop
  | .send _ => w.sendLock = false → w.task ≠ .terminated
  | .wait => w.task = .wait → w.accepted.length = 1 ∧ w.handed.length = 1
  | _ => True

/-! ### The queue before and after the one pop -/

variable {S : StdSort flushLess} {mtu : ℕ} {w w' : SendWorker} {op : Op} {d : Datagram}
  {q : WriteBufferQueue}

/-- A queue that nothing was popped from. -/
structure AllActive (q : WriteBufferQueue) : Prop where
  active : ∀ b ∈ q.writeList, b.active = true
  activepos : q.activepos = q.writeList.length

/-- A queue that was emptied by a pop, or never used. -/
def Empty (q : WriteBufferQueue) : Prop :=
  q = .fresh ∨ ∃ b, b.active = false ∧ q = { writeList := [b], activepos := 0 }

/-- A push on such a queue appends, or the queue is full. -/
theorem AllActive.push (h : AllActive q) {q' : WriteBufferQueue} {pushed : Bool}
    (e : q.push S d = some (q', pushed)) :
    AllActive q' ∧ if pushed then ∃ b, q'.writeList = q.writeList ++ [b] ∧ content b = d
      else q' = q := by
  rw [push_of_active h.active] at e
  split at e
  · obtain ⟨rfl, rfl⟩ := Prod.mk.inj (Option.some.inj e)
    have hfill := fill_eq (MessageBuffer.wf_ofSize d.data.length) (MessageBuffer.unread_ofSize _)
      rfl d.data (MessageBuffer.storage_ofSize_length _)
    refine ⟨⟨fun b hb => ?_, ?_⟩, _, rfl, ?_⟩
    · rcases List.mem_append.mp hb with hb | hb
      · exact h.active b hb
      · rw [List.mem_singleton.mp hb]
    · rw [List.length_append]
      rfl
    · rw [content, hfill.2]
  · obtain ⟨rfl, rfl⟩ := Prod.mk.inj (Option.some.inj e)
    exact ⟨h, rfl⟩

/-- A push on an empty queue is accepted. -/
theorem Empty.push (h : Empty q) (S : StdSort flushLess) (d : Datagram) :
    ∃ q', q.push S d = some (q', true) := by
  rcases h with rfl | ⟨b, hb, rfl⟩
  · rw [push_of_active (q := .fresh) fun b hb => absurd hb List.not_mem_nil]
    exact ⟨_, if_pos (by decide)⟩
  · exact ⟨_, push_of_drained hb 0 d⟩

theorem Empty.getActiveSize (h : Empty q) : q.getActiveSize = 0 := by
  rcases h with rfl | ⟨b, -, rfl⟩
  · rfl
  · rfl

theorem AllActive.empty (h : AllActive q) (hnil : q.writeList = []) : Empty q := by
  obtain ⟨l, activepos⟩ := q
  obtain rfl : l = [] := hnil
  obtain rfl : activepos = 0 := h.activepos
  exact Or.inl rfl

/-! ### Runs in which nothing is lost -/

/-- What holds at each place of the task. -/
def AtPlace (w : SendWorker) : SendTask → Prop
  | .queued =>
      AllActive w.writeQueue ∧ w.writeQueue.writeList.map content = w.accepted ∧ w.handed = []
  | .front =>
      AllActive w.writeQueue ∧ w.writeQueue.writeList.map content = w.accepted ∧ w.handed = [] ∧
        w.accepted ≠ []
  | .pop =>
      AllActive w.writeQueue ∧ w.writeQueue.writeList.length = w.accepted.length ∧
        w.handed = w.accepted.take 1 ∧ w.accepted ≠ []
  | .wait =>
      w.accepted ≠ [] ∧ (w.handed = [] ∨
        w.handed = w.accepted.take 1 ∧ (w.accepted.length = 1 → Empty w.writeQueue))
  | .blocked => False
  | .terminated => w.handed = w.accepted ∧ Empty w.writeQueue

/-- The socket is connected, and the task is where it should be. -/
def Alright (w : SendWorker) : Prop := w.connected = true ∧ w.AtPlace w.task

theorem Alright.notLost (h : w.Alright) : w.NotLost := by
  obtain ⟨-, h⟩ := h
  intro hpending
  constructor
  · intro e
    rw [e] at h
    exact hpending h.1
  · intro e
    rw [e] at h
    exact h.elim

/-- A push that is refused. -/
theorem AtPlace.refused {task : SendTask} (h : w.AtPlace task)
    (hpush : w.writeQueue.push S d = some (q, false)) :
    AtPlace { w with writeQueue := q } task := by
  cases task with
  | queued =>
      obtain rfl : q = w.writeQueue := (h.1.push hpush).2
      exact h
  | front =>
      obtain rfl : q = w.writeQueue := (h.1.push hpush).2
      exact h
  | pop =>
      obtain rfl : q = w.writeQueue := (h.1.push hpush).2
      exact h
  | wait =>
      obtain ⟨hne, hhanded | ⟨hhanded, hempty⟩⟩ := h
      · exact ⟨hne, Or.inl hhanded⟩
      · refine ⟨hne, Or.inr ⟨hhanded, fun hone => ?_⟩⟩
        -- an empty queue would have accepted it
        obtain ⟨q', hpush'⟩ := (hempty hone).push S d
        rw [hpush'] at hpush
        cases (Prod.mk.inj (Option.some.inj hpush)).2
  | blocked => exact h
  | terminated =>
      obtain ⟨q', hpush'⟩ := h.2.push S d
      rw [hpush'] at hpush
      cases (Prod.mk.inj (Option.some.inj hpush)).2

/-- A push that is accepted while the task has not terminated. -/
theorem AtPlace.pushed {task : SendTask} (h : w.AtPlace task) (htask : task ≠ .terminated)
    (hpush : w.writeQueue.push S d = some (q, true)) (sendLock : Bool) :
    AtPlace { w with writeQueue := q, sendLock, accepted := w.accepted ++ [d] } task := by
  have hne : w.accepted ++ [d] ≠ [] := List.append_ne_nil_of_right_ne_nil _ (List.cons_ne_nil d [])
  have htake (ha : w.accepted ≠ []) : (w.accepted ++ [d]).take 1 = w.accepted.take 1 :=
    List.take_append_of_le_length (List.length_pos_iff.mpr ha)
  have happend (hq : AllActive w.writeQueue) : AllActive q ∧
      ∃ b, q.writeList = w.writeQueue.writeList ++ [b] ∧ content b = d := hq.push hpush
  have hmap (hq : AllActive w.writeQueue) (hcontent : w.writeQueue.writeList.map content = w.accepted) :
      q.writeList.map content = w.accepted ++ [d] := by
    obtain ⟨-, b, hlist, hb⟩ := happend hq
    rw [hlist, List.map_append, hcontent, List.map_singleton, hb]
  cases task with
  | queued =>
      obtain ⟨hq, hcontent, hhanded⟩ := h
      exact ⟨(happend hq).1, hmap hq hcontent, hhanded⟩
  | front =>
      obtain ⟨hq, hcontent, hhanded, -⟩ := h
      exact ⟨(happend hq).1, hmap hq hcontent, hhanded, hne⟩
  | pop =>
      obtain ⟨hq, hlength, hhanded, ha⟩ := h
      obtain ⟨hq', b, hlist, -⟩ := happend hq
      refine ⟨hq', ?_, hhanded.trans (htake ha).symm, hne⟩
      show q.writeList.length = _
      rw [hlist, List.length_append, List.length_append, hlength]
      rfl
  | wait =>
      obtain ⟨ha, hhanded | ⟨hhanded, -⟩⟩ := h
      · exact ⟨hne, Or.inl hhanded⟩
      · refine ⟨hne, Or.inr ⟨hhanded.trans (htake ha).symm, fun hone => ?_⟩⟩
        -- there was one before
        have hpos := List.length_pos_iff.mpr ha
        rw [List.length_append, List.length_singleton] at hone
        omega
  | blocked => exact h
  | terminated => exact absurd rfl htask

/-- `Send` before the end of the task. -/
theorem Alright.send (h : w.Alright) (htask : w.sendLock = false → w.task ≠ .terminated)
    (e : w.step S mtu (.send d) = some w') : w'.Alright := by
  obtain ⟨hconnected, h⟩ := h
  have hno : ¬ (!w.connected) = true := by
    rw [hconnected]
    decide
  rw [step, if_neg hno] at e
  split at e
  · cases e
  · rename_i hlock
    obtain ⟨⟨q, pushed⟩, hpush, e⟩ := Option.bind_eq_some_iff.mp e
    cases pushed with
    | false =>
        cases e
        exact ⟨hconnected, h.refused hpush⟩
    | true =>
        cases e
        exact ⟨hconnected, h.pushed (htask (Bool.eq_false_iff.mpr hlock)) hpush true⟩

/-- `SendTo` takes the front datagram whole, or the task waits. -/
theorem Alright.sendTo (h : w.Alright) {nbytes : Option ℕ}
    (e : w.step S mtu (.sendTo nbytes) = some w') : w'.Alright := by
  obtain ⟨hconnected, h⟩ := h
  rw [step] at e
  split at e
  · rename_i htask
    rw [htask] at h
    obtain ⟨hq, hcontent, hhanded, hne⟩ := h
    obtain ⟨buffer, hfront, e⟩ := Option.bind_eq_some_iff.mp e
    cases nbytes with
    | none =>
        cases e
        -- `sendto` failed: the datagram stays, and the task comes to `Wait`
        exact ⟨hconnected, hne, Or.inl hhanded⟩
    | some n =>
        simp only at e
        split at e
        · split at e
          · cases e
            refine ⟨hconnected, ⟨fun b hb => ?_, ?_⟩, ?_, ?_, hne⟩
            · rcases List.mem_or_eq_of_mem_set hb with hb | rfl
              · exact hq.active b hb
              · exact hq.active buffer (List.mem_of_getElem? hfront)
            · exact hq.activepos.trans (List.length_set ..).symm
            · show (w.writeQueue.writeList.set 0 _).length = _
              rw [List.length_set, ← hcontent, List.length_map]
            · obtain ⟨l, hl⟩ : ∃ l, w.writeQueue.writeList = buffer :: l := by
                rw [front] at hfront
                rcases hlist : w.writeQueue.writeList with - | ⟨b, l⟩
                · rw [hlist] at hfront
                  cases hfront
                · rw [hlist] at hfront
                  cases hfront
                  exact ⟨l, rfl⟩
              show w.handed ++ [content buffer] = w.accepted.take 1
              rw [hhanded, ← hcontent, hl]
              rfl
          · cases e
            exact ⟨hconnected, hne, Or.inl hhanded⟩
        · cases e
  · cases e

/-- The pop empties the queue if one datagram was accepted. -/
theorem Alright.pop (h : w.Alright) (e : w.step S mtu .pop = some w') : w'.Alright := by
  obtain ⟨hconnected, h⟩ := h
  rw [step] at e
  split at e
  · rename_i htask
    rw [htask] at h
    obtain ⟨hq, hlength, hhanded, hne⟩ := h
    cases e
    refine ⟨hconnected, hne, Or.inr ⟨hhanded, fun hone => ?_⟩⟩
    obtain ⟨b, hb⟩ := List.length_eq_one_iff.mp (hlength.trans hone)
    have hqueue : w.writeQueue = { writeList := [b], activepos := w.writeQueue.activepos } := by
      rw [← hb]
    show Empty (w.writeQueue.pop S).1
    rw [hqueue, pop_singleton]
    exact Or.inr ⟨_, rfl, rfl⟩
  · cases e

/-- The predicate of `Wait` is true once the one datagram accepted was popped. -/
theorem Alright.wait (h : w.Alright) (hop : w.InTime .wait) (e : w.step S mtu .wait = some w') :
    w'.Alright := by
  obtain ⟨hconnected, h⟩ := h
  rw [step] at e
  split at e
  · rename_i htask
    rw [htask] at h
    obtain ⟨haccepted, hone⟩ := hop htask
    obtain ⟨hne, hhanded | ⟨hhanded, hempty⟩⟩ := h
    · rw [hhanded] at hone
      cases hone
    · have hqueue := hempty haccepted
      -- an empty queue makes the predicate true, against its name
      have hpred : w.isSendQueueNotEmpty = true := by
        rw [isSendQueueNotEmpty, hconnected, hqueue.getActiveSize]
        rfl
      rw [if_pos hpred] at e
      cases e
      refine ⟨hconnected, hhanded.trans (List.take_of_length_le ?_), hqueue⟩
      exact Nat.le_of_eq haccepted
  · cases e

/-- A step of a run in which nothing is lost. -/
theorem Alright.step (h : w.Alright) (hop : w.InTime op) (e : w.step S mtu op = some w') :
    w'.Alright := by
  -- the task is never blocked, so a notification wakes nobody
  have hnotify : w.notify = w := by
    rw [notify]
    split
    · rename_i htask
      have hblocked := h.2
      rw [htask] at hblocked
      exact hblocked.elim
    · rfl
  cases op with
  | send d => exact h.send hop e
  | notifyOne =>
      rw [SendWorker.step, hnotify] at e
      split at e
      · cases e
        exact h
      · cases e
  | notifyAll =>
      rw [SendWorker.step, hnotify] at e
      cases e
      exact h
  | check =>
      obtain ⟨hconnected, h⟩ := h
      rw [SendWorker.step] at e
      split at e
      · rename_i htask
        rw [htask] at h
        obtain ⟨hq, hcontent, hhanded⟩ := h
        -- nothing was popped yet, so the queue holds all that was accepted
        have hsize : w.writeQueue.getActiveSize = w.accepted.length := by
          rw [← hcontent, List.length_map]
          exact hq.activepos
        cases e
        split
        · rename_i hpos
          rw [hsize] at hpos
          exact ⟨hconnected, hq, hcontent, hhanded, List.length_pos_iff.mp hpos⟩
        · rename_i hzero
          rw [hsize] at hzero
          have hnil : w.accepted = [] :=
            List.length_eq_zero_iff.mp (Nat.eq_zero_of_not_pos hzero)
          rw [hnil] at hcontent
          exact ⟨hconnected, hhanded.trans hnil.symm, hq.empty (List.map_eq_nil_iff.mp hcontent)⟩
      · cases e
  | sendTo nbytes => exact h.sendTo e
  | pop => exact h.pop e
  | wait => exact h.wait hop e
  | wake =>
      -- nobody waits to be woken
      rw [SendWorker.step] at e
      split at e
      · rename_i htask
        have hblocked := h.2
        rw [htask] at hblocked
        exact hblocked.elim
      · cases e

/-- A `Send` after the end of the task is accepted, and its datagram stays. -/
theorem Alright.lost_of_send (h : w.Alright) (hlock : w.sendLock = false)
    (htask : w.task = .terminated) (S : StdSort flushLess) (mtu : ℕ) (d : Datagram) :
    ∃ w', w.step S mtu (.send d) = some w' ∧ ¬ w'.NotLost := by
  obtain ⟨hconnected, h⟩ := h
  rw [htask] at h
  obtain ⟨hhanded, hempty⟩ := h
  obtain ⟨q, hpush⟩ := hempty.push S d
  refine ⟨{ w with writeQueue := q, sendLock := true, accepted := w.accepted ++ [d] }, ?_,
    fun hnot => ?_⟩
  · rw [SendWorker.step, hlock, hconnected, hpush]
    rfl
  · apply (hnot ?_).1 htask
    intro e
    rw [← show w.handed = w.accepted from hhanded] at e
    exact List.cons_ne_nil d [] (List.self_eq_append_right.mp e)

/-- A task that comes to `Wait` with a datagram left ends, or blocks for good. -/
theorem Alright.lost_of_wait (h : w.Alright) (htask : w.task = .wait)
    (hno : ¬ (w.accepted.length = 1 ∧ w.handed.length = 1)) (S : StdSort flushLess) (mtu : ℕ) :
    ∃ w', w.step S mtu .wait = some w' ∧ ¬ w'.NotLost := by
  -- a failed `sendto` left it in the queue, or the pop hid the others
  obtain ⟨-, h⟩ := h
  rw [htask] at h
  have hpending : w.Pending := by
    intro e
    obtain ⟨hne, hhanded | ⟨hhanded, -⟩⟩ := h
    · exact hne (e.symm.trans hhanded)
    · have hpos := List.length_pos_iff.mpr hne
      rw [e] at hhanded hno
      have hlen := congrArg List.length hhanded
      rw [List.length_take] at hlen
      omega
  refine ⟨_, if_pos htask, fun hnot => ?_⟩
  obtain ⟨hended, hblocked⟩ := hnot hpending
  cases hpred : w.isSendQueueNotEmpty with
  | true =>
      apply hended
      show (if w.isSendQueueNotEmpty then _ else _) = _
      rw [if_pos hpred]
  | false =>
      have htrue : w.isSendQueueNotEmpty = true := by
        apply hblocked
        show (if w.isSendQueueNotEmpty then _ else _) = _
        rw [hpred]
        rfl
      rw [hpred] at htrue
      cases htrue

/-- **When the send task is not lost.**  In every state of a run after `StartUp`, if a
datagram is pending then the task has not terminated and is not blocked on a false
predicate, if and only if every `Send` of the run comes before the end of the task and
the task comes to `Wait` with exactly one datagram accepted, which was sent whole. -/
theorem not_lost_iff (S : StdSort flushLess) (mtu : ℕ) (ops : List Op) :
    (∀ pre w, pre <+: ops → pre.foldlM (step S mtu) startUp = some w → w.NotLost) ↔
      ∀ pre op w, pre ++ [op] <+: ops → pre.foldlM (step S mtu) startUp = some w →
        w.InTime op := by
  refine Run.forall_prefix_iff (step S mtu) Alright NotLost (fun _ => True) InTime
    (fun _ h => h.notLost) (fun _ _ _ h _ hop e => h.step hop e) ?_ ?_ (fun _ _ => trivial)
  · intro w op h _ hno
    cases op with
    | send d =>
        obtain ⟨hlock, htask⟩ := Classical.not_imp.mp hno
        exact h.lost_of_send hlock (not_not.mp htask) S mtu d
    | wait =>
        obtain ⟨htask, hno⟩ := Classical.not_imp.mp hno
        exact h.lost_of_wait htask hno S mtu
    | _ => exact absurd trivial hno
  · exact ⟨rfl, ⟨fun b hb => absurd hb List.not_mem_nil, rfl⟩, rfl, rfl⟩

/-- The task runs before the first datagram, as it does when `StartUp` adds it. -/
theorem lost_of_late_send :
    let S := StdSort.byFlag SocketWriteBuffer.active
    let d : Datagram := ⟨[1], ⟨2, 4000, 7⟩⟩
    ∃ w, [Op.check, .send d, .notifyOne].foldlM (step S 512) startUp = some w ∧
      w.accepted = [d] ∧ w.handed = [] ∧ w.task = .terminated ∧ ¬ w.NotLost := by
  intro S d
  refine ⟨_, rfl, rfl, rfl, rfl, fun h => ?_⟩
  exact (h (List.cons_ne_nil d []).symm).1 rfl

end SendWorker

end PCGForUnity
