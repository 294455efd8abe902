/-
PCGForUnity/Network/WriteBufferQueue.lean

The send queue of the server (`WriteBufferQueue.cpp`): a list of buffers of which
some are active, recycled by `Push`, retired by `Pop` and re-sorted by `Flush`.

The comparator of `Flush` puts the inactive buffers *first*, while the counter it
then takes, `Front` and `Pop` all look at the front of the list.  So the queue
behaves as a FIFO only as long as no inactive buffer comes to stand before an
active one.

Three layers: the code (`push`, `pop`, `flush`), the history of a run of it
(`QueueRun`), and the bounded FIFO it is meant to be (`Fifo`).  The refinement
`refines_iff_popAllowed` says exactly which runs implement the FIFO.
-/
import PCGForUnity.Lib.Run
import PCGForUnity.Lib.StdSort
import PCGForUnity.Network.SocketConfig

namespace PCGForUnity

/-- `struct SocketWriteBuffer`. -/
structure SocketWriteBuffer where
  buffer : MessageBuffer
  addr : SockAddr
  active : Bool
deriving DecidableEq, Repr

/-- The members of class `WriteBufferQueue`. -/
structure WriteBufferQueue where
  writeList : List SocketWriteBuffer
  activepos : Nat
deriving DecidableEq, Repr

/-- A datagram handed to `Push`. -/
structure Datagram where
  data : List Byte
  addr : SockAddr
deriving DecidableEq, Repr

namespace WriteBufferQueue

/-! ### The queue as coded -/

/-- `MAX_WRITE_BUFFER_SIZE`. -/
def maxWriteBufferSize : Nat := 128

/-- The comparator `Flush` passes to `std::sort`. -/
def flushLess (a b : SocketWriteBuffer) : Bool := !a.active && b.active

/-- `WriteBufferQueue()`. -/
def fresh : WriteBufferQueue := { writeList := [], activepos := 0 }

section Code

variable (S : StdSort flushLess)

/-- `Flush`: sort, then count the active buffers the list starts with. -/
def flush (q : WriteBufferQueue) : WriteBufferQueue :=
  let sorted := S.sort q.writeList
  { writeList := sorted, activepos := (sorted.takeWhile (·.active)).length }

/-- `Push`: reuse the first inactive buffer, else append a new one, else refuse. -/
def push (q : WriteBufferQueue) (d : Datagram) : Option (WriteBufferQueue × Bool) :=
  match q.writeList.findIdx? fun buffer => !buffer.active with
  | some i => do
      let freeBuffer ← q.writeList[i]?
      let buffer ← (freeBuffer.buffer.resize d.data.length).reset.write d.data
      let reused : SocketWriteBuffer := { buffer, addr := d.addr, active := true }
      some (flush S { q with writeList := q.writeList.set i reused }, true)
  | none =>
      if q.writeList.length < maxWriteBufferSize then do
        let buffer ← (MessageBuffer.ofSize d.data.length).write d.data
        let writeList := q.writeList ++ [{ buffer, addr := d.addr, active := true }]
        -- a new buffer is appended without a flush
        some ({ writeList, activepos := writeList.length }, true)
      else some (q, false)

/-- `Front`: `vector::at(0)`. -/
def front (q : WriteBufferQueue) : Option SocketWriteBuffer := q.writeList[0]?

/-- `Pop`. -/
def pop (q : WriteBufferQueue) : WriteBufferQueue × Bool :=
  match q.writeList with
  | [] => (q, false)
  | first :: rest => (flush S { q with writeList := { first with active := false } :: rest }, true)

/-- `GetActiveSize` -/
def getActiveSize (q : WriteBufferQueue) : Nat := q.activepos

end Code

/-! ### Runs and what a FIFO promises of them -/

/-- The two operations of a client of the queue. -/
inductive Op
  | push (d : Datagram)
  | pop
deriving DecidableEq, Repr

/-- A queue together with the datagrams its pushes accepted, in order, and the
number of pops that returned `true`. -/
structure QueueRun where
  queue : WriteBufferQueue
  accepted : List Datagram
  popped : Nat
deriving DecidableEq, Repr

namespace QueueRun

/-- A new queue. -/
def fresh : QueueRun := { queue := WriteBufferQueue.fresh, accepted := [], popped := 0 }

/-- One call, with its answer entered in the history. -/
def step (S : StdSort flushLess) (r : QueueRun) : Op → Option QueueRun
  | .push d => do
      let (queue, accepted) ← r.queue.push S d
      some { r with queue, accepted := if accepted then r.accepted ++ [d] else r.accepted }
  | .pop =>
      let (queue, popped) := r.queue.pop S
      some { r with queue, popped := if popped then r.popped + 1 else r.popped }

theorem step_pop (S : StdSort flushLess) (r : QueueRun) :
    r.step S .pop = some { r with
      queue := (r.queue.pop S).1
      popped := if (r.queue.pop S).2 then r.popped + 1 else r.popped } := rfl

/-- Successful pushes minus successful pops. -/
def outstanding (r : QueueRun) : Int := r.accepted.length - r.popped

/-- The datagram a buffer holds. -/
def content (b : SocketWriteBuffer) : Datagram := { data := b.buffer.unread, addr := b.addr }

/-- What a bounded FIFO of datagrams promises of the state after a run. -/
structure RefinesFifo (S : StdSort flushLess) (r : QueueRun) : Prop where
  activeSize : (r.queue.getActiveSize : Int) = r.outstanding
  front_oldest : 0 < r.outstanding →
    r.queue.front.map content = r.accepted[r.popped]? ∧ r.queue.front ≠ none
  push_fails_iff : ∀ d, (∃ q, r.queue.push S d = some (q, false)) ↔
    r.outstanding = maxWriteBufferSize
  not_overwritten :
    ((r.queue.writeList.filter (·.active)).map content).Perm (r.accepted.drop r.popped)

end QueueRun

/-! ### The bounded FIFO -/

/-- The abstract queue: what is outstanding, oldest first, and whether anything
was ever pushed. -/
structure Fifo where
  outstanding : List Datagram
  pushed : Bool
deriving DecidableEq, Repr

namespace Fifo

/-- Nothing waits. -/
def empty : Fifo := { outstanding := [], pushed := false }

/-- What an operation does to a queue of at most `maxWriteBufferSize`. -/
def step (a : Fifo) : Op → Fifo
  | .push d =>
      if a.outstanding.length < maxWriteBufferSize then
        { outstanding := a.outstanding ++ [d], pushed := true }
      else a
  | .pop => { a with outstanding := a.outstanding.tail }

/-- The pops the code serves as a FIFO does: those before the first push and
those with exactly one datagram outstanding. -/
def PopAllowed (a : Fifo) : Op → Prop
  | .push _ => True
  | .pop => a.pushed = false ∨ a.outstanding.length = 1

instance (a : Fifo) : (op : Op) → Decidable (a.PopAllowed op)
  | .push _ => inferInstanceAs (Decidable True)
  | .pop => inferInstanceAs (Decidable (_ ∨ _))

end Fifo

/-! ### The states in which code and FIFO agree -/

open QueueRun

/-- The states a run of allowed operations reaches: nothing was ever pushed;
the only buffer is inactive; or every buffer is active and the list is the FIFO. -/
inductive Agree : QueueRun → Fifo → Prop
  | unused : Agree QueueRun.fresh Fifo.empty
  | drained (b : SocketWriteBuffer) (accepted : List Datagram) :
      b.active = false → accepted ≠ [] →
      Agree { queue := { writeList := [b], activepos := 0 }, accepted,
              popped := accepted.length }
        { outstanding := [], pushed := true }
  | full (l : List SocketWriteBuffer) (accepted : List Datagram) (popped : Nat) :
      l ≠ [] → l.length ≤ maxWriteBufferSize → (∀ b ∈ l, b.active = true) →
      l.map content = accepted.drop popped →
      Agree { queue := { writeList := l, activepos := l.length }, accepted, popped }
        { outstanding := accepted.drop popped, pushed := true }

section

variable {S : StdSort flushLess}

/-- The buffer a push fills, fresh or recycled, holds exactly the datagram. -/
theorem fill_eq {b : MessageBuffer} (hw : b.WF) (h₀ : b.unread = []) (hp : b.wpos = 0)
    (data : List Byte) (hs : b.storage.length = data.length) :
    b.write data = some (b.written data) ∧ (b.written data).unread = data := by
  have hfit : b.wpos + data.length ≤ b.storage.length := by omega
  refine ⟨MessageBuffer.write_eq_written hfit, ?_⟩
  rw [hw.unread_written hfit, h₀, List.nil_append]

theorem findIdx?_eq_none_of_active {l : List SocketWriteBuffer}
    (h : ∀ b ∈ l, b.active = true) : (l.findIdx? fun b => !b.active) = none := by
  rw [List.findIdx?_eq_none_iff]
  intro b hb
  simp [h b hb]

/-- With every buffer active a push appends, as long as there is room. -/
theorem push_of_active {q : WriteBufferQueue} (h : ∀ b ∈ q.writeList, b.active = true)
    (d : Datagram) :
    q.push S d = if q.writeList.length < maxWriteBufferSize then
      some ({ writeList := q.writeList ++ [{ buffer := (MessageBuffer.ofSize d.data.length).written d.data,
                                             addr := d.addr, active := true }]
              activepos := q.writeList.length + 1 }, true)
      else some (q, false) := by
  have hf := (fill_eq (MessageBuffer.wf_ofSize d.data.length) (by simp) rfl d.data
    (MessageBuffer.storage_ofSize_length _)).1
  simp only [push, findIdx?_eq_none_of_active h, hf]
  split <;> simp

/-- A push on a drained queue recycles its one buffer. -/
theorem push_of_drained {b : SocketWriteBuffer} (hb : b.active = false) (n : Nat)
    (d : Datagram) :
    push S { writeList := [b], activepos := n } d
      = some ({ writeList := [{ buffer := ((b.buffer.resize d.data.length).reset).written d.data,
                                addr := d.addr, active := true }]
                activepos := 1 }, true) := by
  have hf := (fill_eq (MessageBuffer.wf_reset (b.buffer.resize d.data.length)) (by simp) rfl
    d.data (by simp)).1
  simp [push, hb, hf, flush]

theorem pop_singleton (b : SocketWriteBuffer) (n : Nat) :
    pop S { writeList := [b], activepos := n }
      = ({ writeList := [{ b with active := false }], activepos := 0 }, true) := by
  simp [pop, flush]

/-- A pop that leaves an active buffer behind hides all of them: the sorted list
starts with the buffer just retired. -/
theorem pop_hides (S : StdSort flushLess) (b : SocketWriteBuffer)
    (rest : List SocketWriteBuffer) (n : Nat) :
    (pop S { writeList := b :: rest, activepos := n }).1.activepos = 0 := by
  rcases hs : S.sort ({ b with active := false } :: rest) with - | ⟨a, l⟩
  · simp [pop, flush, hs]
  · have hmem : { b with active := false } ∈ a :: l := by
      rw [← hs]
      exact (S.perm _).mem_iff.mpr (by simp)
    have ha : a.active = false := by
      rcases List.mem_cons.mp hmem with h | h
      · rw [← h]
      · have := S.head_not_greater hs _ h
        simpa [flushLess] using this
    simp [pop, flush, hs, ha]

/-! ### Step and run lemmas -/

/-- Where code and FIFO agree, the code keeps every promise of a FIFO. -/
theorem Agree.refines {r : QueueRun} {a : Fifo} (h : Agree r a) : r.RefinesFifo S := by
  cases h with
  | unused =>
      refine ⟨rfl, fun h => absurd h (by decide), fun d => ?_, by decide⟩
      rw [push_of_active (by simp [QueueRun.fresh, WriteBufferQueue.fresh])]
      simp [QueueRun.fresh, WriteBufferQueue.fresh, outstanding, maxWriteBufferSize]
  | drained b accepted hb hne =>
      refine ⟨?_, fun h => ?_, fun d => ?_, ?_⟩
      · simp [getActiveSize, outstanding]
      · simp [outstanding] at h
      · rw [push_of_drained hb]
        simp [outstanding, maxWriteBufferSize]
      · simp [hb]
  | full l accepted popped hne hlen hact hcont =>
      have hl : (l.length : Int) = accepted.length - popped := by
        have := congrArg List.length hcont
        have hpos : 0 < l.length := List.length_pos_iff.mpr hne
        simp only [List.length_map, List.length_drop] at this
        omega
      refine ⟨hl, fun _ => ⟨?_, ?_⟩, fun d => ?_, ?_⟩
      · have := congrArg (·[0]?) hcont
        simpa [front] using this
      · simpa [front] using hne
      · rw [push_of_active hact]
        by_cases hc : l.length < maxWriteBufferSize
        · rw [if_pos hc]
          refine iff_of_false (by simp) ?_
          show ¬ ((accepted.length : Int) - popped = maxWriteBufferSize)
          omega
        · rw [if_neg hc]
          refine iff_of_true ⟨_, rfl⟩ ?_
          show (accepted.length : Int) - popped = maxWriteBufferSize
          omega
      · rw [List.filter_eq_self.mpr hact, hcont]

/-- An allowed call is answered as the FIFO answers it. -/
theorem Agree.step {r : QueueRun} {a : Fifo} {op : Op} (h : Agree r a)
    (hop : a.PopAllowed op) :
    ∃ r', r.step S op = some r' ∧ Agree r' (a.step op) := by
  cases op with
  | push d =>
      have hfresh := fill_eq (MessageBuffer.wf_ofSize d.data.length) (by simp) rfl d.data
        (MessageBuffer.storage_ofSize_length d.data.length)
      cases h with
      | unused =>
          refine ⟨_, by rw [QueueRun.step, push_of_active (by
            simp [QueueRun.fresh, WriteBufferQueue.fresh])]; rfl, ?_⟩
          refine Agree.full [_] [d] 0 (by simp)
            (by simp [maxWriteBufferSize]) (by simp) ?_
          simp [content, hfresh.2]
      | drained b accepted hb hne =>
          -- the buffer of the last datagram is used again
          have hre := fill_eq (MessageBuffer.wf_reset (b.buffer.resize d.data.length)) (by simp) rfl
            d.data (by simp)
          refine ⟨_, by rw [QueueRun.step, push_of_drained hb]; rfl, ?_⟩
          have hd : d = ⟨d.data, d.addr⟩ := rfl
          have := Agree.full [⟨(b.buffer.resize d.data.length).reset.written d.data,
            d.addr, true⟩] (accepted ++ [d]) accepted.length
            (by simp) (by simp [maxWriteBufferSize]) (by simp) (by simp [content, hre.2])
          simpa [Fifo.step, maxWriteBufferSize] using this
      | full l accepted popped hne hlen hact hcont =>
          have hlen' : (accepted.drop popped).length = l.length := by
            rw [← hcont, List.length_map]
          by_cases hroom : l.length < maxWriteBufferSize
          -- every buffer is in use: `push` makes a new one at the end
          · refine ⟨_, by rw [QueueRun.step, push_of_active hact, if_pos hroom]; rfl, ?_⟩
            have hpop : popped ≤ accepted.length := by
              have hpos : 0 < l.length := List.length_pos_iff.mpr hne
              rw [List.length_drop] at hlen'
              omega
            have hdrop : (accepted ++ [d]).drop popped = accepted.drop popped ++ [d] :=
              List.drop_append_of_le_length hpop
            have := Agree.full (l ++ [⟨(MessageBuffer.ofSize d.data.length).written d.data,
              d.addr, true⟩]) (accepted ++ [d]) popped
              (by simp) (by rw [List.length_append]; exact hroom)
              (by simpa [or_imp, forall_and] using hact)
              (by rw [List.map_append, hcont, hdrop]; simp [content, hfresh.2])
            rw [hdrop] at this
            simpa [Fifo.step, hlen', hroom] using this
          -- the queue is full, and both refuse the datagram
          · refine ⟨_, by rw [QueueRun.step, push_of_active hact, if_neg hroom]; rfl, ?_⟩
            have := Agree.full l accepted popped hne hlen hact hcont
            simpa [Fifo.step, hlen', hroom] using this
  | pop =>
      cases h with
      | unused => exact ⟨_, rfl, Agree.unused⟩
      | drained b accepted hb hne => simp [Fifo.PopAllowed] at hop
      | full l accepted popped hne hlen hact hcont =>
          -- the only datagram goes, and its buffer stays as one to use again
          have hone : (accepted.drop popped).length = 1 := by simpa [Fifo.PopAllowed] using hop
          obtain ⟨b, rfl⟩ : ∃ b, l = [b] := by
            rw [← List.length_eq_one_iff, ← hone, ← hcont, List.length_map]
          have hacc : accepted ≠ [] := by
            rintro rfl
            simp at hone
          have hpop : popped + 1 = accepted.length := by
            rw [List.length_drop] at hone
            omega
          have htail : (accepted.drop popped).tail = [] := by
            rw [List.tail_drop, hpop, List.drop_length]
          refine ⟨_, by rw [QueueRun.step_pop, pop_singleton], ?_⟩
          have := Agree.drained { b with active := false } accepted rfl hacc
          simpa [Fifo.step, htail, hpop] using this

/-- A pop that is not allowed leaves a state that no FIFO has. -/
theorem Agree.not_refines {r : QueueRun} {a : Fifo} {op : Op} (h : Agree r a)
    (hop : ¬ a.PopAllowed op) :
    ¬ ∃ r', r.step S op = some r' ∧ r'.RefinesFifo S := by
  rintro ⟨r', e, hr⟩
  have hsize := hr.activeSize
  clear hr
  cases op with
  | push d => exact hop trivial
  | pop =>
      cases h with
      | unused => exact hop (Or.inl rfl)
      | drained b accepted hb hne =>
          -- the pop of a drained queue still answers `true`
          rw [QueueRun.step_pop, pop_singleton] at e
          obtain rfl := Option.some.inj e
          simp only [getActiveSize, outstanding, if_true] at hsize
          omega
      | full l accepted popped hne hlen hact hcont =>
          have hlen' : (accepted.drop popped).length = l.length := by
            rw [← hcont, List.length_map]
          have htwo : 2 ≤ l.length := by
            have hpos : 0 < l.length := List.length_pos_iff.mpr hne
            simp only [Fifo.PopAllowed, Bool.true_eq_false, false_or] at hop
            omega
          obtain ⟨b, rest, rfl⟩ := List.exists_cons_of_ne_nil hne
          have hhide := pop_hides S b rest (rest.length + 1)
          rw [QueueRun.step_pop] at e
          obtain rfl := Option.some.inj e
          -- the sort puts the popped buffer first: `activepos` is 0, though more is outstanding
          have hzero : (0 : Int) = (accepted.length : Int) - ((popped + 1 : Nat) : Int) := by
            rw [← Int.natCast_zero, ← hhide]
            exact hsize
          rw [List.length_drop] at hlen'
          omega

end

/-- **The queue is a FIFO exactly on the runs whose pops are allowed**: all the
promises of a bounded FIFO hold after every prefix of the calls if and only if
each `Pop` comes before the first push or finds exactly one datagram
outstanding. -/
theorem refines_iff_popAllowed (S : StdSort flushLess) (ops : List Op) :
    (∀ pre, pre <+: ops →
      ∃ r, pre.foldlM (QueueRun.step S) QueueRun.fresh = some r ∧ r.RefinesFifo S)
      ↔ Run.EachStep Fifo.step Fifo.PopAllowed Fifo.empty ops :=
  Run.forall_prefix_good_iff (QueueRun.step S) Fifo.step Agree (fun _ _ => True) Fifo.PopAllowed
    (fun o _ => ∃ r, o = some r ∧ r.RefinesFifo S)
    (fun r _ h => ⟨r, rfl, h.refines⟩)
    (fun _ _ _ h _ hop => h.step hop)
    (fun _ _ _ h _ hop => h.not_refines hop)
    Agree.unused (Run.eachStep_true _ _)

/-- Two datagrams pushed and one popped: the one left over is no longer counted. -/
theorem pop_of_two_not_fifo :
    ¬ ∃ r, [Op.push ⟨[1], ⟨2, 1, 1⟩⟩, Op.push ⟨[2], ⟨2, 1, 1⟩⟩, Op.pop].foldlM
        (QueueRun.step (StdSort.byFlag SocketWriteBuffer.active)) QueueRun.fresh = some r ∧
      r.RefinesFifo (StdSort.byFlag SocketWriteBuffer.active) := by
  rintro ⟨r, e, hr⟩
  have hsize := hr.activeSize
  clear hr
  obtain rfl := Option.some.inj e
  revert hsize
  decide

end WriteBufferQueue

end PCGForUnity
