/-
PCGForUnity/Network/MessageQueue.lean

The messages that KCP has complete for a session, when a datagram completes any number of
them.  In every run of datagrams and updates the messages are parsed in order, each once, and

    updates find nothing waiting
      ↔  in every stretch of events before one the datagrams completed no more messages
         than they were

(`queue_empty_iff`).

`OnReceive` takes one message a datagram; `Update` asks for one of at most the active size of
the read buffer, which is 0, and takes none.

Design.  A session with messages waiting is a session of `ServerFraming` with a longer queue:
taking one message is the same step as if the datagram had brought it alone
(`onReceive_withQueue`).  How long the queue is then is arithmetic on lists of events, a
running sum that is cut off at zero.
-/
import PCGForUnity.Network.ServerFraming

namespace PCGForUnity

namespace KcpSession

/-! ### Sessions with messages waiting -/

/-- The members with other messages in the queue of KCP. -/
def setQueue (queue : List (List Byte)) (m : SessionMembers) : SessionMembers :=
  { m with kcp := { m.kcp with rcvQueue := queue } }

/-- A session with other messages in the queue. -/
abbrev withQueue (queue : List (List Byte)) (s : KcpSession) : KcpSession :=
  s.mapMembers (setQueue queue)

variable {dataHandler : Option DataHandler} {serverId : UInt16} {s : KcpSession}
  {queue queue' : List (List Byte)} {msg : List Byte}

theorem withQueue_self (h : s.members.kcp.rcvQueue = queue) : s.withQueue queue = s := by
  rw [← h]
  rfl

theorem closeSession_withQueue (s : KcpSession) (remove : Bool) :
    (s.withQueue queue).closeSession remove = (s.closeSession remove).withQueue queue := by
  rcases s with ⟨b, _, _, status, _, _, place, _, _⟩
  cases place <;> cases status <;> cases remove <;> rfl

theorem readDataHandler_withQueue (s : KcpSession) (d : Dispatch Byte) :
    readDataHandler dataHandler (s.withQueue queue) d =
      ((readDataHandler dataHandler s d).1, (readDataHandler dataHandler s d).2.withQueue queue) := by
  cases dataHandler with
  | none => rfl
  | some f =>
      rw [readDataHandler, readDataHandler]
      show (if f s.members.dispatched _ _ = true then _ else _) = _
      split <;> rfl

/-- A packet is handled without a look at the queue. -/
theorem handle_withQueue (s : KcpSession) (d : Dispatch Byte) :
    handle dataHandler (s.withQueue queue) d = (handle dataHandler s d).withQueue queue := by
  rw [handle, handle, readDataHandler_withQueue]
  rcases readDataHandler dataHandler s d with ⟨- | - | -, s'⟩
  · rfl
  · exact closeSession_withQueue
      { s' with buffers := { s'.buffers with headerBuffer := s'.buffers.headerBuffer.reset } } false
  · rfl

/-- What is done with a message that KCP gives. -/
theorem receive_of_recv {buff : KcpDatagram} {kcp : Ikcpcb}
    (h : (s.members.kcp.input buff).recv s.buffers.readBuffer.getRemainingSpace = (kcp, .ok msg)) :
    s.receive buff =
      if msg.length > 0 then
        (s.buffers.readBuffer.copyIn msg).map fun readBuffer =>
          ({ buffers := { s.buffers with readBuffer := readBuffer.writeCompleted msg.length }
             members := { s.members with kcp } }, true)
      else some ({ s with members := { s.members with kcp } }, false) := by
  rw [receive, h]
  show (if msg.length > 0 then (s.buffers.readBuffer.copyIn msg).bind _ else _) = _
  split
  · rcases s.buffers.readBuffer.copyIn msg with - | rb
    · rfl
    · rfl
  · rfl

/-- Of a queue that is not empty the first message is taken, as if it had come alone. -/
theorem receive_withQueue (hq : s.members.kcp.rcvQueue = []) {msgs : List (List Byte)}
    (hsplit : queue ++ msgs = msg :: queue')
    (hfit : msg.length ≤ s.buffers.readBuffer.getRemainingSpace) :
    (s.withQueue queue).receive ⟨s.members.kcp.conv, msgs⟩ =
      (s.receive ⟨s.members.kcp.conv, [msg]⟩).map fun r => (r.1.withQueue queue', r.2) := by
  have hleft : ((s.withQueue queue).members.kcp.input ⟨s.members.kcp.conv, msgs⟩).recv
      (s.withQueue queue).buffers.readBuffer.getRemainingSpace
        = ((setQueue queue' s.members).kcp, .ok msg) := by
    have hinput : (s.withQueue queue).members.kcp.input ⟨s.members.kcp.conv, msgs⟩
        = { s.members.kcp with rcvQueue := queue ++ msgs } :=
      Ikcpcb.input_of_conv (s.withQueue queue).members.kcp msgs
    rw [hinput, hsplit]
    exact if_neg (Nat.not_lt.mpr hfit)
  have hright : (s.members.kcp.input ⟨s.members.kcp.conv, [msg]⟩).recv
      s.buffers.readBuffer.getRemainingSpace = ((setQueue [] s.members).kcp, .ok msg) := by
    rw [Ikcpcb.input_of_conv, hq]
    exact if_neg (Nat.not_lt.mpr hfit)
  rw [receive_of_recv hleft, receive_of_recv hright]
  show (if msg.length > 0 then (s.buffers.readBuffer.copyIn msg).map _ else _) = _
  split
  · rcases s.buffers.readBuffer.copyIn msg with - | rb
    · rfl
    · rfl
  · rfl

/-- **The first message is served as if it had come alone.** -/
theorem onReceive_withQueue (hq : s.members.kcp.rcvQueue = []) {msgs : List (List Byte)}
    (hconv : s.members.kcp.conv = s.members.sessionId.conv)
    (hsplit : queue ++ msgs = msg :: queue')
    (hfit : msg.length ≤ s.buffers.readBuffer.getRemainingSpace)
    (hserver : s.members.sessionId.conv &&& 0xffff = serverId.toUInt32) :
    (s.withQueue queue).onReceive serverId dataHandler ⟨s.members.sessionId.conv, msgs⟩ =
      (s.onReceive serverId dataHandler ⟨s.members.sessionId.conv, [msg]⟩).map
        (withQueue queue') := by
  have hrecv := receive_withQueue hq hsplit hfit
  rw [hconv] at hrecv
  rw [onReceive, onReceive, if_neg (not_not.mpr hserver), if_neg (not_not.mpr hserver)]
  show (if s.members.sessionId.conv ≠ s.members.sessionId.conv then _ else
    ((s.withQueue queue).receive _).bind _) = _
  rw [if_neg (not_not.mpr rfl), if_neg (not_not.mpr rfl), hrecv]
  show _ = Option.map _ ((s.receive _).bind _)
  rcases s.receive ⟨s.members.sessionId.conv, [msg]⟩ with - | ⟨s', - | -⟩
  · rfl
  · rfl
  · show ((s'.withQueue queue').readHandler dataHandler).bind _
      = Option.map _ ((s'.readHandler dataHandler).bind _)
    rw [readHandler, Endpoint.readHandler_mapMembers handle_withQueue]
    show _ = Option.map _ ((Endpoint.readHandler (handle dataHandler) s').bind _)
    rcases Endpoint.readHandler (handle dataHandler) s' with - | s''
    · rfl
    · rfl

/-- With nothing in the queue, and nothing completed, nothing is done. -/
theorem onReceive_nothing (hq : s.members.kcp.rcvQueue = [])
    (hserver : s.members.sessionId.conv &&& 0xffff = serverId.toUInt32) :
    s.onReceive serverId dataHandler ⟨s.members.sessionId.conv, []⟩ = some s := by
  rw [onReceive, if_neg (not_not.mpr hserver), if_neg (not_not.mpr rfl), receive_nothing hq]
  rfl

/-! ### Events -/

/-- What happens to a session: a datagram for its conversation comes, or time passes. -/
inductive Event
  | receive (completes : List (List Byte))
  | update (diff : ℕ)

/-- `OnReceive` and `Update`, `check` being `ikcp_check`. -/
def Event.step (check : Ikcpcb → ℕ → ℕ) (serverId : UInt16) (f : DataHandler) (s : KcpSession) :
    Event → Option KcpSession
  | .receive completes => s.onReceive serverId (some f) ⟨s.members.sessionId.conv, completes⟩
  | .update diff => s.update check (some f) diff

/-- The messages that an event completes. -/
def Event.completes : Event → List (List Byte)
  | .receive completes => completes
  | .update _ => []

/-- The most messages that an event takes from the queue. -/
def Event.delivers : Event → ℕ
  | .receive _ => 1
  | .update _ => 0

/-- The messages that were completed. -/
def completed (events : List Event) : List (List Byte) := events.flatMap Event.completes

/-- The datagrams that came. -/
def deliveries (events : List Event) : ℕ := (events.map Event.delivers).sum

/-- What is left of the queue when each datagram takes one message from it. -/
def leftOver (events : List Event) : List (List Byte) :=
  events.foldl (fun queue e => (queue ++ e.completes).drop e.delivers) []

theorem completed_concat (events : List Event) (e : Event) :
    completed (events ++ [e]) = completed events ++ e.completes := by
  rw [completed, List.flatMap_append, List.flatMap_singleton, completed]

theorem leftOver_concat (events : List Event) (e : Event) :
    leftOver (events ++ [e]) = (leftOver events ++ e.completes).drop e.delivers := by
  rw [leftOver, List.foldl_append]
  rfl

/-- The queue is as long as the worst stretch of events before it makes it. -/
theorem length_leftOver_le_iff (events : List Event) (m : ℕ) :
    (leftOver events).length ≤ m ↔
      ∀ t, t <:+ events → (completed t).length ≤ deliveries t + m := by
  induction events using List.reverseRecOn generalizing m with
  | nil =>
      refine iff_of_true (Nat.zero_le m) fun t ht => ?_
      obtain rfl := List.suffix_nil.mp ht
      exact Nat.zero_le _
  | append_singleton events e ih =>
      have hcompleted (t : List Event) : (completed (t ++ [e])).length
          = (completed t).length + e.completes.length := by
        rw [completed_concat, List.length_append]
      have hdeliveries (t : List Event) : deliveries (t ++ [e]) = deliveries t + e.delivers := by
        rw [deliveries, List.map_append, List.sum_append]
        rfl
      -- a stretch that ends here is empty or goes on before
      have hsuffix : (∀ t, t <:+ events ++ [e] → (completed t).length ≤ deliveries t + m) ↔
          ∀ t, t <:+ events →
            (completed t).length + e.completes.length ≤ deliveries t + e.delivers + m := by
        constructor
        · intro h t ht
          rw [← hcompleted, ← hdeliveries]
          exact h _ ((List.suffix_append_inj_of_length_eq rfl).mpr ⟨ht, rfl⟩)
        · intro h t ht
          rcases List.suffix_concat_iff.mp ht with rfl | ⟨t', rfl, ht'⟩
          · exact Nat.zero_le _
          · rw [hcompleted, hdeliveries]
            exact h t' ht'
      rw [hsuffix, leftOver_concat, List.length_drop, List.length_append]
      by_cases hlate : e.completes.length ≤ e.delivers + m
      · have hm := ih (e.delivers + m - e.completes.length)
        have hq : (leftOver events).length + e.completes.length - e.delivers ≤ m ↔
            (leftOver events).length ≤ e.delivers + m - e.completes.length := by omega
        rw [hq, hm]
        refine forall₂_congr fun t _ => ?_
        omega
      · -- the event alone leaves too many
        refine iff_of_false (by omega) fun h => ?_
        have hnil := h [] List.nil_suffix
        rw [completed, deliveries, List.flatMap_nil, List.map_nil, List.sum_nil,
          List.length_nil] at hnil
        omega

/-! ### Runs -/

/-- Of what was completed so far a first part is parsed, once and in order, and the
rest waits in the queue. -/
def ParsedInOrder (s : KcpSession) (ps : List Packet) (completed : List (List Byte)) : Prop :=
  ∃ parsed, parsed ++ s.members.kcp.rcvQueue = completed ∧ s.HasServed ps parsed.flatten

/-- A session that has parsed `parsed` of the messages completed, the others waiting. -/
structure Parsing (s : KcpSession) (conv : UInt32) (events : List Event)
    (parsed : List (List Byte)) : Prop where
  queue : s.members.kcp.rcvQueue = leftOver events
  conservation : parsed ++ s.members.kcp.rcvQueue = completed events
  serving : ∃ done rest, parsed.flatten = Frame.concat done ++ rest ∧
    packetFormat.Incomplete rest ∧ Serving (s.withQueue []) conv done rest

variable {conv : UInt32} {events : List Event} {parsed : List (List Byte)} {f : DataHandler}
  {check : Ikcpcb → ℕ → ℕ} {ps : List Packet}

theorem Parsing.parsedInOrder (h : s.Parsing conv events parsed)
    (hcut : parsed.flatten <+: Frame.concat ps) : s.ParsedInOrder ps (completed events) := by
  obtain ⟨done, rest, hl, hinc, hs⟩ := h.serving
  obtain ⟨r, hholds, hpend, hunread, -⟩ := hs.buffers
  obtain ⟨done', more, rest', rfl, hl', hrest⟩ := FrameFormat.exists_frames_of_prefix hcut
  obtain ⟨rfl, rfl⟩ := FrameFormat.frames_unique (hl.symm.trans hl') (Or.inr hinc)
    (Or.inr (FrameFormat.incomplete_of_rest hrest))
  exact ⟨parsed, h.conservation, done, more, rest, rfl, hl, hrest, hs.dispatched,
    hholds.buffered_eq hpend, hholds.unread.trans hunread⟩

/-- An update leaves everything as it is but the clock. -/
theorem Parsing.update (h : s.Parsing conv events parsed) (diff : ℕ) :
    ∃ s', Event.step check serverId f s (.update diff) = some s' ∧
      s'.Parsing conv (events ++ [.update diff]) parsed := by
  obtain ⟨done, rest, hl, hinc, hs⟩ := h.serving
  obtain ⟨r, hholds, hpend, hunread, hused, hpay⟩ := hs.buffers
  have hqueue : leftOver (events ++ [.update diff]) = leftOver events := by
    rw [leftOver_concat]
    exact List.append_nil _
  have hcompleted : completed (events ++ [.update diff]) = completed events := by
    rw [completed_concat]
    exact List.append_nil _
  have hholds' : s.buffers.Holds r := hholds
  refine ⟨_, update_eq hholds' hunread check diff, ?_⟩
  split
  · obtain ⟨hconv, hq⟩ := KcpClock.update_kcp check s.members.toKcpClock diff
    refine ⟨?_, ?_, done, rest, hl, hinc, ⟨r, hholds, hpend, hunread, hused, hpay⟩, rfl, hs.conv,
      hconv.trans hs.kcpConv, hs.place, hs.dispatched⟩
    · rw [hqueue]
      exact hq.trans h.queue
    · rw [hcompleted]
      exact (congrArg (parsed ++ ·) hq).trans h.conservation
  · refine ⟨?_, ?_, done, rest, hl, hinc, ⟨r, hholds, hpend, hunread, hused, hpay⟩, rfl, hs.conv,
      hs.kcpConv, hs.place, hs.dispatched⟩
    · rw [hqueue]
      exact h.queue
    · rw [hcompleted]
      exact h.conservation

/-- A datagram makes the session parse the first message that waits, if there is one. -/
theorem Parsing.receive (h : s.Parsing conv events parsed) {completes : List (List Byte)}
    (hserver : conv &&& 0xffff = serverId.toUInt32)
    (hf : ∀ log cmd data, f log cmd data = true)
    (hmsgs : ∀ msg ∈ completed (events ++ [.receive completes]),
      msg ≠ [] ∧ msg.length ≤ recvBufferSize)
    (hcut : (completed (events ++ [.receive completes])).flatten <+: Frame.concat ps) :
    ∃ s' parsed', Event.step check serverId f s (.receive completes) = some s' ∧
      s'.Parsing conv (events ++ [.receive completes]) parsed' := by
  obtain ⟨done, rest, hl, hinc, hs⟩ := h.serving
  obtain ⟨r, hholds, hpend, hunread, hused, hpay⟩ := hs.buffers
  have hid : s.members.sessionId.conv = conv := hs.conv
  have hcompleted : completed (events ++ [.receive completes])
      = parsed ++ (s.members.kcp.rcvQueue ++ completes) := by
    rw [completed_concat, ← h.conservation, List.append_assoc]
    rfl
  have hqueue : leftOver (events ++ [.receive completes])
      = (s.members.kcp.rcvQueue ++ completes).drop 1 := by
    rw [leftOver_concat, h.queue]
    rfl
  cases hsplit : s.members.kcp.rcvQueue ++ completes with
  | nil =>
      obtain ⟨hq, rfl⟩ := List.append_eq_nil_iff.mp hsplit
      refine ⟨s, parsed, onReceive_nothing hq (by rwa [hid]), ?_, ?_, done, rest, hl, hinc, hs⟩
      · rw [hqueue, hsplit]
        exact hq
      · rw [hcompleted, List.append_nil]
  | cons msg queue =>
      rw [hsplit] at hcompleted hqueue
      obtain ⟨hne, hlen⟩ := hmsgs msg (by rw [hcompleted]; simp)
      -- the message is the next piece of the stream of packets
      have hpiece : (parsed ++ [msg]).flatten <+: Frame.concat ps := by
        refine List.IsPrefix.trans ?_ hcut
        rw [hcompleted]
        exact ⟨queue.flatten, by rw [← List.flatten_append, List.append_assoc]; rfl⟩
      obtain ⟨done', more, rest', -, hl', hrest'⟩ := FrameFormat.exists_frames_of_prefix hpiece
      have hinc' := FrameFormat.incomplete_of_rest hrest'
      have happend : Frame.concat done ++ rest ++ msg = Frame.concat done' ++ rest' := by
        rw [← hl', ← hl, List.flatten_append, List.flatten_singleton]
      obtain ⟨qs, rfl, hqs⟩ := FrameFormat.frames_append happend (Or.inr hinc')
      obtain ⟨s₁, hrecv, hs₁⟩ := hs.onReceive hserver hne hlen hqs hinc' (accepts_of_forall hf _ qs)
      have hfit : msg.length ≤ (s.withQueue []).buffers.readBuffer.getRemainingSpace := by
        rw [hholds.getRemainingSpace, hused]
        exact hlen
      have hstep : s.onReceive serverId (some f) ⟨s.members.sessionId.conv, completes⟩ = _ :=
        onReceive_withQueue (s := s.withQueue []) rfl hs.kcpConv hsplit hfit (by rwa [hs.conv])
      rw [hs.conv, hrecv] at hstep
      refine ⟨s₁.withQueue queue, parsed ++ [msg], ?_, ?_, ?_, done ++ qs, rest', hl', hinc', ?_⟩
      · exact hstep
      · rw [hqueue]
        rfl
      · rw [hcompleted, List.append_assoc]
        rfl
      · rwa [show (s₁.withQueue queue).withQueue [] = s₁ from withQueue_self hs₁.queue]

theorem completed_mono {pre : List Event} (h : pre <+: events) :
    completed pre <+: completed events := by
  obtain ⟨post, rfl⟩ := h
  rw [completed, completed, List.flatMap_append]
  exact List.prefix_append _ _

theorem flatten_mono {l l' : List (List Byte)} (h : l <+: l') : l.flatten <+: l'.flatten := by
  obtain ⟨more, rfl⟩ := h
  rw [List.flatten_append]
  exact List.prefix_append _ _

/-- **A session goes on parsing.**  Every run of events is defined, and its messages
are parsed in order. -/
theorem Parsing.run {s₀ : KcpSession} (h₀ : s₀.Parsing conv [] [])
    (hserver : conv &&& 0xffff = serverId.toUInt32)
    (hf : ∀ log cmd data, f log cmd data = true)
    (hmsgs : ∀ msg ∈ completed events, msg ≠ [] ∧ msg.length ≤ recvBufferSize)
    (hcut : (completed events).flatten <+: Frame.concat ps) :
    ∃ s parsed, events.foldlM (Event.step check serverId f) s₀ = some s ∧
      s.Parsing conv events parsed := by
  induction events using List.reverseRecOn with
  | nil => exact ⟨s₀, [], rfl, h₀⟩
  | append_singleton events e ih =>
      have hpre := completed_mono (List.prefix_append events [e])
      obtain ⟨s, parsed, hrun, h⟩ := ih (fun msg hmsg => hmsgs msg (hpre.subset hmsg))
        ((flatten_mono hpre).trans hcut)
      cases e with
      | receive completes =>
          obtain ⟨s', parsed', hstep, h'⟩ := h.receive hserver hf hmsgs hcut
          exact ⟨s', parsed', Run.foldlM_concat.mpr ⟨s, hrun, hstep⟩, h'⟩
      | update diff =>
          obtain ⟨s', hstep, h'⟩ := h.update diff
          exact ⟨s', parsed, Run.foldlM_concat.mpr ⟨s, hrun, hstep⟩, h'⟩

variable {clientConv : UInt16} {addr : SockAddr} {status : SessionStatus}
  {tick needUpdateTime : ℕ}

/-- **Updates find nothing waiting** exactly if in every stretch of events before one
the datagrams completed no more messages than they were.  The messages are parsed in
order, each once, in any case. -/
theorem queue_empty_iff (check : Ikcpcb → ℕ → ℕ) (f : DataHandler)
    (hf : ∀ log cmd data, f log cmd data = true) (ps : List Packet) (events : List Event)
    (hmsgs : ∀ msg ∈ completed events, msg ≠ [] ∧ msg.length ≤ recvBufferSize)
    (hcut : (completed events).flatten <+: Frame.concat ps) :
    (∀ pre, pre <+: events → ∃ s, pre.foldlM (Event.step check serverId f)
        (accepted clientConv serverId addr status tick needUpdateTime) = some s ∧
      s.ParsedInOrder ps (completed pre) ∧
      ((∃ pre' diff, pre = pre' ++ [.update diff]) → s.members.kcp.rcvQueue = [])) ↔
    ∀ pre diff, pre ++ [.update diff] <+: events →
      ∀ t, t <:+ pre → (completed t).length ≤ deliveries t := by
  have hrun {pre : List Event} (hpre : pre <+: events) : ∃ s parsed,
      pre.foldlM (Event.step check serverId f)
        (accepted clientConv serverId addr status tick needUpdateTime) = some s ∧
      s.Parsing (SocketServer.newConv clientConv serverId) pre parsed :=
    Parsing.run ⟨rfl, rfl, [], [], rfl, FrameFormat.incomplete_nil, serving_accepted _ _ _ _ _ _⟩
      (newConv_and clientConv serverId) hf
      (fun msg hmsg => hmsgs msg ((completed_mono hpre).subset hmsg))
      ((flatten_mono (completed_mono hpre)).trans hcut)
  have hleft (pre : List Event) (diff : ℕ) : leftOver (pre ++ [.update diff]) = [] ↔
      ∀ t, t <:+ pre → (completed t).length ≤ deliveries t := by
    -- an update takes nothing out of the queue
    have hqueue : leftOver (pre ++ [.update diff]) = leftOver pre := by
      rw [leftOver_concat]
      exact List.append_nil _
    rw [hqueue, ← List.length_eq_zero_iff, ← Nat.le_zero, length_leftOver_le_iff]
    rfl
  constructor
  · intro h pre diff hpre
    obtain ⟨s, hs, -, hempty⟩ := h _ hpre
    obtain ⟨s', parsed, hs', hparsing⟩ := hrun hpre
    obtain rfl := Option.some.inj (hs.symm.trans hs')
    rw [← hleft pre diff, ← hparsing.queue]
    exact hempty ⟨pre, diff, rfl⟩
  · intro h pre hpre
    obtain ⟨s, parsed, hs, hparsing⟩ := hrun hpre
    refine ⟨s, hs, hparsing.parsedInOrder ?_, ?_⟩
    · refine (flatten_mono ?_).trans ((flatten_mono (completed_mono hpre)).trans hcut)
      rw [← hparsing.conservation]
      exact List.prefix_append _ _
    · rintro ⟨pre', diff, rfl⟩
      rw [hparsing.queue, hleft]
      exact h pre' diff hpre

/-- A datagram completes two messages: the update after it finds the second. -/
theorem second_message_waits :
    let p : Packet := Packet.ofHeader ⟨0, 6⟩ [] (by decide) (by decide) rfl
    let events : List Event := [.receive [p.elems, p.elems], .update 10]
    ¬ ∀ pre, pre <+: events → ∃ s,
      pre.foldlM (Event.step (fun _ current => current) 2 fun _ _ _ => true)
        (accepted 1 2 ⟨2, 4000, 0⟩ .connecting 0 0) = some s ∧
      s.ParsedInOrder [p, p] (completed pre) ∧
      ((∃ pre' diff, pre = pre' ++ [.update diff]) → s.members.kcp.rcvQueue = []) := by
  intro p events h
  have hrun : (events.foldlM (Event.step (fun _ current => current) 2 fun _ _ _ => true)
      (accepted 1 2 ⟨2, 4000, 0⟩ .connecting 0 0)).map (fun s => s.members.kcp.rcvQueue)
        = some [p.elems] := by decide +kernel
  obtain ⟨s, hs, -, hempty⟩ := h events List.prefix_rfl
  rw [hs, Option.map_some, hempty ⟨[.receive [p.elems, p.elems]], 10, rfl⟩] at hrun
  cases hrun

/-- Two messages that come one by one. -/
theorem queue_empty_of_two :
    let p : Packet := Packet.ofHeader ⟨0, 6⟩ [] (by decide) (by decide) rfl
    let events : List Event := [.receive [p.elems], .update 10, .receive [], .receive [p.elems]]
    (∀ pre, pre <+: events → ∃ s,
      pre.foldlM (Event.step (fun _ current => current) 2 fun _ _ _ => true)
        (accepted 1 2 ⟨2, 4000, 0⟩ .connecting 0 0) = some s ∧
      s.ParsedInOrder [p, p] (completed pre) ∧
      ((∃ pre' diff, pre = pre' ++ [.update diff]) → s.members.kcp.rcvQueue = [])) ↔
    ∀ pre diff, pre ++ [.update diff] <+: events →
      ∀ t, t <:+ pre → (completed t).length ≤ deliveries t :=
  queue_empty_iff _ _ (fun _ _ _ => rfl) _ _ (by decide) (by decide)

end KcpSession

end PCGForUnity
