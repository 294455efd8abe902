/-
PCGForUnity/Network/Kcp/Served.lean

A client and the session of the server that it talks to, each with a control block of KCP, over
a network that loses, repeats and reorders.  In every state that a run leads to

* the packets that the session has given to its handler are a first part of those that the
  client sent, in order and each once, however the client cut them into messages;
* every step that is allowed has a result

(`dispatched_part`).

Design.  `KcpSession::OnReceive` gives a datagram to `ikcp_input` and asks `ikcp_recv` once, and
`Update` asks for more; both are as in `KcpSession`, with the control block of `Kcp/Control` in
the place of a queue.  The invariant joins that of the connection (`Connection`) with that of
the session (`KcpSession.Serving`) by the messages that were received.

Both ends have the number of the conversation from the start: the client's block gets it with
the accept, and the copies of the accept that come later are lost.  What the session sends of
its own is among the other calls.  A session that is closed serves nothing any more.
-/
import PCGForUnity.Network.MalformedPackets
import PCGForUnity.Network.MessageQueue
import PCGForUnity.Network.Kcp.Ready

namespace PCGForUnity

/-- The client is `.one`, and the control block of `.two` is that of the session, whose own
member `kcp` stays as it was made. -/
structure Served where
  conn : Connection
  session : KcpSession

namespace Served

/-! ### The session as coded, over its control block -/

/-- `OnReceive` behind `ikcp_recv`. -/
def readMessage (f : DataHandler) (s : KcpSession) : Except ℤ (List Byte) → Option KcpSession
  | .error _ => some s
  | .ok msg =>
      if msg.length > 0 then do
        let readBuffer ← s.buffers.readBuffer.copyIn msg
        if !SocketServer.checkCrc s.buffers.packetBuffer.unread then
          some { s with buffers := { s.buffers with readBuffer } }
        else
          let s : KcpSession := { s with buffers :=
            { s.buffers with readBuffer := readBuffer.writeCompleted msg.length } }
          let s ← s.readHandler (some f)
          some s.resetRead
      else some s

/-- `OnReceive`, `input` being `ikcp_input` of the data. -/
def onReceive (serverId : UInt16) (f : DataHandler) (t : Served) (input : Connection.Op)
    (data : List Byte) : Option Served :=
  let conv := UInt32.ofNat (decode32u data)
  if conv &&& 0xffff ≠ serverId.toUInt32 then
    let head : PacketHeader := { size := 0, command := s2cCriticalError }
    some { t with session := (t.session.send head.toBytes true).closeSession false }
  else if t.session.members.sessionId.conv ≠ conv then
    some { t with session := t.session.closeSession false }
  else
    let conn := t.conn.step .bits32 input
    let len := t.session.buffers.readBuffer.getRemainingSpace
    (readMessage f t.session ((conn .two).kcp.recv len).2).map fun session =>
      { conn := conn.step .bits32 (.recv .two len), session }

/-- `SocketServer::ReadHandler` for a datagram of the session's remote. -/
def receive (serverId : UInt16) (f : DataHandler) (t : Served) (input : Connection.Op)
    (data : List Byte) : Option Served :=
  match t.session.members.place with
  | .sessions => t.onReceive serverId f input data
  | _ => some t

/-- `Update` behind `ikcp_update`. -/
def readOver (f : DataHandler) (t : Served) : Option Served :=
  if t.session.members.alive ∧ (t.conn .two).kcp.peeksize > 0 then
    let s := t.session
    let len := s.buffers.readBuffer.getActiveSize
    let conn := t.conn.step .bits32 (.recv .two len)
    match ((t.conn .two).kcp.recv len).2 with
    | .error _ => some { conn, session := s }
    | .ok msg =>
        if msg.length > 0 then do
          let readBuffer ← s.buffers.readBuffer.copyOver msg
          if !SocketServer.checkCrc s.buffers.packetBuffer.unread then
            some { conn, session := { s with buffers := { s.buffers with readBuffer } } }
          else
            let s : KcpSession := { s with buffers :=
              { s.buffers with readBuffer := readBuffer.readCompleted msg.length } }
            let s ← s.readHandler (some f)
            some { conn, session := s.resetRead }
        else some { conn, session := s }
  else some t

/-- What happens: a datagram of the client comes to the server, or any other data does, the
session updates, or the programs and the network do something else. -/
inductive Op
  | deliver (d : WireDatagram)
  | stray (data : List Byte)
  | update
  | other (op : Connection.Op)

/-- A step of the connection, with what the session reads of it. -/
def step (serverId : UInt16) (f : DataHandler) (t : Served) : Op → Option Served
  | .deliver d => t.receive serverId f (.deliver .two d) d.data
  | .stray data => t.receive serverId f (.stray .two data) data
  | .update => t.readOver f
  | .other op => some { t with conn := t.conn.step .bits32 op }

/-- The other steps do not receive at the server. -/
def Other : Connection.Op → Prop
  | .recv s _ => s = .one
  | .deliver s _ => s = .one
  | .stray s _ => s = .one
  | _ => True

/-- What may happen: what the connection allows, the calls of the session left to it. -/
def Allowed (t : Served) : Op → Prop
  | .deliver d => t.conn.Allowed (.deliver .two d)
  | .stray data => t.conn.Allowed (.stray .two data)
  | .update => True
  | .other op => t.conn.Allowed op ∧ Other op

/-- A session that the server has accepted, and the control blocks as they are made. -/
def start (clientConv serverId : UInt16) (addr : SockAddr) (status : SessionStatus)
    (tick needUpdateTime : ℕ) : Served where
  conn := Connection.start (SocketServer.newConv clientConv serverId)
  session := KcpSession.accepted clientConv serverId addr status tick needUpdateTime

/-- The states that runs lead to. -/
inductive Reachable (serverId : UInt16) (f : DataHandler) (t₀ : Served) : Served → Prop
  | refl : Reachable serverId f t₀ t₀
  | step {t t' : Served} {op : Op} : Reachable serverId f t₀ t → t.Allowed op →
      t.step serverId f op = some t' → Reachable serverId f t₀ t'

/-! ### One message -/

variable {serverId : UInt16} {f : DataHandler} {s : KcpSession} {conv : UInt32}
  {done : List Packet} {rest msg : List Byte}

/-- What `ikcp_recv` hands over has room. -/
theorem length_le_of_recv {kcp : IKCPCB} {len : ℕ} (h : (kcp.recv len).2 = .ok msg) :
    msg.length ≤ len := by
  rw [IKCPCB.recv] at h
  split_ifs at h with hempty hpeek hbig
  all_goals
    obtain rfl := Except.ok.inj h
    rcases hqueue : kcp.rcvQueue with - | ⟨seg, segs⟩
    · rw [hqueue] at hempty
      exact absurd rfl hempty
    have hsize : kcp.peeksize = (IKCPCB.merge kcp.rcvQueue).1.length := by
      rw [IKCPCB.peeksize, hqueue] at hpeek ⊢
      by_cases hfrg : seg.frg = 0
      · simp only [if_pos hfrg, IKCPCB.merge]
      · simp only [if_neg hfrg] at hpeek ⊢
        split_ifs at hpeek ⊢
        · exact absurd (by omega) hpeek
        · rfl
    rw [hsize, abs_of_nonneg (Int.natCast_nonneg len)] at hbig
    rw [← hqueue]
    omega

/-- A message of the control block is read as one of the queue is. -/
theorem readMessage_eq (h : KcpSession.Serving s conv done rest)
    (hserver : conv &&& 0xffff = serverId.toUInt32)
    (hlen : msg.length ≤ s.buffers.readBuffer.getRemainingSpace) :
    readMessage f s (.ok msg) = s.onReceive serverId (some f) ⟨conv, [msg]⟩ := by
  have hrecv : (s.members.kcp.input ⟨s.members.kcp.conv, [msg]⟩).recv
      s.buffers.readBuffer.getRemainingSpace = (s.members.kcp, .ok msg) := by
    rw [Ikcpcb.input_of_conv, h.queue, Ikcpcb.recv]
    refine (if_neg (Nat.not_lt.mpr hlen)).trans ?_
    rw [← h.queue]
  have hreceive := KcpSession.receive_of_recv hrecv
  rw [h.kcpConv, h.conv] at hreceive
  rw [KcpSession.onReceive, if_neg (not_not.mpr hserver), if_neg (not_not.mpr h.conv), hreceive,
    readMessage]
  split
  · rcases s.buffers.readBuffer.copyIn msg with - | rb
    · rfl
    · rfl
  · rfl

/-! ### The invariant -/

/-- What the session has done with the messages received: it serves, or it is closed. -/
inductive Done (s : KcpSession) (conv : UInt32) (received : List Byte) : Prop
  | serving (done : List Packet) (rest : List Byte) (hs : KcpSession.Serving s conv done rest)
      (hreceived : received = Frame.concat done ++ rest)
      (hrest : packetFormat.Incomplete rest) : Done s conv received
  | closed (done : List Packet) (more : List Byte) (hplace : s.members.place ≠ .sessions)
      (hdone : s.members.dispatched = done.map Frame.toDispatch)
      (hreceived : received = Frame.concat done ++ more) : Done s conv received

variable {received : List Byte} {ps : List Packet}

/-- What has been given to the handler is a first part of the stream. -/
theorem Done.handed_part (h : Done s conv received) (hps : received <+: Frame.concat ps) :
    s.members.dispatched <+: ps.map Frame.toDispatch := by
  obtain ⟨done, more, hdone, hpart⟩ : ∃ (done : List Packet) (more : List Byte),
      s.members.dispatched = done.map Frame.toDispatch ∧ received = Frame.concat done ++ more := by
    cases h with
    | serving done rest hs hreceived _ => exact ⟨done, rest, hs.dispatched, hreceived⟩
    | closed done more _ hdone hreceived => exact ⟨done, more, hdone, hreceived⟩
  rw [hpart] at hps
  obtain ⟨beyond, hbeyond⟩ := hps
  obtain ⟨qs, t, ht, hend⟩ := FrameFormat.exists_frames (F := packetFormat) (more ++ beyond)
  rw [List.append_assoc, ht, ← List.append_assoc, ← Frame.concat_append] at hbeyond
  obtain ⟨rfl, -⟩ := FrameFormat.frames_unique (u := []) (by rw [hbeyond, List.append_nil]) hend
    (Or.inr FrameFormat.incomplete_nil)
  rw [hdone, List.map_append]
  exact List.prefix_append _ _

/-- **The next message is served**, whatever the handler says to its packets. -/
theorem Done.readMessage (h : Done s conv received) (hplace : s.members.place = .sessions)
    (hserver : conv &&& 0xffff = serverId.toUInt32)
    (hlen : msg.length ≤ s.buffers.readBuffer.getRemainingSpace)
    (hps : received ++ msg <+: Frame.concat ps) :
    ∃ s', Served.readMessage f s (.ok msg) = some s' ∧ Done s' conv (received ++ msg) := by
  cases h with
  | closed done more hclosed hdone hreceived => exact absurd hplace hclosed
  | serving done rest hs hreceived hrest =>
      by_cases hne : msg = []
      · refine ⟨s, by rw [hne]; rfl, ?_⟩
        rw [hne, List.append_nil]
        exact Done.serving done rest hs hreceived hrest
      obtain ⟨r, hholds, -, -, hused, -⟩ := hs.buffers
      have hfit : msg.length ≤ recvBufferSize := by
        rw [hholds.getRemainingSpace, hused] at hlen
        exact hlen
      rw [readMessage_eq hs hserver hlen]
      -- the packets that are whole now
      obtain ⟨qs, t, ht, hend⟩ := FrameFormat.exists_frames (F := packetFormat) (rest ++ msg)
      have hall : received ++ msg = Frame.concat (done ++ qs) ++ t := by
        rw [hreceived, List.append_assoc, ht, Frame.concat_append, List.append_assoc]
      have hinc : packetFormat.Incomplete t := by
        rcases hend with hbad | hinc
        · -- a rejected header would stand in the stream of packets
          obtain ⟨beyond, hbeyond⟩ := hps
          rw [hall, List.append_assoc] at hbeyond
          have hnil := (FrameFormat.frames_unique (u := [])
            (by rw [hbeyond, List.append_nil]) (Or.inl (hbad.append beyond))
            (Or.inr FrameFormat.incomplete_nil)).2
          have hnot := (hbad.append beyond).not_incomplete
          rw [hnil] at hnot
          exact absurd FrameFormat.incomplete_nil hnot
        · exact hinc
      rcases Run.eachStep_or_exists_first (fun log (p : Packet) => log ++ [p.toDispatch])
          (fun log p => f log (PacketHeader.ofBytes p.hdr).command p.payload = true)
          (done.map Frame.toDispatch) qs with hacc | ⟨qs₁, p, qs₂, rfl, hacc, hp⟩
      · obtain ⟨s', hs', hserving⟩ := hs.onReceive hserver hne hfit ht hinc hacc
        exact ⟨s', hs', Done.serving _ t hserving hall hinc⟩
      · rw [KcpSession.foldl_log, ← List.map_append] at hp
        rw [Frame.concat_append, Frame.concat_cons, List.append_assoc, List.append_assoc] at ht
        obtain ⟨s', hs', hclosed, hdone⟩ := hs.onReceive_refused hserver hne hfit ht hacc hp
        refine ⟨s', hs', Done.closed _ (Frame.concat qs₂ ++ t) hclosed hdone ?_⟩
        rw [hall]
        simp [Frame.concat_append]

/-! ### Sessions that are closed -/

/-- A session that is not in `m_mSessions` is not alive. -/
def Awake (m : SessionMembers) : Prop := m.place = .sessions ∨ m.alive = false

theorem awake_closeSession (h : Awake s.members) : Awake (s.closeSession false).members := by
  rcases s with ⟨b, _, _, status, _, _, place, _, _⟩
  cases place with
  | sessions =>
      right
      cases status <;> rfl
  | sleepSessions => exact h
  | erased => exact h

theorem awake_handle (f : DataHandler) (s : KcpSession) (d : Dispatch Byte) (h : Awake s.members) :
    Awake (KcpSession.handle (some f) s d).members := by
  have hact : Awake (KcpSession.act (some f) s.members d).1 := by
    rw [KcpSession.act]
    split_ifs
    · exact h
    · exact awake_closeSession (s := ⟨.init, KcpSession.logged s.members d⟩) h
    · exact h
  rw [KcpSession.handlesBy (some f) s d]
  split
  · exact hact
  · exact hact

theorem awake_readMessage (h : Awake s.members) {recv : Except ℤ (List Byte)} {s' : KcpSession}
    (hread : Served.readMessage f s recv = some s') : Awake s'.members := by
  rcases recv with e | msg
  · obtain rfl := Option.some.inj hread
    exact h
  · rw [Served.readMessage] at hread
    split at hread
    · obtain ⟨rb, -, hread⟩ := Option.bind_eq_some_iff.mp hread
      obtain ⟨s₁, hs₁, hread⟩ := Option.bind_eq_some_iff.mp hread
      obtain rfl := Option.some.inj hread
      have hkept : Awake s₁.members :=
        Endpoint.readHandler_preserves (P := Awake) (awake_handle f)
          (e := { s with buffers := { s.buffers with
            readBuffer := rb.writeCompleted msg.length } }) h hs₁
      exact hkept
    · obtain rfl := Option.some.inj hread
      exact h

/-- The server closes the session, with or without a last packet to it. -/
theorem Done.close (h : Done s conv received) (hplace : s.members.place = .sessions)
    {s' : KcpSession} (hs' : s'.members.place = .sessions)
    (hdispatched : s'.members.dispatched = s.members.dispatched) :
    Done (s'.closeSession false) conv received := by
  cases h with
  | closed done more hclosed hdone hreceived => exact absurd hplace hclosed
  | serving done rest hs hreceived hrest =>
      rw [KcpSession.closeSession_of_sessions hs']
      refine Done.closed done rest ?_ ?_ hreceived
      · show (KcpSession.closed s'.members).place ≠ .sessions
        rw [KcpSession.closed_place hs']
        decide
      · show (KcpSession.closed s'.members).dispatched = _
        rw [KcpSession.closed_dispatched, hdispatched, hs.dispatched]

/-! ### Steps -/

/-- The invariant. -/
structure Invariant (conv : UInt32) (t : Served) : Prop where
  conn : t.conn.Invariant
  awake : Awake t.session.members
  done : Done t.session conv (t.conn .two).received.flatten

theorem invariant_start (clientConv serverId : UInt16) (addr : SockAddr) (status : SessionStatus)
    (tick needUpdateTime : ℕ) :
    Invariant (SocketServer.newConv clientConv serverId)
      (start clientConv serverId addr status tick needUpdateTime) where
  conn := Connection.invariant_start _
  awake := Or.inl rfl
  done := Done.serving [] [] (KcpSession.serving_accepted _ _ _ _ _ _) rfl
    FrameFormat.incomplete_nil

/-- What `ikcp_recv` hands over is added to what was received. -/
theorem received_recv (c : Connection) (len : ℕ) :
    (c.step .bits32 (.recv .two len) .two).received
      = match ((c .two).kcp.recv len).2 with
        | .ok data => (c .two).received ++ [data]
        | .error _ => (c .two).received := by
  simp only [Connection.step, Function.update_self, KcpEnd.recv]
  rcases ((c .two).kcp.recv len).2 with e | data
  · rfl
  · exact if_neg (Int.not_lt.mpr (Int.natCast_nonneg len))

variable {t t' : Served} {op : Op}

/-- What the client has sent does not change what was received. -/
theorem received_part {c : Connection} (h : c.Invariant)
    (hps : (c .one).accepted.flatten <+: Frame.concat ps) :
    (c .two).received.flatten <+: Frame.concat ps :=
  (KcpSession.flatten_mono (h.received_part .one)).trans hps

/-- **A datagram at the server.** -/
theorem Invariant.receive (h : Invariant conv t) (hserver : conv &&& 0xffff = serverId.toUInt32)
    (hps : (t.conn .one).accepted.flatten <+: Frame.concat ps) {input : Connection.Op}
    (hinput : t.conn.Allowed input) (hreceived : (t.conn.step .bits32 input .two).received
      = (t.conn .two).received)
    (haccepted : (t.conn.step .bits32 input .one).accepted = (t.conn .one).accepted)
    (data : List Byte) :
    ∃ t', t.receive serverId f input data = some t' ∧ Invariant conv t' := by
  rw [Served.receive]
  split
  · rename_i hplace
    rw [onReceive]
    dsimp only
    split_ifs with hserver' hconv
    · -- of another server or another conversation: the session is closed
      refine ⟨_, rfl, h.conn, awake_closeSession (Or.inl ?_), h.done.close hplace ?_ ?_⟩
      · exact hplace
      · exact hplace
      · rfl
    · refine ⟨_, rfl, h.conn, awake_closeSession h.awake, h.done.close hplace hplace rfl⟩
    · have hconn : Connection.Invariant (t.conn.step .bits32 input) := h.conn.step hinput
      set len := t.session.buffers.readBuffer.getRemainingSpace with hlen
      have hconn' : Connection.Invariant
          ((t.conn.step .bits32 input).step .bits32 (.recv .two len)) := hconn.step trivial
      have hgrown := received_recv (t.conn.step .bits32 input) len
      have hsame : ((t.conn.step .bits32 input).step .bits32 (.recv .two len) .one).accepted
          = (t.conn .one).accepted := by
        refine Eq.trans ?_ haccepted
        simp only [Connection.step]
        rw [Function.update_of_ne (by decide)]
      have hpart := @received_part ps _ hconn' (hsame.symm ▸ hps)
      rcases hrecv : ((t.conn.step .bits32 input .two).kcp.recv len).2 with e | msg
      · -- KCP has no whole message
        rw [hrecv] at hgrown
        refine ⟨_, rfl, hconn', h.awake, ?_⟩
        rw [hgrown, hreceived]
        exact h.done
      · rw [hrecv, hreceived] at hgrown
        -- what it hands over is a further part of what the client has sent
        have hroom : msg.length ≤ len := length_le_of_recv hrecv
        have hflat : ((t.conn .two).received ++ [msg]).flatten
            = (t.conn .two).received.flatten ++ msg := by
          rw [List.flatten_append, List.flatten_singleton]
        rw [hgrown, hflat] at hpart
        obtain ⟨s', hs', hdone⟩ := h.done.readMessage (f := f) hplace hserver hroom hpart
        refine ⟨_, by rw [hs']; rfl, hconn', awake_readMessage h.awake hs', ?_⟩
        rw [hgrown, hflat]
        exact hdone
  · exact ⟨t, rfl, h⟩

/-- At rest an update reads nothing. -/
theorem Invariant.readOver (h : Invariant conv t) :
    ∃ t', t.readOver f = some t' ∧ Invariant conv t' := by
  rw [Served.readOver]
  split_ifs with hread
  · obtain ⟨halive, hpeek⟩ := hread
    have hactive : t.session.buffers.readBuffer.getActiveSize = 0 := by
      cases h.done with
      | serving done rest hs _ _ =>
          obtain ⟨r, hholds, -, hunread, -⟩ := hs.buffers
          rw [hholds.getActiveSize, hunread, List.length_nil]
      | closed _ _ hplace _ _ =>
          rcases h.awake with hplace' | hasleep
          · exact absurd hplace' hplace
          · rw [hasleep] at halive
            cases halive
    have hrecv : ((t.conn .two).kcp.recv (0 : ℕ)).2 = .error (-3) := by
      have hne : ¬ (t.conn .two).kcp.rcvQueue.isEmpty = true := by
        intro hempty
        rw [List.isEmpty_iff] at hempty
        rw [IKCPCB.peeksize, hempty] at hpeek
        exact absurd hpeek (show ¬ (-1 : ℤ) > 0 by omega)
      rw [IKCPCB.recv, if_neg hne, if_neg (by omega), if_pos (by simpa using hpeek)]
    dsimp only
    rw [hactive, hrecv]
    refine ⟨_, rfl, @Connection.Invariant.step _ h.conn (.recv .two (0 : ℕ)) trivial, h.awake, ?_⟩
    show Done t.session conv (t.conn.step .bits32 (.recv .two (0 : ℕ)) .two).received.flatten
    rw [received_recv, hrecv]
    exact h.done
  · exact ⟨t, rfl, h⟩

/-- The other steps receive nothing at the server. -/
theorem received_other (c : Connection) {op : Connection.Op} (h : Other op) :
    (c.step .bits32 op .two).received = (c .two).received := by
  rcases op with ⟨s, _⟩ | ⟨s, _⟩ | ⟨s, _⟩ | ⟨s, _⟩ | ⟨s, _⟩ | ⟨s, _, _, _, _⟩ | ⟨s, _⟩ | ⟨s, _, _⟩ <;>
    cases s <;> first | rfl | cases h

/-- What was accepted stays so. -/
theorem accepted_step (c : Connection) (op : Connection.Op) (s : Side) :
    (c s).accepted <+: (c.step .bits32 op s).accepted := by
  have hsend (a : KcpEnd) (buffer : List Byte) : a.accepted <+: (a.send buffer).accepted := by
    rw [KcpEnd.send]
    dsimp only
    split_ifs
    · exact List.prefix_append _ _
    · exact List.prefix_rfl
  rcases op with ⟨r, _⟩ | ⟨r, _⟩ | ⟨r, _⟩ | ⟨r, _⟩ | ⟨r, _⟩ | ⟨r, _, _, _, _⟩ | ⟨r, _⟩ | ⟨r, _, _⟩ <;>
    cases r <;> cases s <;> first | exact List.prefix_rfl | exact hsend _ _

/-- **Steps keep the invariant**, and are defined. -/
theorem Invariant.step (h : Invariant conv t) (hserver : conv &&& 0xffff = serverId.toUInt32)
    (hps : (t.conn .one).accepted.flatten <+: Frame.concat ps) (hop : t.Allowed op) :
    ∃ t', t.step serverId f op = some t' ∧ Invariant conv t' := by
  cases op with
  | deliver d => exact @Invariant.receive _ _ _ _ _ h hserver hps (.deliver .two d) hop rfl rfl d.data
  | stray data => exact @Invariant.receive _ _ _ _ _ h hserver hps (.stray .two data) hop rfl rfl data
  | update => exact h.readOver
  | other op =>
      refine ⟨_, rfl, h.conn.step hop.1, h.awake, ?_⟩
      show Done t.session conv (t.conn.step .bits32 op .two).received.flatten
      rw [received_other t.conn hop.2]
      exact h.done

theorem accepted_mono (hstep : t.step serverId f op = some t') :
    (t.conn .one).accepted <+: (t'.conn .one).accepted := by
  have hreceive {input : Connection.Op} {data : List Byte}
      (hs : t.receive serverId f input data = some t') :
      (t.conn .one).accepted <+: (t'.conn .one).accepted := by
    rw [Served.receive] at hs
    split at hs
    · rw [onReceive] at hs
      dsimp only at hs
      split_ifs at hs
      · obtain rfl := Option.some.inj hs
        exact List.prefix_rfl
      · obtain rfl := Option.some.inj hs
        exact List.prefix_rfl
      · obtain ⟨s', -, rfl⟩ := Option.map_eq_some_iff.mp hs
        exact (accepted_step t.conn input .one).trans (accepted_step _ _ .one)
    · obtain rfl := Option.some.inj hs
      exact List.prefix_rfl
  cases op with
  | deliver d => exact hreceive hstep
  | stray data => exact hreceive hstep
  | other op =>
      obtain rfl := Option.some.inj hstep
      exact accepted_step t.conn op .one
  | update =>
      rw [Served.step, Served.readOver] at hstep
      split_ifs at hstep
      · dsimp only at hstep
        split at hstep
        · obtain rfl := Option.some.inj hstep
          exact accepted_step _ _ .one
        · rename_i msg _
          by_cases hpos : msg.length > 0
          · rw [if_pos hpos] at hstep
            obtain ⟨rb, -, hstep⟩ := Option.bind_eq_some_iff.mp hstep
            obtain ⟨s', -, hstep⟩ := Option.bind_eq_some_iff.mp hstep
            obtain rfl := Option.some.inj hstep
            exact accepted_step _ _ .one
          · rw [if_neg hpos] at hstep
            obtain rfl := Option.some.inj hstep
            exact accepted_step _ _ .one
      · obtain rfl := Option.some.inj hstep
        exact List.prefix_rfl

theorem Reachable.invariant {t₀ : Served} (h : Reachable serverId f t₀ t)
    (h₀ : Invariant conv t₀) (hserver : conv &&& 0xffff = serverId.toUInt32)
    (hps : (t.conn .one).accepted.flatten <+: Frame.concat ps) : Invariant conv t := by
  induction h with
  | refl => exact h₀
  | step _ hop hstep ih =>
      have hps' := (KcpSession.flatten_mono (accepted_mono hstep)).trans hps
      obtain ⟨t'', hstep', hinv⟩ := (ih hps').step (f := f) hserver hps' hop
      obtain rfl := Option.some.inj (hstep.symm.trans hstep')
      exact hinv

variable {clientConv : UInt16} {addr : SockAddr} {status : SessionStatus} {tick needUpdateTime : ℕ}

/-- **From the client to the handler.**  Whatever the network does and whatever the handler
answers, the packets given to the handler are a first part of those that the client sent, in
order and each once, however the client cut them into messages; and the server goes on. -/
theorem dispatched_part
    (h : Reachable serverId f (start clientConv serverId addr status tick needUpdateTime) t)
    (hps : (t.conn .one).accepted.flatten <+: Frame.concat ps) :
    t.session.members.dispatched <+: ps.map Frame.toDispatch ∧
      ∀ op, t.Allowed op → (t.step serverId f op).isSome := by
  have hserver := KcpSession.newConv_and clientConv serverId
  have hinv := h.invariant (invariant_start clientConv serverId addr status tick needUpdateTime)
    hserver hps
  refine ⟨hinv.done.handed_part (received_part hinv.conn hps), fun op hop => ?_⟩
  obtain ⟨t', ht', -⟩ := hinv.step (f := f) hserver hps hop
  rw [ht']
  rfl

/-- The client has sent a packet in one message, and the datagram is under way. -/
def underWay : Served :=
  let t := start 3 2 ⟨2, 9000, 1⟩ .connected 0 0
  let ops : List Connection.Op :=
    [.nodelay .one 1 5 1 1, .send .one [2, 0, 0, 0, 40, 0, 0, 0, 7, 8], .update .one 0]
  { t with conn := ops.foldl (Connection.step .bits32) t.conn }

theorem dispatched_part_underWay :
    let d : WireDatagram := ⟨[2, 0, 3, 0, 81, 0, 128, 0, 0, 0, 0, 0, 0, 0, 0, 0, 0, 0, 0, 0,
      10, 0, 0, 0, 2, 0, 0, 0, 40, 0, 0, 0, 7, 8], 1, 0⟩
    let p := Packet.ofHeader { size := 2, command := 40 } [7, 8] (by decide) (by decide) rfl
    ∃ t, underWay.step 2 (fun _ _ _ => true) (.deliver d) = some t ∧
      t.session.members.dispatched = [p.toDispatch] ∧
      t.session.members.dispatched <+: [p].map Frame.toDispatch := by
  intro d p
  have hsent : Reachable 2 (fun _ _ _ => true) (start 3 2 ⟨2, 9000, 1⟩ .connected 0 0) underWay :=
    @Reachable.step _ _ _ _ _ (.other (.update .one 0))
      (@Reachable.step _ _ _ _ _ (.other (.send .one [2, 0, 0, 0, 40, 0, 0, 0, 7, 8]))
        (@Reachable.step _ _ _ _ _ (.other (.nodelay .one 1 5 1 1)) .refl ⟨trivial, trivial⟩ rfl)
        ⟨trivial, trivial⟩ rfl) ⟨trivial, trivial⟩ rfl
  have hallowed : underWay.Allowed (.deliver d) := by
    show _ ∧ _ ∧ _
    decide +kernel
  have hsome : (underWay.step 2 (fun _ _ _ => true) (.deliver d)).isSome = true := by
    decide +kernel
  have hdone : (underWay.step 2 (fun _ _ _ => true) (.deliver d)).map
      (fun t => t.session.members.dispatched) = some [p.toDispatch] := by
    decide +kernel
  have haccepted : (underWay.step 2 (fun _ _ _ => true) (.deliver d)).map
      (fun t => (t.conn .one).accepted.flatten) = some (Frame.concat [p]) := by
    decide +kernel
  obtain ⟨t, ht⟩ := Option.isSome_iff_exists.mp hsome
  rw [ht] at hdone haccepted
  refine ⟨t, ht, Option.some.inj hdone, ?_⟩
  exact (dispatched_part (.step hsent hallowed ht)
    (Option.some.inj haccepted ▸ List.prefix_rfl)).1

end Served

end PCGForUnity
