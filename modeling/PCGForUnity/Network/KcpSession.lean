/-
PCGForUnity/Network/KcpSession.lean

The server's end of a connection: `KcpSession`, with the entry `SocketServer` keeps for it.
A session is received for while it stands in `m_mSessions`; `CloseSession` moves it out, and
`OnDisconnected` resets its buffers.

Design.  A session is an `Endpoint`: the read buffers that it shares with the client, and
members of its own.  `ReadHandler` of an end point takes the function that handles a packet
as a parameter; `handle` is that of the session, with the handler of the program, which may
close the session, as a parameter again.  What is handed to `Send` and what was dispatched
are recorded.

Results at the end: on a stream of packets the session serves each one once, in order,
however the stream is cut into messages (`Serving.receive`).  `Serving` is the state of a
session at rest between two messages, with the packet that has not come whole.
-/
import PCGForUnity.Network.Ikcp
import PCGForUnity.Network.ReadBuffers

namespace PCGForUnity

/-- Where `SocketServer` keeps a session: in `m_mSessions`, in
`m_mSleepSessions`, or nowhere any more. -/
inductive SessionPlace
  | sessions
  | sleepSessions
  | erased
deriving DecidableEq, Repr

/-- The members of `KcpSession` other than its buffers.  `sent` are the bytes
handed to `Send` and `dispatched` the runs of `ReadDataHandler`, so far. -/
structure SessionMembers extends KcpClock where
  sessionId : SocketSessionId
  status : SessionStatus
  tick : Nat
  alive : Bool
  place : SessionPlace
  sent : List (List Byte)
  dispatched : List (Dispatch Byte)

/-- A session is an end point with its own members. -/
abbrev KcpSession := Endpoint SessionMembers

/-- `IUINT32(GetNewConv() << 16) + GetServerId()` of `SocketServer::OnAccept`, for the
value the counter of conversations then has. -/
def SocketServer.newConv (clientConv serverId : UInt16) : UInt32 :=
  (clientConv.toUInt32 <<< 16) + serverId.toUInt32

/-- `SocketServer::CheckCrc`. -/
def SocketServer.checkCrc (_ : List Byte) : Bool := true

namespace KcpSession

/-! ### The session as coded -/

/-- The constructor, with the values it leaves unset. -/
def create (conv : UInt32) (addr : SockAddr) (status : SessionStatus)
    (tick needUpdateTime : Nat) : KcpSession :=
  { buffers := .init
    members :=
      { sessionId := { conv, addr }, kcp := .create conv, status, tick, needUpdateTime
        needUpdate := false, alive := true, place := .erased, sent := [], dispatched := [] } }

/-- `Send` -/
def send (s : KcpSession) (buff : List Byte) (immediately : Bool) : KcpSession :=
  let m := s.members
  { s with members := { m with
      toKcpClock := m.toKcpClock.send immediately, sent := m.sent ++ [buff] } }

/-- `OnConnected()`. -/
def onConnected (s : KcpSession) : KcpSession :=
  let header : PacketHeader := { size := 4, command := s2cAcceptAct }
  let s := s.send (header.toBytes ++ encode32u s.members.sessionId.conv.toNat) true
  { s with members := { s.members with alive := true, status := .connected } }

/-- A session `SocketServer` has just accepted. -/
def accepted (clientConv serverId : UInt16) (addr : SockAddr) (status : SessionStatus)
    (tick needUpdateTime : Nat) : KcpSession :=
  let s := create (SocketServer.newConv clientConv serverId) addr status tick needUpdateTime
  onConnected { s with members := { s.members with place := .sessions } }

/-- `OnDisconnected`: the remote is told once. -/
def onDisconnected (s : KcpSession) (immediately : Bool) : KcpSession :=
  let s :=
    if s.members.status ≠ .disconnected then
      let header : PacketHeader := { size := 0, command := s2cDisconnect }
      send { s with members := { s.members with status := .disconnected } } header.toBytes true
    else s
  if immediately then s
  else { buffers := s.buffers.reset, members := { s.members with alive := false, tick := 0 } }

/-- `SocketServer::CloseSession` of this session's conversation. -/
def closeSession (s : KcpSession) (remove : Bool) : KcpSession :=
  match s.members.place with
  | .sessions =>
      let s := s.onDisconnected remove
      { s with members :=
          { s.members with place := if remove then .erased else .sleepSessions } }
  | _ => s

/-- `ReadDataHandler`, on the header and the payload received. -/
def readDataHandler (dataHandler : Option DataHandler) (s : KcpSession) (d : Dispatch Byte) :
    ReadDataHandlerResult × KcpSession :=
  let header := PacketHeader.ofBytes d.hdr
  let s' := { s with members := { s.members with dispatched := s.members.dispatched ++ [d] } }
  match dataHandler with
  | some f => if f s.members.dispatched header.command d.payload then (.ok, s') else (.error, s')
  | none => (.error, s')

/-- The end of the loop body of `ReadHandler`. -/
def handle (dataHandler : Option DataHandler) (s : KcpSession) (d : Dispatch Byte) : KcpSession :=
  let (result, s) := s.readDataHandler dataHandler d
  let s := { s with buffers := { s.buffers with headerBuffer := s.buffers.headerBuffer.reset } }
  if result ≠ .ok then
    if result ≠ .waitingForQuery then s.closeSession false else s
  else s

/-- `ReadHandler` -/
def readHandler (dataHandler : Option DataHandler) (s : KcpSession) : Option KcpSession :=
  Endpoint.readHandler (handle dataHandler) s

/-- The part of `OnReceive` up to `ReadHandler`, and whether that is called. -/
def receive (s : KcpSession) (buff : KcpDatagram) : Option (KcpSession × Bool) :=
  let kcp := s.members.kcp.input buff
  let (kcp, recv) := kcp.recv s.buffers.readBuffer.getRemainingSpace
  let s := { s with members := { s.members with kcp } }
  match recv with
  | .error _ => some (s, false)
  | .ok msg =>
      if msg.length > 0 then do
        let readBuffer ← s.buffers.readBuffer.copyIn msg
        if !SocketServer.checkCrc s.buffers.packetBuffer.unread then
          some ({ s with buffers := { s.buffers with readBuffer } }, false)
        else
          some ({ s with buffers :=
            { s.buffers with readBuffer := readBuffer.writeCompleted msg.length } }, true)
      else some (s, false)

/-- `m_readBuffer.Reset()`. -/
def resetRead (s : KcpSession) : KcpSession :=
  { s with buffers := { s.buffers with readBuffer := s.buffers.readBuffer.reset } }

/-- `OnReceive`: the server id and the conversation are checked before KCP reads the datagram. -/
def onReceive (serverId : UInt16) (dataHandler : Option DataHandler) (s : KcpSession)
    (buff : KcpDatagram) : Option KcpSession :=
  if buff.conv &&& 0xffff ≠ serverId.toUInt32 then
    let head : PacketHeader := { size := 0, command := s2cCriticalError }
    some ((s.send head.toBytes true).closeSession false)
  else if s.members.sessionId.conv ≠ buff.conv then some (s.closeSession false)
  else do
    let (s, got) ← s.receive buff
    if got then
      let s ← s.readHandler dataHandler
      some s.resetRead
    else some s

/-- `Update` -/
def update (check : Ikcpcb → Nat → Nat) (dataHandler : Option DataHandler) (s : KcpSession)
    (diff : Nat) : Option KcpSession :=
  if !s.members.alive then
    some { s with members := { s.members with tick := (s.members.tick + diff) % 2 ^ 32 } }
  else
    let m := s.members
    let s := { s with members := { m with toKcpClock := m.toKcpClock.update check diff } }
    if s.members.kcp.peeksize > 0 then
      let (kcp, recv) := s.members.kcp.recv s.buffers.readBuffer.getActiveSize
      let s := { s with members := { s.members with kcp } }
      match recv with
      | .error _ => some s
      | .ok msg =>
          if msg.length > 0 then do
            let readBuffer ← s.buffers.readBuffer.copyOver msg
            if !SocketServer.checkCrc s.buffers.packetBuffer.unread then
              some { s with buffers := { s.buffers with readBuffer } }
            else
              let s : KcpSession := { s with buffers :=
                { s.buffers with readBuffer := readBuffer.readCompleted msg.length } }
              let s ← s.readHandler dataHandler
              some s.resetRead
          else some s
    else some s

/-- The part of `SocketServer::ReadHandler` for a datagram from the session's
remote: it is received for while the session is in `m_mSessions`. -/
def deliver (serverId : UInt16) (dataHandler : Option DataHandler) (s : KcpSession)
    (buff : KcpDatagram) : Option KcpSession :=
  match s.members.place with
  | .sessions => s.onReceive serverId dataHandler buff
  | _ => some s

/-! ### What a packet does to the other members -/

/-- The members after a run of `ReadDataHandler`. -/
def logged (m : SessionMembers) (d : Dispatch Byte) : SessionMembers :=
  { m with dispatched := m.dispatched ++ [d] }

/-- The members after `CloseSession`. -/
def closed (m : SessionMembers) : SessionMembers :=
  (closeSession { buffers := .init, members := m } false).members

/-- The members after a packet, and whether it made the server close the session. -/
def act (dataHandler : Option DataHandler) (m : SessionMembers) (d : Dispatch Byte) :
    SessionMembers × Bool :=
  match dataHandler with
  | some f =>
      if f m.dispatched (PacketHeader.ofBytes d.hdr).command d.payload then (logged m d, false)
      else if m.place = .sessions then (closed (logged m d), true) else (logged m d, false)
  | none => if m.place = .sessions then (closed (logged m d), true) else (logged m d, false)

variable {dataHandler : Option DataHandler} {serverId : UInt16}

theorem closed_dispatched (m : SessionMembers) : (closed m).dispatched = m.dispatched := by
  rcases m with ⟨_, _, status, _, _, place, _, _⟩
  cases status <;> cases place <;> rfl

theorem act_dispatched (dataHandler : Option DataHandler) (m : SessionMembers)
    (d : Dispatch Byte) : (act dataHandler m d).1.dispatched = m.dispatched ++ [d] := by
  have hclosed := closed_dispatched (logged m d)
  cases dataHandler with
  | none =>
      rw [act]
      split
      · exact hclosed
      · rfl
  | some f =>
      rw [act]
      split
      · rfl
      · split
        · exact hclosed
        · rfl

theorem closed_place {m : SessionMembers} (h : m.place = .sessions) :
    (closed m).place = .sleepSessions := by
  rw [closed, closeSession, h]
  rfl

theorem closeSession_of_sessions {s : KcpSession} (h : s.members.place = .sessions) :
    s.closeSession false = { buffers := s.buffers.reset, members := closed s.members } := by
  obtain ⟨buffers, m⟩ := s
  rw [closed, closeSession, closeSession, h]
  rcases m with ⟨_, _, status, _, _, place, _, _⟩
  cases status <;> rfl

theorem closeSession_of_not_sessions {s : KcpSession} (h : s.members.place ≠ .sessions)
    (remove : Bool) : s.closeSession remove = s := by
  rw [closeSession]
  split
  · contradiction
  · rfl

/-- Closing a session after its header was taken out, or before: the buffers end up reset. -/
theorem handlesBy (dataHandler : Option DataHandler) :
    Endpoint.HandlesBy (handle dataHandler) (act dataHandler) := by
  rintro ⟨b, m⟩ d
  have hclose : ∀ s : KcpSession, s.members = logged m d →
      s.buffers = { b with headerBuffer := b.headerBuffer.reset } →
      s.closeSession false = if m.place = .sessions
        then { buffers := b.reset, members := closed (logged m d) } else s := by
    rintro ⟨_, _⟩ rfl rfl
    split
    · exact closeSession_of_sessions ‹_›
    · exact closeSession_of_not_sessions ‹_› false
  rcases dataHandler with - | f
  · show closeSession _ false = _
    rw [hclose _ rfl rfl, act]
    split <;> rfl
  · by_cases hf : f m.dispatched (PacketHeader.ofBytes d.hdr).command d.payload = true
    · simp [handle, readDataHandler, act, hf, logged]
    · have hhandle : handle (some f) ⟨b, m⟩ d = closeSession
          ⟨{ b with headerBuffer := b.headerBuffer.reset }, logged m d⟩ false := by
        simp [handle, readDataHandler, hf, logged]
      rw [hhandle, hclose _ rfl rfl, act]
      simp only [hf]
      split <;> rfl

/-! ### Updates between messages -/

/-- With nothing unread `Update` takes no message from KCP. -/
theorem update_eq {s : KcpSession} {r : Receiver Byte} (h : s.buffers.Holds r)
    (hunread : r.unread = []) (check : Ikcpcb → Nat → Nat) (diff : Nat) :
    s.update check dataHandler diff = some (if s.members.alive then
      { s with members := { s.members with
          toKcpClock := s.members.toKcpClock.update check diff } }
      else { s with members := { s.members with tick := (s.members.tick + diff) % 2 ^ 32 } }) := by
  have hactive : s.buffers.readBuffer.getActiveSize = 0 := by
    rw [h.getActiveSize, hunread, List.length_nil]
  rw [update]
  cases s.members.alive with
  | false => rfl
  | true =>
      simp only [Bool.not_true, Bool.false_eq_true, if_false, if_true, hactive]
      split
      · rw [Ikcpcb.recv_zero _ ‹_›]
      · rfl

/-! ### Receiving one message -/

section Receive

variable {s : KcpSession} {r : Receiver Byte} {msg : List Byte}

/-- A datagram that completes nothing, when nothing waits. -/
theorem receive_nothing (hq : s.members.kcp.rcvQueue = []) (conv : UInt32) :
    s.receive ⟨conv, []⟩ = some (s, false) := by
  rw [receive, Ikcpcb.input_nil, Ikcpcb.recv_of_nil hq]

/-- A message that fits is moved into the read buffer. -/
theorem receive_eq (h : s.buffers.Holds r) (hq : s.members.kcp.rcvQueue = []) (hne : msg ≠ [])
    (hfit : r.used + msg.length ≤ recvBufferSize) :
    ∃ b, s.receive ⟨s.members.kcp.conv, [msg]⟩ = some ({ buffers := b, members := s.members }, true) ∧
      b.Holds { r with unread := r.unread ++ msg, used := r.used + msg.length } := by
  obtain ⟨rb, hcopy, hholds⟩ := h.fill hfit
  have hpos : msg.length > 0 := List.length_pos_iff.mpr hne
  have hsmall : ¬ msg.length > s.buffers.readBuffer.getRemainingSpace := by
    rw [h.getRemainingSpace]
    omega
  have hkcp : { s.members.kcp with rcvQueue := [] } = s.members.kcp := by
    rw [← hq]
  refine ⟨_, ?_, hholds⟩
  simp only [receive, Ikcpcb.input_of_conv, Ikcpcb.recv, hq, List.nil_append, if_neg hsmall, if_pos hpos,
    hcopy, hkcp, SocketServer.checkCrc, Option.bind_eq_bind, Option.bind_some]
  rfl

/-- Receiving a message at rest is a run of the reading side over its bytes. -/
theorem onReceive_refines (h : s.buffers.Holds r) (hq : s.members.kcp.rcvQueue = [])
    (hunread : r.unread = []) (hused : r.used = 0) (hne : msg ≠ [])
    (hlen : msg.length ≤ recvBufferSize)
    (hconv : s.members.kcp.conv = s.members.sessionId.conv)
    (hserver : s.members.sessionId.conv &&& 0xffff = serverId.toUInt32) :
    ∃ s' t, Receiver.run packetFormat (act dataHandler) (2 * msg.length + 2)
        { r with unread := msg, used := msg.length } s.members = some t ∧
      s.onReceive serverId dataHandler ⟨s.members.sessionId.conv, [msg]⟩ = some s' ∧
      s'.buffers.Holds { t.1 with unread := [], used := 0 } ∧ s'.members = t.2 := by
  obtain ⟨b, hrecv, hb⟩ := receive_eq h hq hne (by rw [hused]; omega)
  rw [hconv] at hrecv
  rw [hunread, hused, List.nil_append, Nat.zero_add] at hb
  obtain ⟨e, t, hrun, hread, hi, hm⟩ := Endpoint.readHandler_refines
    (e := { buffers := b, members := s.members }) (handlesBy dataHandler) hb
  refine ⟨resetRead e, t, hrun, ?_, hi.resetRead, hm⟩
  rw [onReceive, if_neg (not_not.mpr hserver), if_neg (not_not.mpr rfl), hrecv]
  simp only [Option.bind_eq_bind, Option.bind_some, if_true, readHandler, hread]

end Receive

/-! ### Sessions that serve a stream of packets -/

/-- The data handler accepts the packets, called with them one after another. -/
def Accepts (f : DataHandler) : List (Dispatch Byte) → List Packet → Prop :=
  Run.EachStep (fun log p => log ++ [p.toDispatch])
    fun log p => f log (PacketHeader.ofBytes p.hdr).command p.payload = true

/-- A session at rest that has served the packets `ps` and received the
incomplete packet `rest`.  Without a complete header the packet buffer is as it
was made, or full of the last payload. -/
structure Serving (s : KcpSession) (conv : UInt32) (ps : List Packet) (rest : List Byte) :
    Prop where
  buffers : ∃ r, s.buffers.Holds r ∧ r.Pending packetFormat rest ∧ r.unread = [] ∧ r.used = 0 ∧
    (rest.length < sizeofPacketHeader →
      ps = [] ∧ r.payload = [] ∧ r.size = MessageBuffer.bufferSize ∨
        ps ≠ [] ∧ r.payload.length = r.size)
  queue : s.members.kcp.rcvQueue = []
  conv : s.members.sessionId.conv = conv
  kcpConv : s.members.kcp.conv = s.members.sessionId.conv
  place : s.members.place = .sessions
  dispatched : s.members.dispatched = ps.map Frame.toDispatch

theorem serving_accepted (clientConv serverId : UInt16) (addr : SockAddr)
    (status : SessionStatus) (tick needUpdateTime : Nat) :
    Serving (accepted clientConv serverId addr status tick needUpdateTime)
      (SocketServer.newConv clientConv serverId) [] [] :=
  ⟨⟨_, ReadBuffers.holds_init, Receiver.pending_nil rfl, rfl, rfl, fun _ => Or.inl ⟨rfl, rfl, rfl⟩⟩,
    rfl, rfl, rfl, rfl, rfl⟩

/-- The server id is in the low half of a conversation. -/
theorem newConv_and (clientConv serverId : UInt16) :
    SocketServer.newConv clientConv serverId &&& 0xffff = serverId.toUInt32 := by
  apply UInt32.toNat.inj
  have hc := clientConv.toNat_lt
  have hs := serverId.toNat_lt
  rw [SocketServer.newConv, UInt32.toNat_and]
  show _ &&& (2 ^ 16 - 1) = _
  rw [Nat.and_two_pow_sub_one_eq_mod, UInt32.toNat_add, UInt32.toNat_shiftLeft]
  simp [Nat.shiftLeft_eq]

section Serving

variable {f : DataHandler} {s : KcpSession} {conv : UInt32} {ps qs : List Packet}
  {rest rest' msg : List Byte}

/-- Packets the data handler accepts leave the session open, and are logged. -/
theorem keeps_of_accepts {m : SessionMembers} (h : Accepts f m.dispatched qs) :
    Receiver.Keeps (act (some f)) m qs ∧ qs.foldl (Receiver.serve (act (some f))) m
      = { m with dispatched := m.dispatched ++ qs.map Frame.toDispatch } := by
  induction qs generalizing m with
  | nil => exact ⟨trivial, by simp⟩
  | cons p qs ih =>
      have hact : act (some f) m p.toDispatch = (logged m p.toDispatch, false) := by
        rw [act, if_pos h.1]
      obtain ⟨hk, hfold⟩ := ih (m := logged m p.toDispatch) h.2
      have hserve : Receiver.serve (act (some f)) m p = logged m p.toDispatch := by
        rw [Receiver.serve, hact]
      refine ⟨⟨congrArg Prod.snd hact, by rwa [hserve]⟩, ?_⟩
      rw [List.foldl_cons, hserve, hfold]
      simp [logged]

/-- **Serving one message.**  The packets completed by it are served, and the
incomplete one at its end is kept. -/
theorem Serving.onReceive (h : Serving s conv ps rest)
    (hserver : conv &&& 0xffff = serverId.toUInt32) (hne : msg ≠ [])
    (hlen : msg.length ≤ recvBufferSize) (hl : rest ++ msg = Frame.concat qs ++ rest')
    (hinc : packetFormat.Incomplete rest') (hacc : Accepts f (ps.map Frame.toDispatch) qs) :
    ∃ s', s.onReceive serverId (some f) ⟨conv, [msg]⟩ = some s' ∧
      Serving s' conv (ps ++ qs) rest' := by
  obtain ⟨r, hholds, hpend, hunread, hused, hpay⟩ := h.buffers
  obtain ⟨hk, hfold⟩ := keeps_of_accepts (m := s.members) (by rwa [h.dispatched])
  obtain ⟨r', hserves, hpend', hunread', -, hpay'⟩ := Receiver.run_serves
    (r := { r with unread := msg, used := msg.length }) hpend hl hinc hk (Nat.le_refl _)
  rw [hfold] at hserves
  obtain ⟨s', t, hrun, hrecv, hb, hm⟩ := onReceive_refines hholds h.queue hunread hused hne hlen
    h.kcpConv (by rwa [h.conv])
  obtain rfl := Option.some.inj (hserves.symm.trans hrun)
  rw [h.conv] at hrecv
  refine ⟨s', hrecv, ⟨_, hb, hpend', rfl, rfl, fun hshort => ?_⟩, ?_, ?_, ?_, ?_, ?_⟩
  · rcases hpay' hshort with ⟨rfl, hp, hs⟩ | ⟨hqs, hfull⟩
    · -- no packet completed: the beginning of the header was already there
      have hrest : rest.length < sizeofPacketHeader := by
        have := congrArg List.length hl
        rw [Frame.concat_nil, List.nil_append, List.length_append] at this
        omega
      rw [List.append_nil]
      rcases hpay hrest with ⟨hps, hp', hs'⟩ | ⟨hps, hfull⟩
      · exact Or.inl ⟨hps, hp.trans hp', hs.trans hs'⟩
      · exact Or.inr ⟨hps, by rw [hp, hs]; exact hfull⟩
    · exact Or.inr ⟨by simp [hqs], hfull⟩
  · rw [hm]
    exact h.queue
  · rw [hm]
    exact h.conv
  · rw [hm]
    exact h.kcpConv
  · rw [hm]
    exact h.place
  · rw [hm, h.dispatched, List.map_append]

end Serving

end KcpSession

end PCGForUnity
