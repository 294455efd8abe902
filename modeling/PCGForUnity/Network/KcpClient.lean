/-
PCGForUnity/Network/KcpClient.lean

The client's end of a connection: `KcpClient`.  Its receive path is a copy of the one of
`KcpSession` with two differences.  `OnReceive` does not reset the read buffer, so its write
position only moves on; and `ReadDataHandler` answers four commands itself, one of which,
`S2C_DISCONNECT`, resets the buffers.

Design.  A client is an `Endpoint` like a session, with members of its own and a `handle` of
its own, so that what both do with their buffers is stated once (`ReadBuffers`).  Bytes that a
read takes from behind the end of a payload are those of a parameter, `beyond`.  Times and
counters have the width and the sign of the source.

Left out: what the socket's send and receive threads do; of the socket only `Connected()` is
kept, and the datagrams `Connect` sends.  `Update` is told whether the socket was reached.
-/
import PCGForUnity.Network.Ikcp
import PCGForUnity.Network.ReadBuffers

namespace PCGForUnity

/-- `ClientResponse`. -/
inductive ClientResponse
  | connectSuccess
  | connectFail
  | disconnected
deriving DecidableEq, Repr

/-- The members of `KcpClient` other than its buffers.  `requests` are the
datagrams `Connect` sent, `sent` the bytes `Send` gave to KCP, `responses` the
calls of `m_pResponce` and `dispatched` the runs of `ReadDataHandler`, so far. -/
structure ClientMembers extends KcpClock where
  sessionId : SocketSessionId
  remote : SockAddr
  connected : Bool
  status : SessionStatus
  tick : Int
  timeOutTick : Nat
  alive : Bool
  connectTimeOut : Int
  reconnectTime : Int
  dataHandler : Option DataHandler
  responce : Bool
  requests : List (List Byte)
  sent : List (List Byte)
  responses : List ClientResponse
  dispatched : List (Dispatch Byte)

/-- A client is an end point with its own members. -/
abbrev KcpClient := Endpoint ClientMembers

namespace KcpClient

/-! ### The client as coded -/

/-- `CLIENT_TIMEOUT_MS`. -/
def clientTimeoutMs : Nat := 18 * 1000

/-- `reconnectInterval`: the time between two attempts. -/
def reconnectInterval : Int := 1000

/-- The constructor and the calls that set the client up, with the values these leave unset. -/
def create (serverId : Int16) (remote : SockAddr) (dataHandler : Option DataHandler)
    (responce : Bool) (sessionId : SocketSessionId) (status : SessionStatus) (tick : Int)
    (timeOutTick needUpdateTime : Nat) (needUpdate alive : Bool) : KcpClient :=
  { buffers := .init
    members :=
      { kcp := .create serverId.toInt32.toUInt32, needUpdateTime, needUpdate, sessionId, remote, status,
        tick, timeOutTick, alive, dataHandler, responce, connected := false,
        connectTimeOut := 6000, reconnectTime := 0, requests := [], sent := [],
        responses := [], dispatched := [] } }

/-- `Connect`, `reached` being the success of `SocketConnect`. -/
def connect (reached : Bool) (m : ClientMembers) : ClientMembers :=
  let header : PacketHeader := { size := 4, command := c2sConnect }
  { m with
    connected := m.connected || reached
    requests := m.requests ++ [header.toBytes ++ [97, 99, 112, 116]]
    status := .connecting }

/-- `Close` -/
def close (m : ClientMembers) : ClientMembers :=
  { m with connected := false, alive := false, dataHandler := none, responce := false }

/-- `Send`, which does nothing if there is no connection. -/
def send (m : ClientMembers) (buff : List Byte) (immediately : Bool) : ClientMembers :=
  if m.status ≠ .connected ∧ m.status ≠ .connecting then m
  else { m with toKcpClock := m.toKcpClock.send immediately, sent := m.sent ++ [buff] }

/-- `SendHeartBeat` -/
def sendHeartBeat (m : ClientMembers) : ClientMembers :=
  let head : PacketHeader := { size := 0, command := c2sHeartbeat }
  send m head.toBytes false

/-- The counting of `Update` while the client is alive. -/
def countTime (m : ClientMembers) (diff : Int) : ClientMembers :=
  { m with tick := m.tick + diff, timeOutTick := ((m.timeOutTick + diff) % 2 ^ 32).toNat }

/-- The part of `Update` that sends a heartbeat when it is time. -/
def heartBeat (m : ClientMembers) : ClientMembers :=
  if m.tick > heartBeatInterval then sendHeartBeat { m with tick := 0 } else m

/-- `OnResponse`: the callback is called if there is one. -/
def onResponse (m : ClientMembers) (response : ClientResponse) : ClientMembers :=
  if m.responce then { m with responses := m.responses ++ [response] } else m

/-- `OnConnected` -/
def onConnected (m : ClientMembers) (success : Bool) : ClientMembers :=
  let m : ClientMembers :=
    { m with status := if success then .connected else .disconnected, alive := success }
  onResponse m (if success then .connectSuccess else .connectFail)

/-- The members after `OnDisconnected`, which also resets the three buffers. -/
def onDisconnected (m : ClientMembers) : ClientMembers :=
  onResponse { m with alive := false, tick := 0, status := .disconnected, connected := false }
    .disconnected

/-- The members after `OnConnectFailed`, which also resets the three buffers. -/
def onConnectFailed (m : ClientMembers) : ClientMembers :=
  onResponse { m with status := .disconnected, alive := false } .connectFail

/-- The branch of `ReadDataHandler` for `S2C_ACCEPT_ACT`, with the conversation read. -/
def onAccept (m : ClientMembers) (conv : UInt32) : ClientMembers :=
  let m : ClientMembers :=
    if conv > 0 then
      { m with sessionId := { conv, addr := m.remote }, kcp := { m.kcp with conv } }
    else m
  onConnected m (decide (conv > 0))

/-- The end of `ReadDataHandler`, where `m_pDataHandler` answers. -/
def answer (dataHandler : Option DataHandler) (log : List (Dispatch Byte)) (command : Nat)
    (payload : List Byte) : ReadDataHandlerResult :=
  match dataHandler with
  | some f => if f log command payload then .ok else .error
  | none => .error

/-- `ReadDataHandler`, on the header and the payload received.  `beyond` is what
lies behind a payload too short for the conversation. -/
def readDataHandler (beyond : List (Dispatch Byte) → List Byte) (c : KcpClient) (d : Dispatch Byte) :
    ReadDataHandlerResult × KcpClient :=
  let header := PacketHeader.ofBytes d.hdr
  let log := c.members.dispatched
  let m : ClientMembers := { c.members with dispatched := log ++ [d] }
  if header.command = s2cAcceptAct then
    let conv := UInt32.ofNat (decode32u (d.payload ++ beyond log))
    (.ok, { c with members := onAccept m conv })
  else if header.command = s2cDisconnect then
    (.ok, { buffers := c.buffers.reset, members := onDisconnected m })
  else if header.command = s2cHeartbeat then (.ok, { c with members := { m with timeOutTick := 0 } })
  else if header.command = s2cCriticalError then (.error, { c with members := m })
  else (answer m.dataHandler log header.command d.payload, { c with members := m })

/-- The end of the loop body of `ReadHandler`: whatever the result, it goes on. -/
def handle (beyond : List (Dispatch Byte) → List Byte) (c : KcpClient) (d : Dispatch Byte) : KcpClient :=
  let c := (c.readDataHandler beyond d).2
  { c with buffers := { c.buffers with headerBuffer := c.buffers.headerBuffer.reset } }

/-- `ReadHandler` -/
def readHandler (beyond : List (Dispatch Byte) → List Byte) (c : KcpClient) : Option KcpClient :=
  Endpoint.readHandler (handle beyond) c

/-- `CheckCrc`, which checks nothing. -/
def checkCrc (_ : List Byte) : Bool := true

/-- `OnReceive` -/
def onReceive (beyond : List (Dispatch Byte) → List Byte) (c : KcpClient) (buff : KcpDatagram) :
    Option KcpClient :=
  let (kcp, recv) := (c.members.kcp.input buff).recv c.buffers.readBuffer.getRemainingSpace
  let c := { c with members := { c.members with kcp } }
  match recv with
  | .error _ => some c
  | .ok msg =>
      if msg.length > 0 then do
        let readBuffer ← c.buffers.readBuffer.copyIn msg
        if !checkCrc c.buffers.packetBuffer.unread then
          some { c with buffers := { c.buffers with readBuffer } }
        else
          let c : KcpClient := { c with buffers :=
            { c.buffers with readBuffer := readBuffer.writeCompleted msg.length } }
          c.readHandler beyond
      else some c

/-- `Update`, `check` being `ikcp_check` and `reached` the success of `SocketConnect`. -/
def update (check : Ikcpcb → Nat → Nat) (reached : Bool) (c : KcpClient) (diff : Int) :
    KcpClient :=
  let m := c.members
  if !m.alive then
    if m.status = .connecting then
      let m : ClientMembers := { m with tick := m.tick + diff }
      if m.tick ≥ reconnectInterval then
        -- `m_nReconnectTime` is an `int16`
        let m : ClientMembers :=
          { m with tick := 0, reconnectTime := (m.reconnectTime + 1).bmod (2 ^ 16) }
        if m.connectTimeOut > 0 ∧ m.reconnectTime ≥ m.connectTimeOut.tdiv reconnectInterval then
          { buffers := c.buffers.reset, members := onConnectFailed m }
        else { c with members := connect reached m }
      else { c with members := m }
    else c
  else
    let m := countTime m diff
    if m.timeOutTick ≥ clientTimeoutMs then { c with members := close m }
    else
      let m := heartBeat m
      { c with members := { m with toKcpClock := m.toKcpClock.update check diff } }

/-! ### What a packet does to the other members -/

/-- A packet with the command `S2C_DISCONNECT`. -/
def IsDisconnect (d : Dispatch Byte) : Prop := (PacketHeader.ofBytes d.hdr).command = s2cDisconnect

instance (d : Dispatch Byte) : Decidable (IsDisconnect d) :=
  inferInstanceAs (Decidable (_ = _))

/-- The members after a packet, and whether the buffers were reset. -/
def act (beyond : List (Dispatch Byte) → List Byte) (m : ClientMembers) (d : Dispatch Byte) :
    ClientMembers × Bool :=
  ((readDataHandler beyond { buffers := .init, members := m } d).2.members,
    decide (IsDisconnect d))

variable {beyond : List (Dispatch Byte) → List Byte} {m : ClientMembers}

theorem onResponse_dispatched (m : ClientMembers) (response : ClientResponse) :
    (onResponse m response).dispatched = m.dispatched := by
  rw [onResponse]
  split <;> rfl

theorem onResponse_kcp (m : ClientMembers) (response : ClientResponse) :
    (onResponse m response).kcp = m.kcp := by
  rw [onResponse]
  split <;> rfl

theorem onAccept_dispatched (m : ClientMembers) (conv : UInt32) :
    (onAccept m conv).dispatched = m.dispatched := by
  rw [onAccept, onConnected, onResponse_dispatched]
  split <;> rfl

theorem onAccept_rcvQueue (m : ClientMembers) (conv : UInt32) :
    (onAccept m conv).kcp.rcvQueue = m.kcp.rcvQueue := by
  rw [onAccept, onConnected, onResponse_kcp]
  split <;> rfl

/-- `ReadDataHandler` resets the buffers for `S2C_DISCONNECT`, and leaves them alone otherwise. -/
theorem readDataHandler_eq (c : KcpClient) (d : Dispatch Byte) :
    (readDataHandler beyond c d).2 =
      { buffers := if IsDisconnect d then c.buffers.reset else c.buffers
        members := (act beyond c.members d).1 } := by
  rw [act, readDataHandler, readDataHandler]
  by_cases haccept : (PacketHeader.ofBytes d.hdr).command = s2cAcceptAct
  · have hno : ¬ IsDisconnect d := by
      rw [IsDisconnect, haccept]
      decide
    rw [if_pos haccept, if_pos haccept, if_neg hno]
  · rw [if_neg haccept, if_neg haccept]
    by_cases hdisconnect : (PacketHeader.ofBytes d.hdr).command = s2cDisconnect
    · rw [if_pos hdisconnect, if_pos hdisconnect, if_pos (show IsDisconnect d from hdisconnect)]
    · rw [if_neg hdisconnect, if_neg hdisconnect, if_neg (show ¬ IsDisconnect d from hdisconnect)]
      split
      · rfl
      · split <;> rfl

theorem handlesBy (beyond : List (Dispatch Byte) → List Byte) :
    Endpoint.HandlesBy (handle beyond) (act beyond) := by
  intro c d
  rw [handle, readDataHandler_eq, act]
  by_cases hdisconnect : IsDisconnect d
  · rw [if_pos hdisconnect, decide_eq_true hdisconnect]
    rfl
  · rw [if_neg hdisconnect, decide_eq_false hdisconnect]
    rfl

/-- Every packet is logged. -/
theorem act_dispatched (m : ClientMembers) (d : Dispatch Byte) :
    (act beyond m d).1.dispatched = m.dispatched ++ [d] := by
  rw [act, readDataHandler]
  split
  · exact onAccept_dispatched _ _
  · split
    · exact onResponse_dispatched _ _
    · split
      · rfl
      · split <;> rfl

/-- A packet takes nothing from the queue of messages. -/
theorem act_rcvQueue (m : ClientMembers) (d : Dispatch Byte) :
    (act beyond m d).1.kcp.rcvQueue = m.kcp.rcvQueue := by
  rw [act, readDataHandler]
  split
  · exact onAccept_rcvQueue _ _
  · split
    · exact congrArg Ikcpcb.rcvQueue (onResponse_kcp _ _)
    · split
      · rfl
      · split <;> rfl

end KcpClient

end PCGForUnity
