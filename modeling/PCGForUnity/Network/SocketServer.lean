/-
PCGForUnity/Network/SocketServer.lean

The sessions of the server (`SocketServer.cpp`): who is accepted, where a session stands, and
what time does to it.

Design.  An entry of a map is the session it points to, with its number: sessions are told by
it.  The maps are the lists of their entries (`Lib/StdMap`), `m_WaitingForConnections` with the
order that the code gives it, which does not tell all remotes apart.

A session that its own functions close is moved by `settle`, as by the `CloseSession` of its
conversation that they call.  A session that nothing points to any more is destroyed, which
closes its conversation unless it is disconnected: that is an operation of its own.

A `Host` has what the repository leaves to others: when KCP is due, the handler of packets, and
what `erase` leaves at an iterator that is used after it.

Left out: sending, the accept callback and `Stop`; the socket is taken to be connected.
-/
import PCGForUnity.Lib.Run
import PCGForUnity.Lib.StdMap
import PCGForUnity.Network.KcpSession

namespace PCGForUnity

/-- `IKCP_OVERHEAD_LEN` -/
def ikcpOverheadLen : ℕ := 24

/-- `SESSION_KEEP_ALIVE_TIME` -/
def sessionKeepAliveTime : ℕ := 6000

/-- `accept_pack_data` -/
def acceptPackData : List Byte :=
  let acptHeader : PacketHeader := { size := 4, command := c2sConnect }
  acptHeader.toBytes ++ [97, 99, 112, 116]

/-- A datagram as it comes from the socket, with the conversation that its first
four bytes say and the messages it completes for KCP. -/
structure UdpDatagram where
  bytes : List Byte
  conv : UInt32
  completes : List (List Byte)
  conv_eq : 4 ≤ bytes.length → conv = UInt32.ofNat (decode32u bytes)
  short : bytes.length < ikcpOverheadLen → completes = []

/-- The datagram that `KcpClient::Connect` sends. -/
def UdpDatagram.connect : UdpDatagram where
  bytes := acceptPackData
  conv := 4
  completes := []
  conv_eq := fun _ => rfl
  short := fun _ => rfl

/-- The datagram as KCP sees it. -/
def UdpDatagram.toKcp (d : UdpDatagram) : KcpDatagram := { conv := d.conv, completes := d.completes }

/-- What the constructor of a session leaves unset. -/
structure Unset where
  status : SessionStatus
  tick : ℕ
  needUpdateTime : ℕ
deriving DecidableEq, Repr

/-- A `shared_ptr` to a session. -/
structure SessionPtr where
  ptr : ℕ
  session : KcpSession

/-- The remote of the session. -/
def SessionPtr.addr (p : SessionPtr) : SockAddr := p.session.members.sessionId.addr

/-- The conversation of the session. -/
def SessionPtr.conv (p : SessionPtr) : UInt32 := p.session.members.sessionId.conv

/-- `IsDead` -/
def KcpSession.isDead (s : KcpSession) : Bool :=
  !s.members.alive && decide (s.members.tick ≥ sessionKeepAliveTime)

/-- The members of `SocketServer` that are used here.  `accepts` are the remotes
that sessions were made for so far. -/
structure SocketServer where
  sessions : StdMap UInt32 SessionPtr
  sleepSessions : StdMap UInt32 SessionPtr
  waitingForConnections : StdMap SockAddr MessageBuffer
  clientConv : UInt16
  serverId : UInt16
  accepts : List SockAddr

/-- What the server is given: `ikcp_check`, the data handler of the sessions, and
what a buffer reads like through a pointer to an entry that was erased. -/
structure Host where
  check : Ikcpcb → ℕ → ℕ
  dataHandler : Option DataHandler
  erased : MessageBuffer → Option MessageBuffer

/-- What `OnAccept` decides about a remote. -/
inductive Decision
  | accept (ptr : ℕ)
  | wait
  | reject
deriving DecidableEq, Repr

namespace SocketServer

/-- The order of conversations. -/
def convLess (a b : UInt32) : Bool := decide (a < b)

/-- The constructor and `SetServerId`. -/
def create (serverId : UInt16) : SocketServer :=
  { sessions := []
    sleepSessions := []
    waitingForConnections := []
    clientConv := 0
    serverId
    accepts := [] }

/-! ### Sessions -/

/-- `GetSessionByRemote`: a search through all sessions. -/
def getSessionByRemote (srv : SocketServer) (remote : SockAddr) : Option SessionPtr :=
  (srv.sessions.find? fun mc => mc.2.addr.same remote).map Prod.snd

/-- The maps once `p` was closed, or not, while it stood in `m_mSessions` under `conv`. -/
def settle (srv : SocketServer) (conv : UInt32) (p : SessionPtr) : SocketServer :=
  match p.session.members.place with
  | .sessions =>
      { srv with sessions := srv.sessions.map fun mc => if mc.1 = conv then (conv, p) else mc }
  | .sleepSessions =>
      { srv with
        sleepSessions := StdMap.insert convLess conv p srv.sleepSessions
        sessions := StdMap.erase conv srv.sessions }
  | .erased => { srv with sessions := StdMap.erase conv srv.sessions }

/-- A session that `CloseSession` disconnects. -/
def disconnect (p : SessionPtr) (remove : Bool) : SessionPtr :=
  let s := p.session.onDisconnected remove
  { p with session := { s with members :=
      { s.members with place := if remove then .erased else .sleepSessions } } }

/-- `CloseSession` of an address. -/
def closeRemote (srv : SocketServer) (client : SockAddr) : SocketServer × Bool :=
  match srv.sessions.find? fun mc => mc.2.addr.same client with
  | some (conv, p) => (srv.settle conv (disconnect p true), true)
  | none => (srv, false)

/-- `CloseSession` of a conversation. -/
def closeSession (srv : SocketServer) (session : UInt32) (remove : Bool) : SocketServer × Bool :=
  match srv.sessions.find? fun mc => mc.1 = session with
  | some (conv, p) => (srv.settle conv (disconnect p remove), true)
  | none => (srv, false)

/-! ### Accepting -/

/-- `AcceptPack`: the bytes are the first of those expected. -/
def acceptPack (buff : List Byte) : Bool := buff == acceptPackData.take buff.length

/-- `GetWaitingConnectSession` -/
def getWaitingConnectSession (srv : SocketServer) (remote : SockAddr) : Option MessageBuffer :=
  (srv.waitingForConnections.find? fun mc => mc.1.same remote).map Prod.snd

/-- The end of `OnAccept`: a session is made and inserted. -/
def insertSession (srv : SocketServer) (remote : SockAddr) (unset : Unset) :
    SocketServer × Decision :=
  let clientConv := srv.clientConv + 1
  let conv := newConv clientConv srv.serverId
  let s := KcpSession.create conv remote unset.status unset.tick unset.needUpdateTime
  let session := { s with members := { s.members with place := .sessions } }
  let ptr := srv.accepts.length
  ({ srv with
      clientConv
      sessions := StdMap.insert convLess conv { ptr, session } srv.sessions
      accepts := srv.accepts ++ [remote] },
    .accept ptr)

/-- The decision on a buffer of the size of an accept pack. -/
def judge (srv : SocketServer) (remote : SockAddr) (unset : Unset) (msgBuffer : MessageBuffer) :
    Option (SocketServer × Decision) := do
  let data ← msgBuffer.readBytes msgBuffer.getActiveSize
  if !acceptPack data then some (srv, .reject)
  else some (srv.insertSession remote unset)

/-- `OnAccept`, with the bytes in the server's read buffer. -/
def onAccept (host : Host) (srv : SocketServer) (remote : SockAddr) (unset : Unset)
    (bytes : List Byte) : Option (SocketServer × Decision) :=
  match srv.getWaitingConnectSession remote with
  | none => do
      let buff ← (MessageBuffer.ofSize bytes.length).write bytes
      if buff.getActiveSize > acceptPackData.length then some (srv, .reject)
      else if buff.getActiveSize ≠ acceptPackData.length then
        let waitingForConnections :=
          StdMap.insert SockAddr.less remote buff srv.waitingForConnections
        some ({ srv with waitingForConnections }, .wait)
      else srv.judge remote unset buff
  | some msgBuffer => do
      let msgBuffer ← (msgBuffer.ensureFreeSpace bytes.length).write bytes
      let waitingForConnections := srv.waitingForConnections.eraseP fun mc => mc.1.same remote
      let srv := { srv with waitingForConnections }
      -- the buffer is in the entry that was just erased
      let msgBuffer ← host.erased msgBuffer
      if msgBuffer.getActiveSize ≠ acceptPackData.length then some (srv, .reject)
      else srv.judge remote unset msgBuffer

/-- `session->OnConnected()` -/
def onConnected (srv : SocketServer) (ptr : ℕ) : SocketServer :=
  { srv with sessions := srv.sessions.map (Prod.map id fun p =>
      if p.ptr = ptr then { p with session := p.session.onConnected } else p) }

/-- `ReadHandler` -/
def readHandler (host : Host) (srv : SocketServer) (addr : SockAddr) (unset : Unset)
    (d : UdpDatagram) : Option SocketServer :=
  match srv.getSessionByRemote addr with
  | none => do
      let (srv, decision) ← srv.onAccept host addr unset d.bytes
      match decision with
      | .accept ptr => some (srv.onConnected ptr)
      | _ => some srv
  | some p => do
      let session ← p.session.onReceive srv.serverId host.dataHandler d.toKcp
      some (srv.settle p.conv { p with session })

/-- `ReadHandlerInternal` -/
def readHandlerInternal (host : Host) (srv : SocketServer) (addr : SockAddr) (unset : Unset)
    (d : UdpDatagram) : Option SocketServer :=
  if d.bytes.length ≤ 0 then some srv else srv.readHandler host addr unset d

/-! ### Time -/

/-- A session in `m_mSessions` that is updated.  One that closed itself would wait
for `_sessionLock`, which `Update` holds. -/
def updateAlive (host : Host) (diff : ℕ) (mc : UInt32 × SessionPtr) :
    Option (UInt32 × SessionPtr) := do
  let session ← mc.2.session.update host.check host.dataHandler diff
  if session.members.place = .sessions then some (mc.1, { mc.2 with session }) else none

/-- The update of a session that sleeps. -/
def updateAsleep (host : Host) (diff : ℕ) (mc : UInt32 × SessionPtr) :
    Option (UInt32 × SessionPtr) := do
  let session ← mc.2.session.update host.check host.dataHandler diff
  some (mc.1, { mc.2 with session })

/-- `Update` -/
def update (host : Host) (srv : SocketServer) (diff : ℕ) : Option SocketServer := do
  let sessions ← srv.sessions.mapM (updateAlive host diff)
  let sleepSessions ← srv.sleepSessions.mapM (updateAsleep host diff)
  some { srv with
    sessions
    sleepSessions := sleepSessions.filter fun mc => !mc.2.session.isDead }

/-! ### Runs -/

/-- What happens to the server. -/
inductive Op
  | receive (addr : SockAddr) (unset : Unset) (d : UdpDatagram)
  | closeRemote (client : SockAddr)
  | closeSession (session : UInt32) (remove : Bool)
  | update (diff : ℕ)

/-- An operation; `none` where the code reads what it has freed, or a session gives no result. -/
def step (host : Host) (srv : SocketServer) : Op → Option SocketServer
  | .receive addr unset d => srv.readHandlerInternal host addr unset d
  | .closeRemote client => some (srv.closeRemote client).1
  | .closeSession session remove => some (srv.closeSession session remove).1
  | .update diff => srv.update host diff

/-! ### What `OnAccept` decides -/

variable {host : Host} {srv : SocketServer} {remote : SockAddr}

theorem acceptPack_acceptPackData : acceptPack acceptPackData = true := by
  rw [acceptPack, List.take_length, beq_self_eq_true]

theorem judge_eq {b : MessageBuffer} {size : ℕ} {bytes : List Byte} (h : b.Stores size bytes)
    (srv : SocketServer) (remote : SockAddr) (unset : Unset) :
    srv.judge remote unset b =
      some (if acceptPack bytes then srv.insertSession remote unset else (srv, .reject)) := by
  rw [judge, h.getActiveSize, h.readBytes, Option.bind_eq_bind, Option.bind_some]
  cases acceptPack bytes <;> rfl

/-- A remote that waits for nothing is judged by its datagram. -/
theorem onAccept_of_not_waiting (host : Host) (h : srv.getWaitingConnectSession remote = none)
    (unset : Unset) (bytes : List Byte) :
    ∃ b, (MessageBuffer.ofSize bytes.length).write bytes = some b ∧
      srv.onAccept host remote unset bytes =
        if bytes.length > acceptPackData.length then some (srv, .reject)
        else if bytes.length ≠ acceptPackData.length then
          some ({ srv with
            waitingForConnections :=
              StdMap.insert SockAddr.less remote b srv.waitingForConnections }, .wait)
        else some (if acceptPack bytes then srv.insertSession remote unset
          else (srv, .reject)) := by
  obtain ⟨b, hwrite, hb⟩ := (MessageBuffer.Stores.ofSize bytes.length).write bytes
    (Nat.le_of_eq (Nat.zero_add _))
  rw [List.nil_append] at hb
  refine ⟨b, hwrite, ?_⟩
  rw [onAccept, h]
  simp only [hwrite, Option.bind_eq_bind, Option.bind_some, hb.getActiveSize,
    judge_eq hb srv remote unset]

/-- The datagram of `Connect` is accepted. -/
theorem onAccept_connect (h : srv.getWaitingConnectSession remote = none) (unset : Unset) :
    srv.onAccept host remote unset acceptPackData = some (srv.insertSession remote unset) := by
  obtain ⟨b, -, e⟩ := onAccept_of_not_waiting host h unset acceptPackData
  rw [e, if_neg (Nat.lt_irrefl _), if_neg (not_not.mpr rfl), acceptPack_acceptPackData]
  rfl

end SocketServer

end PCGForUnity
