/-
PCGForUnity/Network/Handshake.lean

How a client learns its conversation: it connects, `OnAccept` makes a session, the
session answers with `S2C_ACCEPT_ACT`, and the client takes over the conversation in
that packet.

`KcpSession::fnWriteDgram` sets the conversation of the answer to 0, and a client
made for a server id has that id, with its sign, as the conversation of its KCP.  So the
two agree for the server id 0 only, and then unless the conversation given out is
itself 0 (`handshake_agrees_iff`).

Of KCP's sending side this has the conversation of a segment, which is that of KCP at
the time the segment is made and stays when it is sent again.  `ikcp_flush` is an
operation of its own, that may come at any time.
-/
import PCGForUnity.Network.ClientFraming
import PCGForUnity.Network.ConnectRetry

namespace PCGForUnity

/-! ### Segments -/

/-- `IKCP_CMD_PUSH` -/
def ikcpCmdPush : ℕ := 81

/-- The members of `IKCPSEG` that are sent. -/
structure Segment where
  conv : UInt32
  cmd : ℕ
  frg : ℕ
  wnd : ℕ
  ts : ℕ
  sn : ℕ
  una : ℕ
  data : List Byte

namespace Segment

/-- `ikcp_encode_seg`, and the data behind it. -/
def encode (seg : Segment) : List Byte :=
  encode32u seg.conv.toNat ++ [UInt8.ofNat seg.cmd, UInt8.ofNat seg.frg] ++ encode16u seg.wnd ++
    encode32u seg.ts ++ encode32u seg.sn ++ encode32u seg.una ++ encode32u seg.data.length ++
    seg.data

theorem length_encode (seg : Segment) : seg.encode.length = ikcpOverheadLen + seg.data.length := by
  rw [encode, List.length_append]
  rfl

theorem drop_encode (seg : Segment) : seg.encode.drop ikcpOverheadLen = seg.data := rfl

end Segment

/-! ### The answer of a session -/

namespace KcpSession

/-- `fnWriteDgram`: the datagram for `SocketServer::Send`.  `beyond` is what the buffer
of KCP has behind `buf`. -/
def fnWriteDgram (beyond buf : List Byte) : List Byte :=
  let cmd := decode32u ((buf ++ beyond).drop (ikcpOverheadLen + 4))
  -- the conversation is set to 0
  if cmd = s2cAcceptAct then encode32u 0 ++ buf.drop 4 else buf

/-- What `ikcp_flush` makes of the first message of a session. -/
def firstSegment (s : KcpSession) (wnd ts una : ℕ) : Segment :=
  { conv := s.members.kcp.conv
    cmd := ikcpCmdPush
    frg := 0
    wnd
    ts
    sn := 0
    una
    data := s.members.sent.headD [] }

theorem length_fnWriteDgram (beyond : List Byte) {buf : List Byte} (h : 4 ≤ buf.length) :
    (fnWriteDgram beyond buf).length = buf.length := by
  rw [fnWriteDgram]
  split
  · rw [List.length_append, List.length_drop]
    exact Nat.add_sub_of_le h
  · rfl

/-- The datagram with the first message of a session; for a KCP that has received
nothing it completes that message. -/
def firstDatagram (s : KcpSession) (wnd ts una : ℕ) (beyond : List Byte) : UdpDatagram where
  bytes := fnWriteDgram beyond (s.firstSegment wnd ts una).encode
  conv := UInt32.ofNat (decode32u (fnWriteDgram beyond (s.firstSegment wnd ts una).encode))
  completes := [(s.firstSegment wnd ts una).data]
  conv_eq := fun _ => rfl
  short := fun h => by
    have hlen := (s.firstSegment wnd ts una).length_encode
    rw [length_fnWriteDgram beyond (by rw [hlen]; exact Nat.le_add_right_of_le (by decide)),
      hlen] at h
    exact absurd h (Nat.not_lt.mpr (Nat.le_add_right _ _))

/-- The two checks of `OnReceive`. -/
def Passes (serverId : UInt16) (s : KcpSession) (conv : UInt32) : Prop :=
  conv &&& 0xffff = serverId.toUInt32 ∧ s.members.sessionId.conv = conv

theorem Passes.onReceive {serverId : UInt16} {s : KcpSession} {buff : KcpDatagram}
    (h : s.Passes serverId buff.conv) (dataHandler : Option DataHandler) :
    s.onReceive serverId dataHandler buff = (do
      let (s, got) ← s.receive buff
      if got then
        let s ← s.readHandler dataHandler
        some s.resetRead
      else some s) := by
  rw [KcpSession.onReceive, if_neg (not_not.mpr h.1), if_neg (not_not.mpr h.2)]

end KcpSession

/-- The session that `OnAccept` inserts, and what its `OnConnected` makes of it. -/
theorem SocketServer.inserted_of_accept {host : Host} {srv srv₁ : SocketServer} {remote : SockAddr}
    {unset : Unset} {bytes : List Byte} {ptr : ℕ}
    (h : srv.onAccept host remote unset bytes = some (srv₁, .accept ptr)) :
    ∃ p : SessionPtr, p.ptr = ptr ∧
      srv₁.sessions = StdMap.insert convLess p.conv p srv.sessions ∧
      p.session.onConnected = KcpSession.accepted (srv.clientConv + 1) srv.serverId remote
        unset.status unset.tick unset.needUpdateTime := by
  obtain ⟨waitingForConnections, ⟨hno, -⟩ | hinsert⟩ := onAccept_cases h
  · exact absurd rfl (hno ptr)
  · obtain ⟨rfl, hptr⟩ := Prod.mk.inj hinsert
    let s := KcpSession.create (newConv (srv.clientConv + 1) srv.serverId) remote unset.status
      unset.tick unset.needUpdateTime
    exact ⟨⟨srv.accepts.length, { s with members := { s.members with place := .sessions } }⟩,
      (Decision.accept.inj hptr).symm, rfl, rfl⟩

/-! ### The client and what it sends -/

namespace KcpClient

/-- `fnWriteDgram`, with the datagram for the socket if there is one. -/
def fnWriteDgram (m : ClientMembers) (buf : List Byte) : ClientMembers × Option (List Byte) :=
  let conv := decode32u buf
  if conv = 0 then (close m, none) else (m, some buf)

end KcpClient

/-- A client, the conversations of the segments in its `snd_buf`, and the datagrams of
KCP that it has given to the socket. -/
structure ClientLink where
  client : KcpClient
  sndBuf : List UInt32
  left : List (List Byte)

namespace ClientLink

/-- What happens at a client: its functions are called, `ikcp_flush` makes a segment
of what was sent, `ikcp_input` takes one out that arrived, and `ikcp_flush` puts out a
datagram, which begins with a segment. -/
inductive Op
  | send (buff : List Byte) (immediately : Bool)
  | update (reached : Bool) (diff : ℤ)
  | receive (buff : KcpDatagram)
  | segment
  | acknowledged (i : ℕ)
  | output (conv : UInt32) (rest : List Byte)

/-- A datagram comes. -/
def Op.IsReceive : Op → Prop
  | receive _ => True
  | _ => False

/-- The client with other members. -/
def withMembers (l : ClientLink) (members : ClientMembers) : ClientLink :=
  { l with client := { l.client with members } }

/-- An operation on the client, or a segment that KCP makes of what was sent. -/
def step (beyond : List (Dispatch Byte) → List Byte) (check : Ikcpcb → ℕ → ℕ) (l : ClientLink) :
    Op → Option ClientLink
  | .send buff immediately =>
      some (l.withMembers (KcpClient.send l.client.members buff immediately))
  | .update reached diff => some { l with client := l.client.update check reached diff }
  | .receive buff => (l.client.onReceive beyond buff).map fun client => { l with client }
  | .segment => some { l with sndBuf := l.sndBuf ++ [l.client.members.kcp.conv] }
  | .acknowledged i => some { l with sndBuf := l.sndBuf.eraseIdx i }
  | .output conv rest =>
      -- an acknowledgement, a probe or a segment
      if conv = l.client.members.kcp.conv ∨ conv ∈ l.sndBuf then
        let (members, out) :=
          KcpClient.fnWriteDgram l.client.members (encode32u conv.toNat ++ rest)
        some { l.withMembers members with left := l.left ++ out.toList }
      else none

/-- The client comes from `l₀` to `l` without receiving anything. -/
def Unanswered (beyond : List (Dispatch Byte) → List Byte) (check : Ikcpcb → ℕ → ℕ)
    (l₀ l : ClientLink) : Prop :=
  ∃ ops : List Op, (∀ op ∈ ops, ¬ op.IsReceive) ∧ ops.foldlM (step beyond check) l₀ = some l

/-- A client that has called `Connect`. -/
def start (reached : Bool) (c : KcpClient) : ClientLink :=
  { client := { c with members := KcpClient.connect reached c.members }
    sndBuf := []
    left := [] }

end ClientLink

/-! ### What the client's functions keep -/

namespace KcpClient

variable {m m' m'' : ClientMembers}

/-- No packet was handled, and a client that does not connect has not connected again. -/
structure Keeps (m m' : ClientMembers) : Prop where
  conv : m'.kcp.conv = m.kcp.conv
  rcvQueue : m'.kcp.rcvQueue = m.kcp.rcvQueue
  dispatched : m'.dispatched = m.dispatched
  requests : m.status ≠ .connecting → m'.status ≠ .connecting ∧ m'.requests = m.requests

theorem Keeps.refl (m : ClientMembers) : Keeps m m := ⟨rfl, rfl, rfl, fun h => ⟨h, rfl⟩⟩

theorem Keeps.trans (h : Keeps m m') (h' : Keeps m' m'') : Keeps m m'' where
  conv := h'.conv.trans h.conv
  rcvQueue := h'.rcvQueue.trans h.rcvQueue
  dispatched := h'.dispatched.trans h.dispatched
  requests := by
    intro hs
    obtain ⟨hs', hr⟩ := h.requests hs
    obtain ⟨hs'', hr'⟩ := h'.requests hs'
    exact ⟨hs'', hr'.trans hr⟩

theorem onResponse_eq (m : ClientMembers) (response : ClientResponse) :
    ∃ responses, onResponse m response = { m with responses } := by
  rw [onResponse]
  split
  · exact ⟨_, rfl⟩
  · exact ⟨_, rfl⟩

theorem keeps_onResponse (m : ClientMembers) (response : ClientResponse) :
    Keeps m (onResponse m response) := by
  obtain ⟨responses, e⟩ := onResponse_eq m response
  rw [e]
  exact ⟨rfl, rfl, rfl, fun h => ⟨h, rfl⟩⟩

theorem keeps_onConnectFailed (m : ClientMembers) : Keeps m (onConnectFailed m) := by
  rw [onConnectFailed]
  apply Keeps.trans _ (keeps_onResponse _ _)
  exact ⟨rfl, rfl, rfl, fun _ => ⟨SessionStatus.noConfusion, rfl⟩⟩

theorem keeps_close (m : ClientMembers) : Keeps m (close m) := ⟨rfl, rfl, rfl, fun h => ⟨h, rfl⟩⟩

theorem keeps_send (m : ClientMembers) (buff : List Byte) (immediately : Bool) :
    Keeps m (send m buff immediately) := by
  rw [send]
  split
  · exact .refl m
  · cases immediately <;> exact ⟨rfl, rfl, rfl, fun h => ⟨h, rfl⟩⟩

theorem keeps_heartBeat (m : ClientMembers) : Keeps m (heartBeat m) := by
  rw [heartBeat]
  split
  · apply Keeps.trans _ (keeps_send _ _ _)
    exact ⟨rfl, rfl, rfl, fun h => ⟨h, rfl⟩⟩
  · exact .refl m

/-- `Update` leaves the buffers as they are, or resets them. -/
theorem keeps_update (check : Ikcpcb → ℕ → ℕ) (reached : Bool) (c : KcpClient) (diff : ℤ) :
    Keeps c.members (c.update check reached diff).members ∧
      ((c.update check reached diff).buffers = c.buffers ∨
        (c.update check reached diff).buffers = c.buffers.reset) := by
  rw [update]
  simp only
  split
  · split
    · rename_i hconnecting
      have hno {m : ClientMembers} (hconv : m.kcp = c.members.kcp)
          (hd : m.dispatched = c.members.dispatched) : Keeps c.members m :=
        ⟨by rw [hconv], by rw [hconv], hd, fun h => absurd hconnecting h⟩
      split
      · split
        · refine ⟨?_, Or.inr rfl⟩
          apply Keeps.trans _ (keeps_onConnectFailed _)
          exact hno rfl rfl
        · exact ⟨hno rfl rfl, Or.inl rfl⟩
      · exact ⟨hno rfl rfl, Or.inl rfl⟩
    · exact ⟨.refl _, Or.inl rfl⟩
  · have hcount : Keeps c.members (countTime c.members diff) :=
      ⟨rfl, rfl, rfl, fun h => ⟨h, rfl⟩⟩
    split
    · exact ⟨hcount.trans (keeps_close _), Or.inl rfl⟩
    · refine ⟨(hcount.trans (keeps_heartBeat _)).trans ?_, Or.inl rfl⟩
      obtain ⟨hconv, hqueue⟩ := KcpClock.update_kcp check
        (heartBeat (countTime c.members diff)).toKcpClock diff
      exact ⟨hconv, hqueue, rfl, fun h => ⟨h, rfl⟩⟩

/-- A datagram is given to the socket unless its conversation is 0. -/
theorem fnWriteDgram_encode (m : ClientMembers) (conv : UInt32) (rest : List Byte) :
    fnWriteDgram m (encode32u conv.toNat ++ rest) =
      if conv = 0 then (close m, none) else (m, some (encode32u conv.toNat ++ rest)) := by
  have hzero : decode32u (encode32u conv.toNat ++ rest) = 0 ↔ conv = 0 := by
    rw [decode32u_encode32u conv.toNat_lt, ← UInt32.toNat_inj]
    rfl
  rw [fnWriteDgram]
  simp only [hzero]

/-! ### Handling packets -/

variable {beyond : List (Dispatch Byte) → List Byte} {conv : UInt32} {requests : List (List Byte)}

/-- A packet with the command `S2C_ACCEPT_ACT`. -/
def IsAccept (d : Dispatch Byte) : Prop := (PacketHeader.ofBytes d.hdr).command = s2cAcceptAct

instance (d : Dispatch Byte) : Decidable (IsAccept d) :=
  inferInstanceAs (Decidable (_ = _))

/-- What handling a packet keeps and does not lie in the queue of KCP, `OnReceive` keeps. -/
theorem onReceive_preserves {P : ClientMembers → Prop} (hact : ∀ m d, P m → P (act beyond m d).1)
    (hqueue : ∀ m queue, P m → P { m with kcp := { m.kcp with rcvQueue := queue } })
    {c c' : KcpClient} {buff : KcpDatagram} (h : P c.members)
    (e : c.onReceive beyond buff = some c') : P c'.members := by
  obtain ⟨queue, hkcp⟩ := Ikcpcb.recv_input_fst c.members.kcp buff
    c.buffers.readBuffer.getRemainingSpace
  have h₁ := hqueue c.members queue h
  rw [← hkcp] at h₁
  have hhandle (c : KcpClient) (d : Dispatch Byte) (hc : P c.members) :
      P (handle beyond c d).members := by
    rw [handlesBy]
    exact hact _ _ hc
  rw [onReceive] at e
  rcases hr : (c.members.kcp.input buff).recv c.buffers.readBuffer.getRemainingSpace with
    ⟨kcp, code | msg⟩
  · rw [hr] at e h₁
    cases e
    exact h₁
  · rw [hr] at e h₁
    simp only at e
    split at e
    · obtain ⟨rb, -, e⟩ := Option.bind_eq_some_iff.mp e
      exact Endpoint.readHandler_preserves hhandle h₁ e
    · cases e
      exact h₁

/-- The members of a client that took over a conversation after it sent `requests`. -/
structure Adopted (conv : UInt32) (requests : List (List Byte)) (m : ClientMembers) : Prop where
  conv : m.kcp.conv = conv
  status : m.status ≠ .connecting
  requests : m.requests = requests

theorem Adopted.keeps (h : Adopted conv requests m) (hk : Keeps m m') :
    Adopted conv requests m' := by
  obtain ⟨hs, hr⟩ := hk.requests h.status
  exact ⟨hk.conv.trans h.conv, hs, hr.trans h.requests⟩

/-- Only an `S2C_ACCEPT_ACT` gives the client another conversation. -/
theorem Adopted.act (h : Adopted conv requests m) {d : Dispatch Byte} (hd : ¬ IsAccept d) :
    Adopted conv requests (act beyond m d).1 := by
  have hsame (log : List (Dispatch Byte)) : Adopted conv requests { m with dispatched := log } :=
    ⟨h.conv, h.status, h.requests⟩
  rw [KcpClient.act, readDataHandler,
    if_neg (show ¬ (PacketHeader.ofBytes d.hdr).command = s2cAcceptAct from hd)]
  split
  · show Adopted conv requests (onDisconnected _)
    rw [onDisconnected]
    apply Adopted.keeps _ (keeps_onResponse _ _)
    exact ⟨h.conv, SessionStatus.noConfusion, h.requests⟩
  · split
    · exact ⟨h.conv, h.status, h.requests⟩
    · split
      · exact hsame _
      · exact hsame _

end KcpClient

namespace ClientLink

variable {beyond : List (Dispatch Byte) → List Byte} {check : Ikcpcb → ℕ → ℕ} {l l' : ClientLink}
  {op : Op} {conv : UInt32} {requests : List (List Byte)}

open KcpClient

/-! ### Before the answer -/

/-- A client that has received nothing yet. -/
structure Waiting (conv : UInt32) (l : ClientLink) : Prop where
  receiving : Receiving l.client 0
  kcpConv : l.client.members.kcp.conv = conv
  sndBuf : ∀ x ∈ l.sndBuf, x = conv
  dispatched : l.client.members.dispatched = []

theorem Waiting.keeps (h : Waiting conv l) {c : KcpClient} (hk : Keeps l.client.members c.members)
    (hb : c.buffers = l.client.buffers ∨ c.buffers = l.client.buffers.reset)
    (left : List (List Byte)) : Waiting conv { l with client := c, left } := by
  have hqueue : c.members.kcp.rcvQueue = [] := hk.rcvQueue.trans h.receiving.queue
  refine ⟨⟨?_, hqueue⟩, hk.conv.trans h.kcpConv, h.sndBuf, hk.dispatched.trans h.dispatched⟩
  obtain ⟨r, hholds, hhdr, hunread, hused⟩ := h.receiving.buffers
  show ∃ r, c.buffers.Holds r ∧ _
  rcases hb with e | e
  · rw [e]
    exact ⟨r, hholds, hhdr, hunread, hused⟩
  · rw [e]
    exact ⟨r.reset, hholds.reset, rfl, rfl, rfl⟩

theorem Waiting.withMembers (h : Waiting conv l) {m : ClientMembers}
    (hk : Keeps l.client.members m) (left : List (List Byte)) :
    Waiting conv { l.withMembers m with left } :=
  h.keeps (c := { l.client with members := m }) hk (Or.inl rfl) left

theorem Waiting.step (h : Waiting conv l) (hop : ¬ op.IsReceive)
    (e : l.step beyond check op = some l') : Waiting conv l' := by
  cases op with
  | send buff immediately =>
      cases e
      exact h.withMembers (keeps_send _ _ _) l.left
  | update reached diff =>
      cases e
      obtain ⟨hk, hb⟩ := keeps_update check reached l.client diff
      exact h.keeps hk hb l.left
  | receive buff => exact absurd trivial hop
  | segment =>
      cases e
      refine ⟨h.receiving, h.kcpConv, fun x hx => ?_, h.dispatched⟩
      rcases List.mem_append.mp hx with hx | hx
      · exact h.sndBuf x hx
      · exact (List.mem_singleton.mp hx).trans h.kcpConv
  | acknowledged i =>
      cases e
      exact ⟨h.receiving, h.kcpConv, fun x hx => h.sndBuf x (List.mem_of_mem_eraseIdx hx),
        h.dispatched⟩
  | output x rest =>
      -- a datagram with the conversation 0 does not leave: the client closes itself
      rw [ClientLink.step, fnWriteDgram_encode] at e
      split at e
      · by_cases hx : x = 0
        · rw [if_pos hx] at e
          cases e
          exact h.withMembers (keeps_close _) _
        · rw [if_neg hx] at e
          cases e
          exact h.withMembers (.refl _) _
      · cases e

theorem Waiting.of_unanswered (h : Waiting conv l) (e : Unanswered beyond check l l') :
    Waiting conv l' := by
  obtain ⟨ops, hops, e⟩ := e
  exact Run.foldlM_invariant (ClientLink.step beyond check) (Waiting conv)
    (fun _ op _ hop h e => h.step (hops op hop) e) h e

/-! ### After the answer -/

/-- The client has handled no second `S2C_ACCEPT_ACT`. -/
def Once (l : ClientLink) : Prop := l.client.members.dispatched.countP IsAccept ≤ 1

/-- A client after an `S2C_ACCEPT_ACT`: if there was no second one it still has the
conversation of the first, and sends under it or under 0. -/
structure Answered (conv : UInt32) (requests : List (List Byte)) (l : ClientLink) : Prop where
  accepted : 1 ≤ l.client.members.dispatched.countP IsAccept
  adopted : l.Once → Adopted conv requests l.client.members
  sndBuf : l.Once → ∀ x ∈ l.sndBuf, x = 0 ∨ x = conv
  left : l.Once → ∀ buf ∈ l.left, UInt32.ofNat (decode32u buf) = conv

theorem Answered.keeps (h : Answered conv requests l) {c : KcpClient}
    (hk : Keeps l.client.members c.members) : Answered conv requests { l with client := c } := by
  have honce : Once { l with client := c } → l.Once := by
    intro ho
    rw [Once, ← hk.dispatched]
    exact ho
  refine ⟨?_, fun ho => (h.adopted (honce ho)).keeps hk, fun ho => h.sndBuf (honce ho),
    fun ho => h.left (honce ho)⟩
  show 1 ≤ c.members.dispatched.countP _
  rw [hk.dispatched]
  exact h.accepted

theorem Answered.receive (h : Answered conv requests l) {c : KcpClient} {buff : KcpDatagram}
    (e : l.client.onReceive beyond buff = some c) : Answered conv requests { l with client := c } := by
  have hcount (m : ClientMembers) (d : Dispatch Byte) :
      (act beyond m d).1.dispatched.countP IsAccept
        = m.dispatched.countP IsAccept + if IsAccept d then 1 else 0 := by
    rw [act_dispatched, List.countP_append, List.countP_singleton]
    simp only [decide_eq_true_eq]
  -- while one datagram is read the count of `S2C_ACCEPT_ACT`s only grows
  let P (m : ClientMembers) : Prop :=
    l.client.members.dispatched.countP IsAccept ≤ m.dispatched.countP IsAccept ∧
      (m.dispatched.countP IsAccept ≤ 1 → Adopted conv requests m)
  have hact (m : ClientMembers) (d : Dispatch Byte) (hm : P m) : P (act beyond m d).1 := by
    obtain ⟨hle, hadopted⟩ := hm
    have hpos : 1 ≤ m.dispatched.countP IsAccept := Nat.le_trans h.accepted hle
    refine ⟨?_, fun ho => ?_⟩
    · rw [hcount]
      exact Nat.le_add_right_of_le hle
    · -- a second `S2C_ACCEPT_ACT` would be one too many
      rw [hcount] at ho
      split at ho
      · omega
      · exact (hadopted ho).act ‹_›
  have hqueue (m : ClientMembers) (queue : List (List Byte)) (hm : P m) :
      P { m with kcp := { m.kcp with rcvQueue := queue } } := by
    refine ⟨hm.1, fun ho => ?_⟩
    obtain ⟨hconv, hstatus, hrequests⟩ := hm.2 ho
    exact ⟨hconv, hstatus, hrequests⟩
  obtain ⟨hle, hadopted⟩ := onReceive_preserves hact hqueue ⟨Nat.le_refl _, h.adopted⟩ e
  have honce : Once { l with client := c } → l.Once := fun ho => Nat.le_trans hle ho
  exact ⟨Nat.le_trans h.accepted hle, hadopted, fun ho => h.sndBuf (honce ho),
    fun ho => h.left (honce ho)⟩

theorem Answered.step (h : Answered conv requests l) (e : l.step beyond check op = some l') :
    Answered conv requests l' := by
  cases op with
  | send buff immediately =>
      cases e
      exact h.keeps (c := { l.client with members := _ }) (keeps_send _ _ _)
  | update reached diff =>
      cases e
      exact h.keeps (keeps_update check reached l.client diff).1
  | receive buff =>
      obtain ⟨c, hreceive, rfl⟩ := Option.map_eq_some_iff.mp e
      exact h.receive hreceive
  | segment =>
      cases e
      refine ⟨h.accepted, h.adopted, fun ho x hx => ?_, h.left⟩
      rcases List.mem_append.mp hx with hx | hx
      · exact h.sndBuf ho x hx
      · exact Or.inr ((List.mem_singleton.mp hx).trans (h.adopted ho).conv)
  | acknowledged i =>
      cases e
      exact ⟨h.accepted, h.adopted, fun ho x hx => h.sndBuf ho x (List.mem_of_mem_eraseIdx hx),
        h.left⟩
  | output x rest =>
      rw [ClientLink.step, fnWriteDgram_encode] at e
      split at e
      · rename_i hx
        by_cases hzero : x = 0
        · rw [if_pos hzero] at e
          cases e
          -- nothing leaves: the client closes itself
          show Answered conv requests
            { l.withMembers (close l.client.members) with left := l.left ++ [] }
          rw [List.append_nil]
          exact h.keeps (c := { l.client with members := _ }) (keeps_close _)
        · rw [if_neg hzero] at e
          cases e
          refine ⟨h.accepted, h.adopted, h.sndBuf, fun ho buf hbuf => ?_⟩
          rcases List.mem_append.mp hbuf with hbuf | hbuf
          · exact h.left ho buf hbuf
          · obtain rfl := List.mem_singleton.mp hbuf
            rw [decode32u_encode32u x.toNat_lt, UInt32.ofNat_toNat]
            -- the conversation of KCP, or of a segment from before the answer
            rcases hx with hx | hx
            · exact hx.trans (h.adopted ho).conv
            · exact (h.sndBuf ho x hx).resolve_left hzero
      · cases e

theorem Answered.run {ops : List Op} (h : Answered conv requests l)
    (e : ops.foldlM (ClientLink.step beyond check) l = some l') : Answered conv requests l' :=
  Run.foldlM_invariant (ClientLink.step beyond check) (Answered conv requests)
    (fun _ _ _ _ h e => h.step e) h e

/-! ### The answer -/

/-- The packet that `OnConnected` of a session sends. -/
def answer (conv : UInt32) : Packet :=
  Packet.ofHeader { size := 4, command := s2cAcceptAct } (encode32u conv.toNat) (by decide)
    (by decide) rfl

theorem ofBytes_hdr_answer (conv : UInt32) : PacketHeader.ofBytes (answer conv).hdr = ⟨4, s2cAcceptAct⟩ :=
  Packet.ofBytes_hdr_ofHeader _ _ _ _

theorem isAccept_answer (conv : UInt32) : IsAccept (answer conv).toDispatch :=
  congrArg PacketHeader.command (ofBytes_hdr_answer conv)

theorem length_answer (conv : UInt32) : (answer conv).elems.length = 12 := rfl

/-- Behind the size the packet has four bytes that are 0. -/
theorem drop_answer (conv : UInt32) :
    (answer conv).elems.drop 4 = encode32u 0 ++ encode32u conv.toNat := rfl

/-- The answer leaves the server with the conversation 0. -/
theorem firstDatagram_accepted (clientConv serverId : UInt16) (addr : SockAddr)
    (status : SessionStatus) (tick needUpdateTime wnd ts una : ℕ) (stale : List Byte) :
    ((KcpSession.accepted clientConv serverId addr status tick needUpdateTime).firstDatagram wnd ts
      una stale).toKcp = ⟨0, [(answer (SocketServer.newConv clientConv serverId)).elems]⟩ := by
  set seg := (KcpSession.accepted clientConv serverId addr status tick
    needUpdateTime).firstSegment wnd ts una with hseg
  have hdata : seg.data = (answer (SocketServer.newConv clientConv serverId)).elems := rfl
  have hcmd : decode32u ((seg.encode ++ stale).drop (ikcpOverheadLen + 4)) = s2cAcceptAct := by
    rw [List.drop_append_of_le_length, ← List.drop_drop, Segment.drop_encode, hdata, drop_answer,
      List.append_assoc]
    · exact decode32u_encode32u (by decide) _
    · rw [Segment.length_encode, hdata, length_answer]
      decide
  show KcpDatagram.mk (UInt32.ofNat (decode32u (KcpSession.fnWriteDgram stale seg.encode)))
    [seg.data] = _
  rw [hdata, KcpSession.fnWriteDgram, if_pos hcmd, decode32u_encode32u (by decide)]
  rfl

theorem conv_toKcp {d : UdpDatagram} {conv : UInt32} {completes : List (List Byte)}
    (h : d.toKcp = ⟨conv, completes⟩) : d.conv = conv :=
  congrArg KcpDatagram.conv h

/-- A client whose KCP has the conversation 0 handles the answer. -/
theorem Waiting.onReceive_answer (h : Waiting 0 l) (beyond : List (Dispatch Byte) → List Byte)
    (conv : UInt32) :
    ∃ c, l.client.onReceive beyond ⟨0, [(answer conv).elems]⟩ = some c ∧
      c.members = onAccept { l.client.members with dispatched := [(answer conv).toDispatch] }
        conv := by
  obtain ⟨r, hholds, hhdr, hunread, hused⟩ := h.receiving.buffers
  have hne : (answer conv).elems ≠ [] := by
    intro hnil
    have hlen := length_answer conv
    rw [hnil] at hlen
    cases hlen
  obtain ⟨c, t, hrun, hrecv, -, hm⟩ := onReceive_refines beyond hholds h.receiving.queue hunread hne
    (by rw [hused, length_answer]; decide)
  rw [h.kcpConv] at hrecv
  refine ⟨c, hrecv, ?_⟩
  have hact : act beyond l.client.members (answer conv).toDispatch =
      (onAccept { l.client.members with dispatched := [(answer conv).toDispatch] } conv, false) := by
    have hconv : UInt32.ofNat (decode32u ((answer conv).payload ++ beyond [])) = conv := by
      show UInt32.ofNat (decode32u (encode32u conv.toNat ++ _)) = conv
      rw [decode32u_encode32u conv.toNat_lt, UInt32.ofNat_toNat]
    have hno : ¬ IsDisconnect (answer conv).toDispatch := by
      rw [IsDisconnect, ofBytes_hdr_answer]
      decide
    rw [act, readDataHandler, if_pos (show (PacketHeader.ofBytes (answer conv).hdr).command = _ from
      isAccept_answer conv), decide_eq_false hno]
    simp only [h.dispatched, List.nil_append, hconv]
  -- the read buffers were empty, so the answer is the one packet that is served
  have hl : [] ++ (answer conv).elems = Frame.concat [answer conv] ++ [] := by
    rw [Frame.concat_cons, Frame.concat_nil, List.append_nil, List.append_nil, List.nil_append]
  have hkeeps : Receiver.Keeps (act beyond) l.client.members [answer conv] :=
    ⟨congrArg Prod.snd hact, trivial⟩
  obtain ⟨r', hserves, -⟩ := Receiver.run_serves
    (r := { r with unread := (answer conv).elems, used := r.used + (answer conv).elems.length })
    (Receiver.pending_nil hhdr) hl FrameFormat.incomplete_nil hkeeps (Nat.le_refl _)
  obtain rfl := Option.some.inj (hserves.symm.trans hrun)
  rw [hm, List.foldl_cons, List.foldl_nil, Receiver.serve, hact]

/-! ### Agreement -/

/-- Whatever the client does from now on, while it handles no other `S2C_ACCEPT_ACT`, it
does not connect again, and its datagrams pass both checks of the session `s`. -/
def SendsTo (beyond : List (Dispatch Byte) → List Byte) (check : Ikcpcb → ℕ → ℕ)
    (serverId : UInt16) (s : KcpSession) (l : ClientLink) : Prop :=
  ∀ (ops : List Op) (l' : ClientLink), ops.foldlM (step beyond check) l = some l' → l'.Once →
    l'.client.members.requests = l.client.members.requests ∧
      ∀ buf ∈ l'.left, s.Passes serverId (UInt32.ofNat (decode32u buf))

/-- The datagram `d` makes the client agree with the session `s`: KCP takes it in, and
the client takes over the conversation of the session and sends to that session. -/
structure Agrees (beyond : List (Dispatch Byte) → List Byte) (check : Ikcpcb → ℕ → ℕ)
    (serverId : UInt16) (s : KcpSession) (d : UdpDatagram) (l : ClientLink) : Prop where
  conv : d.conv = l.client.members.kcp.conv
  adopts : ∃ c, l.client.onReceive beyond d.toKcp = some c ∧ c.members.status = .connected ∧
    c.members.sessionId.conv = s.members.sessionId.conv ∧
    c.members.kcp.conv = s.members.sessionId.conv ∧
    SendsTo beyond check serverId s { l with client := c, left := [] }

theorem onAccept_members (m : ClientMembers) {conv : UInt32} (h : conv ≠ 0) :
    let m' := onAccept m conv
    m'.status = .connected ∧ m'.sessionId.conv = conv ∧ m'.kcp.conv = conv ∧
      m'.dispatched = m.dispatched := by
  have hpos : conv > 0 := UInt32.pos_iff_ne_zero.mpr h
  rw [onAccept, if_pos hpos, decide_eq_true hpos, onConnected]
  obtain ⟨responses, e⟩ := onResponse_eq
    { m with
      sessionId := { conv, addr := m.remote }
      kcp := { m.kcp with conv }
      status := .connected
      alive := true } .connectSuccess
  exact e ▸ ⟨rfl, rfl, rfl, rfl⟩

/-- The conversation 0 does not connect. -/
theorem status_onAccept_zero (m : ClientMembers) : (onAccept m 0).status = .disconnected := by
  rw [onAccept, if_neg (by decide), decide_eq_false (by decide), onConnected]
  obtain ⟨responses, e⟩ := onResponse_eq { m with status := .disconnected, alive := false }
    .connectFail
  exact e ▸ rfl

/-- The client's server id is the conversation 0 of its KCP only if it is 0. -/
theorem toUInt32_toInt16_eq_zero_iff {serverId : UInt16} :
    serverId.toInt16.toInt32.toUInt32 = 0 ↔ serverId = 0 := by
  constructor
  · intro h
    have h₁ : serverId.toInt16 = 0 := by
      rw [← Int16.toInt16_toInt32 serverId.toInt16, ← Int32.toInt32_toUInt32 serverId.toInt16.toInt32,
        h]
      rfl
    rw [← UInt16.toUInt16_toInt16 serverId, h₁]
    rfl
  · rintro rfl
    rfl

theorem newConv_zero_eq_zero_iff {clientConv : UInt16} :
    SocketServer.newConv clientConv 0 = 0 ↔ clientConv = 0 := by
  rw [← UInt32.toNat_inj, SocketServer.toNat_newConv, ← UInt16.toNat_inj]
  show clientConv.toNat * 2 ^ 16 + 0 = 0 ↔ clientConv.toNat = 0
  omega

/-- A client with the server id 0 agrees with a session whose conversation is not 0. -/
theorem Waiting.agrees (h : Waiting 0 l) {serverId : UInt16} {s : KcpSession} {d : UdpDatagram}
    {conv : UInt32} (hd : d.toKcp = ⟨0, [(answer conv).elems]⟩) (hs : s.members.sessionId.conv = conv)
    (hserver : conv &&& 0xffff = serverId.toUInt32) (hne : conv ≠ 0)
    (beyond : List (Dispatch Byte) → List Byte) (check : Ikcpcb → ℕ → ℕ) :
    Agrees beyond check serverId s d l := by
  obtain ⟨c, hrecv, hc⟩ := h.onReceive_answer beyond conv
  obtain ⟨hstatus, hid, hkcp, hlog⟩ := onAccept_members
    { l.client.members with dispatched := [(answer conv).toDispatch] } hne
  rw [← hc] at hstatus hid hkcp hlog
  have hcount : c.members.dispatched.countP IsAccept = 1 := by
    rw [hlog, List.countP_singleton, if_pos (decide_eq_true (isAccept_answer conv))]
  have hanswered : Answered conv c.members.requests { l with client := c, left := [] } := by
    refine ⟨hcount.ge, fun _ => ⟨hkcp, ?_, rfl⟩, fun _ x hx => Or.inl (h.sndBuf x hx), ?_⟩
    · show c.members.status ≠ _
      rw [hstatus]
      exact SessionStatus.noConfusion
    · intro _ buf hbuf
      cases hbuf
  refine ⟨(conv_toKcp hd).trans h.kcpConv.symm, c, by rw [hd, hrecv], hstatus,
    hid.trans hs.symm, hkcp.trans hs.symm, fun ops l' hrun honce => ?_⟩
  have hl' := hanswered.run hrun
  refine ⟨(hl'.adopted honce).requests, fun buf hbuf => ?_⟩
  rw [hl'.left honce buf hbuf]
  exact ⟨hserver, hs⟩

/-- A client agrees with a session if its KCP has the conversation 0 and the session has not. -/
theorem Waiting.agrees_iff {conv₀ : UInt32} (h : Waiting conv₀ l) {serverId : UInt16}
    {s : KcpSession} {d : UdpDatagram} (hd : d.toKcp = ⟨0, [(answer conv).elems]⟩)
    (hs : s.members.sessionId.conv = conv) (hserver : conv &&& 0xffff = serverId.toUInt32)
    (beyond : List (Dispatch Byte) → List Byte) (check : Ikcpcb → ℕ → ℕ) :
    (∀ l', Unanswered beyond check l l' → Agrees beyond check serverId s d l') ↔
      conv₀ = 0 ∧ conv ≠ 0 := by
  constructor
  · intro hagree
    -- the client that does nothing before the answer comes
    obtain ⟨hconv, c, hrecv, hconnected, -⟩ :=
      hagree l ⟨[], fun op hop => absurd hop List.not_mem_nil, rfl⟩
    have hzero : conv₀ = 0 := by
      rw [← h.kcpConv, ← hconv]
      exact conv_toKcp hd
    refine ⟨hzero, ?_⟩
    -- the client takes the conversation 0 for a refusal
    rintro rfl
    rw [hzero] at h
    obtain ⟨c', hrecv', hc'⟩ := h.onReceive_answer beyond 0
    rw [hd, hrecv'] at hrecv
    obtain rfl := Option.some.inj hrecv
    rw [hc', status_onAccept_zero] at hconnected
    cases hconnected
  · rintro ⟨rfl, hne⟩ l' hl'
    exact (h.of_unanswered hl').agrees hd hs hserver hne beyond check

theorem waiting_start (reached : Bool) (serverId : Int16) (server : SockAddr)
    (dataHandler : Option DataHandler) (responce : Bool) (sessionId : SocketSessionId)
    (status : SessionStatus) (tick : ℤ) (timeOutTick needUpdateTime : ℕ) (needUpdate alive : Bool) :
    Waiting serverId.toInt32.toUInt32 (start reached (KcpClient.create serverId server dataHandler
      responce sessionId status tick timeOutTick needUpdateTime needUpdate alive)) :=
  ⟨⟨⟨_, ReadBuffers.holds_init, rfl, rfl, rfl⟩, rfl⟩, rfl,
    fun _ hx => absurd hx List.not_mem_nil, rfl⟩

/-- **When the handshake reaches agreement.**  A server accepts the datagram of
`Connect` and makes the session `p`, whose answer reaches the client, which was made for
the server id of the server.  Whatever the client did before, they agree if and only if
the server id is 0 and the conversation counter does not become 0. -/
theorem handshake_agrees_iff {host : Host} {srv srv₁ : SocketServer} {remote : SockAddr}
    {unset : Unset} {ptr : ℕ}
    (haccept : srv.onAccept host remote unset UdpDatagram.connect.bytes = some (srv₁, .accept ptr))
    (beyond : List (Dispatch Byte) → List Byte) (check : Ikcpcb → ℕ → ℕ) (wnd ts una : ℕ)
    (stale : List Byte) (reached : Bool) (server : SockAddr) (dataHandler : Option DataHandler)
    (responce : Bool) (sessionId : SocketSessionId) (status : SessionStatus) (tick : ℤ)
    (timeOutTick needUpdateTime : ℕ) (needUpdate alive : Bool) :
    ∃ p : SessionPtr, p.ptr = ptr ∧
      srv₁.sessions = StdMap.insert SocketServer.convLess p.conv p srv.sessions ∧
      ((∀ l, Unanswered beyond check (start reached (KcpClient.create srv.serverId.toInt16 server
          dataHandler responce sessionId status tick timeOutTick needUpdateTime needUpdate alive)) l →
          Agrees beyond check srv.serverId p.session.onConnected
            (p.session.onConnected.firstDatagram wnd ts una stale) l) ↔
        srv.serverId = 0 ∧ srv.clientConv + 1 ≠ 0) := by
  obtain ⟨p, hptr, hsessions, hsession⟩ := SocketServer.inserted_of_accept haccept
  refine ⟨p, hptr, hsessions, ?_⟩
  rw [hsession, (waiting_start reached srv.serverId.toInt16 server dataHandler responce sessionId
    status tick timeOutTick needUpdateTime needUpdate alive).agrees_iff
    (firstDatagram_accepted (srv.clientConv + 1) srv.serverId remote unset.status unset.tick
      unset.needUpdateTime wnd ts una stale) rfl (KcpSession.newConv_and _ _) beyond check,
    toUInt32_toInt16_eq_zero_iff]
  refine and_congr_right fun hid => not_congr ?_
  rw [hid]
  exact newConv_zero_eq_zero_iff

/-- Server id 0, the first session. -/
theorem handshake_agrees_iff_of_zero :
    let host : Host := { check := fun _ current => current, dataHandler := none, erased := some }
    ∃ p : SessionPtr, p.ptr = 0 ∧
      (((SocketServer.create 0).insertSession ⟨2, 4000, 7⟩ ⟨.connecting, 0, 0⟩).1).sessions
        = StdMap.insert SocketServer.convLess p.conv p [] ∧
      ((∀ l, Unanswered (fun _ => []) host.check (start true (KcpClient.create 0 ⟨2, 7000, 1⟩ none
          false ⟨0, ⟨2, 7000, 1⟩⟩ .disconnected 0 0 0 false false)) l →
          Agrees (fun _ => []) host.check 0 p.session.onConnected
            (p.session.onConnected.firstDatagram 128 10 0 []) l) ↔
        (0 : UInt16) = 0 ∧ (0 : UInt16) + 1 ≠ 0) := by
  intro host
  have haccept : (SocketServer.create 0).onAccept host ⟨2, 4000, 7⟩ ⟨.connecting, 0, 0⟩
      acceptPackData
        = some ((SocketServer.create 0).insertSession ⟨2, 4000, 7⟩ ⟨.connecting, 0, 0⟩) :=
    SocketServer.onAccept_connect rfl _
  exact handshake_agrees_iff haccept (fun _ => []) host.check 128 10 0 [] true ⟨2, 7000, 1⟩ none
    false ⟨0, ⟨2, 7000, 1⟩⟩ .disconnected 0 0 0 false false

/-- Server id 2: KCP has the conversation 2, and the answer comes with 0. -/
theorem answer_not_taken :
    let host : Host := { check := fun _ current => current, dataHandler := none, erased := some }
    let srv := SocketServer.create 2
    let l := start true (KcpClient.create 2 ⟨2, 7000, 1⟩ none false ⟨0, ⟨2, 7000, 1⟩⟩ .disconnected
      0 0 0 false false)
    ∃ srv₁ p,
      srv.onAccept host ⟨2, 4000, 7⟩ ⟨.connecting, 0, 0⟩ UdpDatagram.connect.bytes
        = some (srv₁, .accept 0) ∧
      srv₁.sessions = [(p.conv, p)] ∧
      (p.session.onConnected.firstDatagram 128 10 0 []).conv = 0 ∧
      l.client.members.kcp.conv = 2 ∧
      ¬ Agrees (fun _ => []) host.check 2 p.session.onConnected
        (p.session.onConnected.firstDatagram 128 10 0 []) l := by
  intro host srv l
  have haccept : srv.onAccept host ⟨2, 4000, 7⟩ ⟨.connecting, 0, 0⟩ acceptPackData
      = some (srv.insertSession ⟨2, 4000, 7⟩ ⟨.connecting, 0, 0⟩) :=
    SocketServer.onAccept_connect rfl _
  obtain ⟨p, -, hsessions, hsession⟩ := SocketServer.inserted_of_accept haccept
  have hwire : (p.session.onConnected.firstDatagram 128 10 0 []).conv = 0 := by
    rw [hsession]
    exact conv_toKcp (firstDatagram_accepted _ _ _ _ _ _ _ _ _ _)
  refine ⟨_, p, haccept, hsessions, hwire, rfl, fun h => ?_⟩
  have hconv : (0 : UInt32) = 2 := hwire.symm.trans h.conv
  cases hconv

end ClientLink

end PCGForUnity
