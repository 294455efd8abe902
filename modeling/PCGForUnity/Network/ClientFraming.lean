/-
PCGForUnity/Network/ClientFraming.lean

What a client makes of the messages it receives, next to what a session of the server makes of
them.  If both receive the same messages, made of packets, one a datagram,

    ReadDataHandler runs on the same commands and payloads at both ends
      ↔  each message fits the rest of the client's read buffer, and nothing in it follows
         an S2C_DISCONNECT

(`handle_the_same_iff`).

The server serves every packet of every message.  The client differs in two ways.  It drops
what follows an `S2C_DISCONNECT` in the same message, and since its read buffer is reset by
such a packet only, a message that does not fit behind the ones received since then is
refused, and with it all that come later.

Design.  The read buffer of the client is told by how much is written in it (`written`), so the
condition is one about lengths and commands, evaluated message by message.
-/
import PCGForUnity.Network.KcpClient
import PCGForUnity.Network.ServerFraming

namespace PCGForUnity

/-- A message made of whole packets that fits into a read buffer. -/
structure PacketMessage where
  packets : List Packet
  packets_ne_nil : packets ≠ []
  length_le : (Frame.concat packets).length ≤ recvBufferSize

namespace PacketMessage

/-- The bytes of the packets, one behind the other. -/
def bytes (m : PacketMessage) : List Byte := Frame.concat m.packets

theorem bytes_ne_nil (m : PacketMessage) : m.bytes ≠ [] := by
  obtain ⟨p, ps, hps⟩ := List.exists_cons_of_ne_nil m.packets_ne_nil
  intro hnil
  have hlen := congrArg List.length hnil
  have hpos := packetFormat.headerLen_pos
  rw [bytes, hps, Frame.concat_cons, List.length_append, p.length_elems, List.length_nil] at hlen
  omega

end PacketMessage

namespace KcpClient

variable (beyond : List (Dispatch Byte) → List Byte) {c : KcpClient} {used : Nat}
  {msg : List Byte} {m : PacketMessage}

/-! ### Receiving one message -/

/-- A client at rest between messages, `used` bytes of its read buffer written. -/
structure Receiving (c : KcpClient) (used : Nat) : Prop where
  buffers : ∃ r, c.buffers.Holds r ∧ r.hdr = [] ∧ r.unread = [] ∧ r.used = used
  queue : c.members.kcp.rcvQueue = []

/-- A client with a message in front that does not fit into its read buffer. -/
structure Refusing (c : KcpClient) : Prop where
  buffers : ∃ r msg rest, c.buffers.Holds r ∧ c.members.kcp.rcvQueue = msg :: rest ∧
    recvBufferSize < r.used + msg.length

/-- Receiving a message that fits is a run of the reading side over its bytes. -/
theorem onReceive_refines {r : Receiver Byte} (h : c.buffers.Holds r)
    (hq : c.members.kcp.rcvQueue = []) (hunread : r.unread = []) (hne : msg ≠ [])
    (hfit : r.used + msg.length ≤ recvBufferSize) :
    ∃ c' t, Receiver.run packetFormat (act beyond) (2 * msg.length + 2)
        { r with unread := msg, used := r.used + msg.length } c.members = some t ∧
      c.onReceive beyond ⟨c.members.kcp.conv, [msg]⟩ = some c' ∧
      c'.buffers.Holds t.1 ∧ c'.members = t.2 := by
  obtain ⟨rb, hcopy, hholds⟩ := h.fill hfit
  rw [hunread, List.nil_append] at hholds
  have hpos : msg.length > 0 := List.length_pos_iff.mpr hne
  have hsmall : ¬ msg.length > c.buffers.readBuffer.getRemainingSpace := by
    rw [h.getRemainingSpace]
    omega
  have hkcp : { c.members.kcp with rcvQueue := [] } = c.members.kcp := by
    rw [← hq]
  obtain ⟨c', t, hrun, hread, hb, hm⟩ := Endpoint.readHandler_refines
    (e := { buffers := _, members := c.members }) (handlesBy beyond) hholds
  refine ⟨c', t, hrun, ?_, hb, hm⟩
  simp only [onReceive, Ikcpcb.input_of_conv, Ikcpcb.recv, hq, List.nil_append, if_neg hsmall,
    if_pos hpos, hcopy, hkcp, checkCrc, Option.bind_eq_bind, Option.bind_some]
  exact hread

/-- `ikcp_recv` leaves a message in the queue that does not fit. -/
theorem onReceive_of_long {r : Receiver Byte} (h : c.buffers.Holds r) {first : List Byte}
    {rest : List (List Byte)} (hq : c.members.kcp.rcvQueue ++ [msg] = first :: rest)
    (hlong : recvBufferSize < r.used + first.length) :
    ∃ c', c.onReceive beyond ⟨c.members.kcp.conv, [msg]⟩ = some c' ∧ Refusing c' ∧
      c'.members.dispatched = c.members.dispatched := by
  have hbig : first.length > c.buffers.readBuffer.getRemainingSpace := by
    have hused := h.used_le
    rw [h.getRemainingSpace]
    omega
  refine ⟨{ c with members := { c.members with
    kcp := { c.members.kcp with rcvQueue := first :: rest } } }, ?_,
    ⟨r, first, rest, h, rfl, hlong⟩, rfl⟩
  simp only [onReceive, Ikcpcb.input_of_conv, Ikcpcb.recv, hq, if_pos hbig]

/-- Packets that are served are logged. -/
theorem foldl_serve_dispatched (m : ClientMembers) (ps : List Packet) :
    (ps.foldl (Receiver.serve (act beyond)) m).dispatched
      = m.dispatched ++ ps.map Frame.toDispatch :=
  Receiver.log_foldl_serve (fun m : ClientMembers => m.dispatched) act_dispatched m ps

/-- The bytes of the read buffer written after another message. -/
def written (used : Nat) (m : PacketMessage) : Nat :=
  if ∃ p ∈ m.packets, IsDisconnect p.toDispatch then 0 else used + m.bytes.length

/-- The message fits into the rest of the read buffer, and nothing in it follows
an `S2C_DISCONNECT`. -/
def Fits (used : Nat) (m : PacketMessage) : Prop :=
  used + m.bytes.length ≤ recvBufferSize ∧
    ∀ p ∈ m.packets.dropLast, ¬ IsDisconnect p.toDispatch

/-- The packets up to the first `S2C_DISCONNECT` are served. -/
theorem Receiving.onReceive (h : Receiving c used)
    (hfit : used + m.bytes.length ≤ recvBufferSize) :
    ∃ c' served lost, c.onReceive beyond ⟨c.members.kcp.conv, [m.bytes]⟩ = some c' ∧
      Receiving c' (written used m) ∧ m.packets = served ++ lost ∧
      (lost = [] ↔ ∀ p ∈ m.packets.dropLast, ¬ IsDisconnect p.toDispatch) ∧
      c'.members.dispatched = c.members.dispatched ++ served.map Frame.toDispatch := by
  obtain ⟨r, hholds, hhdr, hunread, rfl⟩ := h.buffers
  obtain ⟨c', t, hrun, hrecv, hb, hm⟩ := onReceive_refines beyond hholds h.queue
    hunread m.bytes_ne_nil hfit
  have hqueue : c'.members.kcp.rcvQueue = [] := by
    rw [hm]
    exact Receiver.run_preserves (P := fun m : ClientMembers => m.kcp.rcvQueue = [])
      (fun m d hq => (act_rcvQueue m d).trans hq) hrun h.queue
  have hpend : Receiver.Pending packetFormat
      { r with unread := m.bytes, used := r.used + m.bytes.length } [] :=
    Receiver.pending_nil hhdr
  rcases Run.eachStep_or_exists_first (Receiver.serve (act beyond))
    (fun _ p => ¬ IsDisconnect p.toDispatch) c.members m.packets with
    hnone | ⟨qs, p, more, hpackets, hnone, hp⟩
  · -- no packet resets the buffers, so all are served
    have hkeep : Receiver.Keeps (act beyond) c.members m.packets :=
      hnone.mono fun m p hp => decide_eq_false hp
    have hall := Run.eachStep_iff_forall_mem.mp hnone
    have hl : [] ++ m.bytes = Frame.concat m.packets ++ [] := by
      rw [List.nil_append, List.append_nil, PacketMessage.bytes]
    obtain ⟨r', hserves, hpend', hunread', hused', -⟩ := Receiver.run_serves hpend hl
      FrameFormat.incomplete_nil hkeep (Nat.le_refl _)
    obtain rfl := Option.some.inj (hserves.symm.trans hrun)
    refine ⟨c', m.packets, [], hrecv, ⟨⟨r', hb, hpend'.hdr_eq_nil, hunread', ?_⟩, hqueue⟩,
      (List.append_nil _).symm, iff_of_true rfl fun p hp => hall p (List.mem_of_mem_dropLast hp), ?_⟩
    · rw [hused', written, if_neg]
      rintro ⟨p, hmem, hp⟩
      exact hall p hmem hp
    · rw [hm]
      exact foldl_serve_dispatched beyond _ _
  · -- the first `S2C_DISCONNECT` is served, and what is behind it thrown away
    have hkeep : Receiver.Keeps (act beyond) c.members qs :=
      hnone.mono fun m p hp => decide_eq_false hp
    have hqs := Run.eachStep_iff_forall_mem.mp hnone
    have hp : IsDisconnect p.toDispatch := not_not.mp hp
    have hl : [] ++ m.bytes = Frame.concat qs ++ (p.elems ++ Frame.concat more) := by
      rw [List.nil_append, PacketMessage.bytes, hpackets, Frame.concat_append, Frame.concat_cons]
    have hreset := Receiver.run_reset hpend hl hkeep (decide_eq_true hp) (Nat.le_refl _)
    obtain rfl := Option.some.inj (hreset.symm.trans hrun)
    refine ⟨c', qs ++ [p], more, hrecv, ⟨⟨_, hb, rfl, rfl, ?_⟩, hqueue⟩, ?_, ?_, ?_⟩
    · rw [written, if_pos ⟨p, by rw [hpackets]; simp, hp⟩]
    · rw [hpackets, List.append_assoc, List.singleton_append]
    · rw [hpackets, List.dropLast_append_cons]
      cases more with
      | nil => exact iff_of_true rfl (by simpa using hqs)
      | cons q more =>
          refine iff_of_false (List.cons_ne_nil _ _) fun h => h p ?_ hp
          rw [List.dropLast_cons_cons]
          simp
    · have hlog := foldl_serve_dispatched beyond c.members (qs ++ [p])
      rw [List.foldl_append] at hlog
      rw [hm]
      exact hlog

/-! ### Any number of messages -/

/-- The client receives messages one after another, each in a datagram of its own. -/
def receiveAll (beyond : List (Dispatch Byte) → List Byte) (c : KcpClient)
    (msgs : List (List Byte)) : Option KcpClient :=
  msgs.foldlM (fun c msg => c.onReceive beyond ⟨c.members.kcp.conv, [msg]⟩) c

/-- A client that refuses a message refuses all that come later. -/
theorem Refusing.receiveAll (h : Refusing c) (msgs : List (List Byte)) :
    ∃ c', c.receiveAll beyond msgs = some c' ∧
      c'.members.dispatched = c.members.dispatched := by
  induction msgs generalizing c with
  | nil => exact ⟨c, rfl, rfl⟩
  | cons msg msgs ih =>
      obtain ⟨r, first, rest, hholds, hq, hlong⟩ := h.buffers
      obtain ⟨c₁, hrecv, h₁, hd₁⟩ := onReceive_of_long beyond hholds
        (show _ ++ [msg] = first :: (rest ++ [msg]) by rw [hq, List.cons_append]) hlong
      obtain ⟨c', hrest, hd⟩ := ih h₁
      refine ⟨c', ?_, hd.trans hd₁⟩
      rw [KcpClient.receiveAll, List.foldlM_cons, hrecv]
      exact hrest

/-- A client has served every packet if all messages fit, and has missed some otherwise. -/
theorem Receiving.receiveAll (h : Receiving c used) (ms : List PacketMessage) :
    ∃ c', c.receiveAll beyond (ms.map PacketMessage.bytes) = some c' ∧
      (Run.EachStep written Fits used ms → c'.members.dispatched
        = c.members.dispatched ++ (ms.flatMap PacketMessage.packets).map Frame.toDispatch) ∧
      (¬ Run.EachStep written Fits used ms → c'.members.dispatched.length
        < c.members.dispatched.length + (ms.flatMap PacketMessage.packets).length) := by
  induction ms generalizing c used with
  | nil => exact ⟨c, rfl, fun _ => (List.append_nil _).symm, fun hno => absurd trivial hno⟩
  | cons m ms ih =>
      rw [List.map_cons, List.flatMap_cons]
      by_cases hfit : used + m.bytes.length ≤ recvBufferSize
      · obtain ⟨c₁, served, lost, hrecv, h₁, hsplit, hlost, hd₁⟩ :=
          h.onReceive beyond hfit
        obtain ⟨c', hrest, hall, hmiss⟩ := ih h₁
        refine ⟨c', ?_, ?_, ?_⟩
        · rw [KcpClient.receiveAll, List.foldlM_cons, hrecv]
          exact hrest
        · rintro ⟨hfits, hmore⟩
          obtain rfl := hlost.mpr hfits.2
          rw [List.append_nil] at hsplit
          rw [hall hmore, hd₁, hsplit, List.map_append, List.append_assoc]
        · intro hno
          have hlen : c'.members.dispatched.length
              ≤ c₁.members.dispatched.length + (ms.flatMap PacketMessage.packets).length := by
            by_cases hmore : Run.EachStep written Fits (written used m) ms
            · rw [hall hmore, List.length_append, List.length_map]
            · exact Nat.le_of_lt (hmiss hmore)
          rw [hd₁, List.length_append, List.length_map] at hlen
          rw [List.length_append, hsplit, List.length_append]
          rcases lost with - | ⟨p, lost⟩
          · -- nothing was lost of this message, so of a later one
            have hmore : ¬ Run.EachStep written Fits (written used m) ms :=
              fun hmore => hno ⟨⟨hfit, hlost.mp rfl⟩, hmore⟩
            have := hmiss hmore
            rw [hd₁, List.length_append, List.length_map] at this
            rw [List.length_nil]
            omega
          · rw [List.length_cons]
            omega
      · -- the message is refused, and it stays in front of all that come later
        obtain ⟨r, hholds, -, -, rfl⟩ := h.buffers
        obtain ⟨c₁, hrecv, h₁, hd₁⟩ := onReceive_of_long beyond hholds
          (show _ ++ [m.bytes] = m.bytes :: [] by rw [h.queue, List.nil_append])
          (Nat.not_le.mp hfit)
        obtain ⟨c', hrest, hd⟩ := h₁.receiveAll beyond (ms.map PacketMessage.bytes)
        refine ⟨c', ?_, fun hfits => absurd hfits.1.1 hfit, fun _ => ?_⟩
        · rw [KcpClient.receiveAll, List.foldlM_cons, hrecv]
          exact hrest
        · have hpos := List.length_pos_iff.mpr m.packets_ne_nil
          rw [hd, hd₁, List.length_append]
          omega

/-! ### The client and the server -/

/-- The commands and payloads `ReadDataHandler` was run on. -/
def handled (log : List (Dispatch Byte)) : List (Nat × List Byte) :=
  log.map fun d => ((PacketHeader.ofBytes d.hdr).command, d.payload)

theorem flatten_bytes (ms : List PacketMessage) :
    (ms.map PacketMessage.bytes).flatten = Frame.concat (ms.flatMap PacketMessage.packets) := by
  induction ms with
  | nil => rfl
  | cons m ms ih =>
      rw [List.map_cons, List.flatten_cons, ih, List.flatMap_cons, Frame.concat_append]
      rfl

section Server

variable (clientConv serverId : UInt16) (addr : SockAddr) (status : SessionStatus)
  (tick needUpdateTime : Nat)

/-- The server's end serves every packet of every message. -/
theorem session_serves_all {f : DataHandler} (hf : ∀ log cmd data, f log cmd data = true)
    (ms : List PacketMessage) :
    ∃ s, (KcpSession.accepted clientConv serverId addr status tick needUpdateTime).receiveAll
        serverId (some f) (ms.map PacketMessage.bytes) = some s ∧
      s.members.dispatched = (ms.flatMap PacketMessage.packets).map Frame.toDispatch := by
  have hmsgs : ∀ msg ∈ ms.map PacketMessage.bytes, msg ≠ [] ∧ msg.length ≤ recvBufferSize := by
    intro msg hmsg
    obtain ⟨m, -, rfl⟩ := List.mem_map.mp hmsg
    exact ⟨m.bytes_ne_nil, m.length_le⟩
  obtain ⟨s, hrun, hs⟩ := (KcpSession.serving_accepted clientConv serverId addr status tick
    needUpdateTime).receiveAll (KcpSession.newConv_and clientConv serverId) hf hmsgs
    (by rw [List.nil_append, flatten_bytes, List.append_nil]) FrameFormat.incomplete_nil
  exact ⟨s, hrun, hs.dispatched⟩

end Server

variable {clientConv serverId : UInt16} {addr : SockAddr} {status : SessionStatus}
  {tick needUpdateTime : Nat}

variable {remote : SockAddr} {dataHandler : Option DataHandler} {responce : Bool}
  {sessionId : SocketSessionId} {clientStatus : SessionStatus} {clientTick : Int}
  {timeOutTick clientUpdateTime : Nat} {needUpdate alive : Bool}

theorem receiving_create {serverId : Int16} : Receiving (create serverId remote dataHandler responce sessionId
    clientStatus clientTick timeOutTick clientUpdateTime needUpdate alive) 0 :=
  ⟨⟨_, ReadBuffers.holds_init, rfl, rfl, rfl⟩, rfl⟩

/-- **When the client and the server agree.**  A client and a session receive the
same messages, made of packets, one a datagram, and the handler of the session
accepts every packet.  `ReadDataHandler` runs on the same commands and payloads
at both ends if and only if in no message a packet follows an `S2C_DISCONNECT`
and the messages since the last such packet fit into the read buffer together. -/
theorem handle_the_same_iff (f : DataHandler) (hf : ∀ log cmd data, f log cmd data = true)
    (ms : List PacketMessage) :
    (∃ s c,
      (KcpSession.accepted clientConv serverId addr status tick needUpdateTime).receiveAll
        serverId (some f) (ms.map PacketMessage.bytes) = some s ∧
      (create serverId.toInt16 remote dataHandler responce sessionId clientStatus clientTick
        timeOutTick clientUpdateTime needUpdate alive).receiveAll beyond (ms.map PacketMessage.bytes)
          = some c ∧
      handled c.members.dispatched = handled s.members.dispatched) ↔
    Run.EachStep written Fits 0 ms := by
  obtain ⟨s, hs, hds⟩ := session_serves_all clientConv serverId addr status tick needUpdateTime
    hf ms
  have hcreate : Receiving (create serverId.toInt16 remote dataHandler responce sessionId
    clientStatus clientTick timeOutTick clientUpdateTime needUpdate alive) 0 := receiving_create
  obtain ⟨c, hc, hall, hmiss⟩ := hcreate.receiveAll beyond ms
  constructor
  · rintro ⟨s', c', hs', hc', heq⟩
    obtain rfl := Option.some.inj (hs.symm.trans hs')
    obtain rfl := Option.some.inj (hc.symm.trans hc')
    by_contra hno
    have hless := hmiss hno
    have hlen := congrArg List.length heq
    rw [handled, handled, List.length_map, List.length_map, hds, List.length_map] at hlen
    rw [hlen] at hless
    exact absurd hless (by simp [create])
  · intro hfits
    refine ⟨s, c, hs, hc, ?_⟩
    rw [hall hfits, hds]
    rfl

/-- A heartbeat message, a message that disconnects and another heartbeat message. -/
theorem handle_the_same_iff_of_heartbeats :
    let heartbeat : PacketMessage :=
      ⟨[Packet.ofHeader ⟨0, 2⟩ [] (by decide) (by decide) rfl], by decide, by decide⟩
    let disconnect : PacketMessage :=
      ⟨[Packet.ofHeader ⟨0, 1⟩ [] (by decide) (by decide) rfl], by decide, by decide⟩
    let ms := [heartbeat, disconnect, heartbeat]
    (∃ s c,
      (KcpSession.accepted 1 2 ⟨2, 4000, 0⟩ .connecting 0 0).receiveAll 2 (some fun _ _ _ => true)
        (ms.map PacketMessage.bytes) = some s ∧
      (create 2 ⟨2, 4000, 0⟩ none false ⟨0, ⟨2, 4000, 0⟩⟩ .connecting 0 0 0 false
        false).receiveAll (fun _ => []) (ms.map PacketMessage.bytes) = some c ∧
      handled c.members.dispatched = handled s.members.dispatched) ↔
    Run.EachStep written Fits 0 ms :=
  handle_the_same_iff _ _ (fun _ _ _ => rfl) _

/-- Two messages of 2049 bytes: the second one does not fit behind the first. -/
theorem second_message_refused :
    let d : Dispatch Byte := ⟨(PacketHeader.mk 2041 5).toBytes, List.replicate 2041 0⟩
    let msgs := [d.hdr ++ d.payload, d.hdr ++ d.payload]
    ∃ s c,
      (KcpSession.accepted 1 2 ⟨2, 4000, 0⟩ .connecting 0 0).receiveAll 2 (some fun _ _ _ => true)
        msgs = some s ∧
      (create 2 ⟨2, 4000, 0⟩ (some fun _ _ _ => true) false ⟨0, ⟨2, 4000, 0⟩⟩ .connecting 0 0 0
        false false).receiveAll (fun _ => []) msgs = some c ∧
      s.members.dispatched = [d, d] ∧ c.members.dispatched = [d] := by
  intro d msgs
  let p : Packet := Packet.ofHeader ⟨2041, 5⟩ (List.replicate 2041 0) (by decide) (by decide)
    List.length_replicate
  have hlen : p.elems.length = 2049 := by
    rw [Frame.length_elems, packetFormat_size, Packet.ofBytes_hdr_ofHeader]
    rfl
  let m : PacketMessage := ⟨[p], List.cons_ne_nil _ _, by
    rw [Frame.concat_cons, Frame.concat_nil, List.append_nil, hlen]
    decide⟩
  have hbytes : m.bytes = d.hdr ++ d.payload := List.append_nil _
  have hmsgs : [m, m].map PacketMessage.bytes = msgs := by
    rw [List.map_cons, List.map_singleton, hbytes]
  have hlen₂ : m.bytes.length = 2049 := by rw [hbytes]; exact hlen
  have hno : ¬ IsDisconnect p.toDispatch := by
    rw [IsDisconnect, Packet.ofBytes_hdr_ofHeader]
    decide
  obtain ⟨s, hs, hds⟩ := session_serves_all 1 2 ⟨2, 4000, 0⟩ .connecting 0 0
    (f := fun _ _ _ => true) (fun _ _ _ => rfl) [m, m]
  -- the client serves the first message, and the second one does not fit behind it
  have hcreate : Receiving (create 2 ⟨2, 4000, 0⟩ (some fun _ _ _ => true) false
    ⟨0, ⟨2, 4000, 0⟩⟩ .connecting 0 0 0 false false) 0 := receiving_create
  obtain ⟨c₁, served, lost, hrecv₁, h₁, hsplit, hlost, hd₁⟩ := hcreate.onReceive (fun _ => [])
    (show 0 + m.bytes.length ≤ recvBufferSize by rw [hlen₂]; decide)
  obtain rfl : lost = [] := hlost.mpr fun q hq => absurd hq List.not_mem_nil
  obtain rfl : [p] = served := hsplit.trans (List.append_nil _)
  have hused : written 0 m = 2049 := by
    rw [written, if_neg, Nat.zero_add, hlen₂]
    rintro ⟨q, hq, hdisconnect⟩
    rw [List.mem_singleton.mp hq] at hdisconnect
    exact hno hdisconnect
  obtain ⟨r, hholds, -, -, hr⟩ := h₁.buffers
  obtain ⟨c₂, hrecv₂, -, hd₂⟩ := onReceive_of_long (fun _ => []) hholds
    (show _ ++ [m.bytes] = m.bytes :: [] by rw [h₁.queue, List.nil_append])
    (by rw [hr, hused, hlen₂]; decide)
  have hrest : c₁.receiveAll (fun _ => []) [m.bytes] = some c₂ := by
    rw [KcpClient.receiveAll, List.foldlM_cons, hrecv₂]
    rfl
  rw [← hmsgs]
  refine ⟨s, c₂, hs, ?_, hds, hd₂.trans hd₁⟩
  rw [List.map_cons, List.map_singleton, KcpClient.receiveAll, List.foldlM_cons, hrecv₁]
  exact hrest

end KcpClient

end PCGForUnity
