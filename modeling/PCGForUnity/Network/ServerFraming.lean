/-
PCGForUnity/Network/ServerFraming.lean

What a session of the server makes of the messages it receives.  On a stream of well-formed
packets it

* serves each packet once, in order, however the stream is cut into messages;
* keeps the beginning of a packet that has not come whole, and nothing else;
* has the positions of its three buffers in order, in every state on the way

(`serves_packets`).

Design.  The general part is `Lib/Framing`: a receiver of frames that fills a header and
then a payload.  `ReadBuffers` shows that the three buffers are such a receiver, and here the
session is its instance, with the handler that `KcpSession` calls for a frame.  The last part
needs the states inside a call, so `Reachable` has those between the statements of
`ReadHandler`, too.
-/
import PCGForUnity.Network.KcpSession

namespace PCGForUnity

namespace KcpSession

/-! ### The states a session passes through -/

/-- The states of a session from `s₀` on: at rest, or (`true`) between the
statements of `ReadHandler`. -/
inductive Reachable (dataHandler : Option DataHandler) (s₀ : KcpSession) :
    Bool → KcpSession → Prop
  | start : Reachable dataHandler s₀ false s₀
  | send {s : KcpSession} (buff : List Byte) (immediately : Bool) :
      Reachable dataHandler s₀ false s → Reachable dataHandler s₀ false (s.send buff immediately)
  | close {s : KcpSession} (remove : Bool) :
      Reachable dataHandler s₀ false s → Reachable dataHandler s₀ false (s.closeSession remove)
  | update {s s' : KcpSession} {check : Ikcpcb → Nat → Nat} {diff : Nat} :
      Reachable dataHandler s₀ false s → s.update check dataHandler diff = some s' →
      Reachable dataHandler s₀ false s'
  | receive {s s' : KcpSession} {buff : KcpDatagram} {got : Bool} :
      Reachable dataHandler s₀ false s → s.receive buff = some (s', got) →
      Reachable dataHandler s₀ got s'
  | header {s : KcpSession} {b : ReadBuffers} {ok : Bool} :
      Reachable dataHandler s₀ true s → s.buffers.readHeader = some (b, ok) →
      Reachable dataHandler s₀ true { s with buffers := b }
  | payload {s : KcpSession} {b : ReadBuffers} {ok : Bool} :
      Reachable dataHandler s₀ true s → s.buffers.readPayload = some (b, ok) →
      Reachable dataHandler s₀ true { s with buffers := b }
  | packet {s : KcpSession} {d : Dispatch Byte} :
      Reachable dataHandler s₀ true s → s.buffers.received = some d →
      Reachable dataHandler s₀ true (handle dataHandler s d)
  | finish {s : KcpSession} :
      Reachable dataHandler s₀ true s → Reachable dataHandler s₀ false s.resetRead

section Reachable

variable {dataHandler : Option DataHandler} {s₀ s s' : KcpSession} {serverId : UInt16}

theorem send_buffers (s : KcpSession) (buff : List Byte) (immediately : Bool) :
    (s.send buff immediately).buffers = s.buffers := by
  cases immediately <;> rfl

theorem closeSession_buffers (s : KcpSession) (remove : Bool) :
    (s.closeSession remove).buffers = s.buffers ∨
      (s.closeSession remove).buffers = s.buffers.reset := by
  rcases s with ⟨b, _, _, status, _, _, place, _, _⟩
  cases remove <;> cases place <;> cases status <;> simp [closeSession, onDisconnected, send]

theorem receive_holds {r : Receiver Byte} (h : s.buffers.Holds r) {buff : KcpDatagram}
    {got : Bool} (e : s.receive buff = some (s', got)) :
    got = false ∧ s'.buffers = s.buffers ∨ got = true ∧ ∃ r', s'.buffers.Holds r' := by
  rw [receive] at e
  rcases hrecv : (s.members.kcp.input buff).recv s.buffers.readBuffer.getRemainingSpace with
    ⟨kcp, err | msg⟩
  · rw [hrecv] at e
    obtain ⟨rfl, rfl⟩ := Prod.mk.inj (Option.some.inj e)
    exact Or.inl ⟨rfl, rfl⟩
  · rw [hrecv] at e
    simp only at e
    split at e
    · -- a message comes out of the queue only if there is room for it
      have hfit : r.used + msg.length ≤ recvBufferSize := by
        have hle := Ikcpcb.length_le_of_recv hrecv
        have hused := h.used_le
        rw [h.getRemainingSpace] at hle
        omega
      obtain ⟨rb, hcopy, hholds⟩ := h.fill hfit
      rw [hcopy] at e
      simp only [SocketServer.checkCrc, Option.bind_eq_bind, Option.bind_some, Bool.not_true,
        Bool.false_eq_true, if_false, Option.some.injEq, Prod.mk.injEq] at e
      obtain ⟨rfl, rfl⟩ := e
      exact Or.inr ⟨rfl, _, hholds⟩
    · obtain ⟨rfl, rfl⟩ := Prod.mk.inj (Option.some.inj e)
      exact Or.inl ⟨rfl, rfl⟩

/-- In every state the buffers hold some state of the reading side, and at rest
nothing is unread. -/
theorem Reachable.holds {reading : Bool} (h : Reachable dataHandler s₀ reading s)
    {r₀ : Receiver Byte} (h₀ : s₀.buffers.Holds r₀) (hnil : r₀.unread = []) :
    ∃ r, s.buffers.Holds r ∧ (reading = false → r.unread = []) := by
  induction h with
  | start => exact ⟨r₀, h₀, fun _ => hnil⟩
  | send buff immediately _ ih =>
      obtain ⟨r, hr, hrest⟩ := ih
      exact ⟨r, by rwa [send_buffers], hrest⟩
  | @close s remove _ ih =>
      -- closing may reset the buffers, also in the middle of a read
      obtain ⟨r, hr, hrest⟩ := ih
      rcases closeSession_buffers s remove with e | e
      · exact ⟨r, by rwa [e], hrest⟩
      · exact ⟨r.reset, by rw [e]; exact hr.reset, fun _ => rfl⟩
  | @update s s' check diff _ e ih =>
      obtain ⟨r, hr, hrest⟩ := ih
      -- at rest nothing is unread, so `Update` reads nothing
      rw [update_eq hr (hrest rfl)] at e
      obtain rfl := Option.some.inj e
      refine ⟨r, ?_, hrest⟩
      cases s.members.alive <;> exact hr
  | receive _ e ih =>
      obtain ⟨r, hr, hrest⟩ := ih
      rcases receive_holds hr e with ⟨rfl, hb⟩ | ⟨rfl, r', hr'⟩
      · exact ⟨r, by rwa [hb], hrest⟩
      · exact ⟨r', hr', by rintro ⟨⟩⟩
  | header _ e ih =>
      obtain ⟨r, hr, -⟩ := ih
      obtain ⟨b, hb, hholds⟩ := hr.readHeader
      obtain ⟨rfl, -⟩ := Prod.mk.inj (Option.some.inj (e.symm.trans hb))
      exact ⟨_, hholds, by rintro ⟨⟩⟩
  | payload _ e ih =>
      obtain ⟨r, hr, -⟩ := ih
      obtain ⟨b, hb, hholds⟩ := hr.readPayload
      obtain ⟨rfl, -⟩ := Prod.mk.inj (Option.some.inj (e.symm.trans hb))
      exact ⟨_, hholds, by rintro ⟨⟩⟩
  | @packet s d _ _ ih =>
      obtain ⟨r, hr, -⟩ := ih
      rw [handlesBy dataHandler s d]
      split
      · exact ⟨r.reset, hr.reset, by rintro ⟨⟩⟩
      · exact ⟨_, hr.resetHeader, by rintro ⟨⟩⟩
  | finish _ ih =>
      obtain ⟨r, hr, -⟩ := ih
      exact ⟨_, hr.resetRead, fun _ => rfl⟩

/-- A round of the loop passes through such states only. -/
theorem Reachable.readStep (h : Reachable dataHandler s₀ true s) {ok : Bool}
    (e : Endpoint.readStep (handle dataHandler) s = some (s', ok)) :
    Reachable dataHandler s₀ true s' := by
  rw [Endpoint.readStep] at e
  split at e
  · obtain ⟨⟨b, ok₁⟩, hb, e⟩ := Option.bind_eq_some_iff.mp e
    have h₁ := h.header hb
    cases ok₁ with
    | false =>
        obtain ⟨rfl, -⟩ := Prod.mk.inj (Option.some.inj e)
        exact h₁
    | true =>
        obtain ⟨⟨b', ok₂⟩, hb', e⟩ := Option.bind_eq_some_iff.mp e
        have h₂ := h₁.payload hb'
        cases ok₂ with
        | false =>
            obtain ⟨rfl, -⟩ := Prod.mk.inj (Option.some.inj e)
            exact h₂
        | true =>
            obtain ⟨d, hd, e⟩ := Option.bind_eq_some_iff.mp e
            obtain ⟨rfl, -⟩ := Prod.mk.inj (Option.some.inj e)
            exact h₂.packet hd
  · obtain ⟨rfl, -⟩ := Prod.mk.inj (Option.some.inj e)
    exact h

theorem Reachable.readLoop {fuel : Nat} (h : Reachable dataHandler s₀ true s)
    (e : Endpoint.readLoop (handle dataHandler) fuel s = some s') :
    Reachable dataHandler s₀ true s' := by
  induction fuel generalizing s with
  | zero => cases e
  | succ fuel ih =>
      obtain ⟨⟨s₁, ok⟩, hs, e⟩ := Option.bind_eq_some_iff.mp e
      have h₁ := h.readStep hs
      cases ok with
      | false =>
          obtain rfl := Option.some.inj e
          exact h₁
      | true => exact ih h₁ e

/-- What a datagram leads to is among them. -/
theorem Reachable.deliver (h : Reachable dataHandler s₀ false s) {buff : KcpDatagram}
    (e : s.deliver serverId dataHandler buff = some s') : Reachable dataHandler s₀ false s' := by
  rw [KcpSession.deliver] at e
  split at e
  · rw [onReceive] at e
    split at e
    · obtain rfl := Option.some.inj e
      exact (h.send _ true).close false
    · split at e
      · obtain rfl := Option.some.inj e
        exact h.close false
      · obtain ⟨⟨s₁, got⟩, hrecv, e⟩ := Option.bind_eq_some_iff.mp e
        have h₁ := h.receive hrecv
        cases got with
        | false =>
            obtain rfl := Option.some.inj e
            exact h₁
        | true =>
            obtain ⟨s₂, hread, e⟩ := Option.bind_eq_some_iff.mp e
            obtain rfl := Option.some.inj e
            exact (h₁.readLoop hread).finish
  · obtain rfl := Option.some.inj e
    exact h

end Reachable

/-! ### Streams of packets -/

/-- The session receives messages one after another, each in a datagram of its own. -/
def receiveAll (serverId : UInt16) (dataHandler : Option DataHandler) (s : KcpSession)
    (msgs : List (List Byte)) : Option KcpSession :=
  msgs.foldlM (fun s msg => s.deliver serverId dataHandler ⟨s.members.sessionId.conv, [msg]⟩) s

section Serving

variable {f : DataHandler} {s : KcpSession} {conv : UInt32} {serverId : UInt16}
  {ps qs : List Packet} {rest rest' msg : List Byte}

theorem Serving.deliver (h : Serving s conv ps rest) (buff : KcpDatagram) :
    s.deliver serverId (some f) buff = s.onReceive serverId (some f) buff := by
  rw [KcpSession.deliver, h.place]

theorem accepts_of_forall (hf : ∀ log cmd data, f log cmd data = true)
    (log : List (Dispatch Byte)) (ps : List Packet) : Accepts f log ps :=
  (Run.eachStep_true log ps).mono fun log _ _ => hf log _ _

/-- A stream of messages that is the beginning of a stream of packets: the
packets in it are served, and the incomplete one at its end is kept. -/
theorem Serving.receiveAll (h : Serving s conv ps rest)
    (hserver : conv &&& 0xffff = serverId.toUInt32)
    (hf : ∀ log cmd data, f log cmd data = true) {msgs : List (List Byte)}
    (hmsgs : ∀ msg ∈ msgs, msg ≠ [] ∧ msg.length ≤ recvBufferSize)
    (hl : rest ++ msgs.flatten = Frame.concat qs ++ rest') (hinc : packetFormat.Incomplete rest') :
    ∃ s', s.receiveAll serverId (some f) msgs = some s' ∧ Serving s' conv (ps ++ qs) rest' := by
  induction msgs generalizing s ps qs rest with
  | nil =>
      obtain ⟨r, -, hpend, -⟩ := h.buffers
      rw [List.flatten_nil, List.append_nil, ← List.nil_append rest, ← Frame.concat_nil (F := packetFormat)] at hl
      obtain ⟨rfl, rfl⟩ := FrameFormat.frames_unique hl (Or.inr hpend.incomplete) (Or.inr hinc)
      exact ⟨s, rfl, by simpa using h⟩
  | cons msg msgs ih =>
      obtain ⟨hne, hlen⟩ := hmsgs msg (by simp)
      obtain ⟨qs₁, t, ht, hend⟩ := FrameFormat.exists_frames (F := packetFormat) (rest ++ msg)
      rw [List.flatten_cons, ← List.append_assoc, ht] at hl
      obtain ⟨qs₂, rfl, hl₂⟩ := FrameFormat.frames_append hl (Or.inr hinc)
      have hinc₁ : packetFormat.Incomplete t := by
        rcases hend with hm | hi
        · -- a rejected header would still stand in the whole stream
          have hbad := hm.append msgs.flatten
          obtain ⟨-, rfl⟩ := FrameFormat.frames_unique
            ((Frame.concat_nil (F := packetFormat) ▸ List.nil_append _).trans hl₂)
            (Or.inl hbad) (Or.inr hinc)
          exact absurd hinc hbad.not_incomplete
        · exact hi
      obtain ⟨s₁, hrecv, h₁⟩ := h.onReceive hserver hne hlen ht hinc₁ (accepts_of_forall hf _ qs₁)
      obtain ⟨s', hrest, h'⟩ := ih h₁ (fun m hm => hmsgs m (List.mem_cons_of_mem _ hm)) hl₂
      refine ⟨s', ?_, by rwa [← List.append_assoc]⟩
      rw [KcpSession.receiveAll, List.foldlM_cons, h.deliver, h.conv, hrecv]
      exact hrest

end Serving

/-! ### The framing of the server -/

/-- Of a stream of packets that begins with `received` the session has called its
handler with each complete packet, once and in order, and buffered what there is
of the next one. -/
def HasServed (s : KcpSession) (ps : List Packet) (received : List Byte) : Prop :=
  ∃ done more rest, ps = done ++ more ∧ received = Frame.concat done ++ rest ∧
    (more = [] ∧ rest = [] ∨
      ∃ p more', more = p :: more' ∧ rest <+: p.elems ∧ rest ≠ p.elems) ∧
    s.members.dispatched = done.map Frame.toDispatch ∧
    s.buffers.buffered = rest ∧ s.buffers.readBuffer.unread = []

variable {clientConv serverId : UInt16} {addr : SockAddr} {status : SessionStatus}
  {tick needUpdateTime : Nat}

/-- **Framing is independent of chunking.**  A session whose handler accepts every
packet serves the beginning of a stream of packets, however it is cut into
messages.  In every state on the way the positions of the buffers are in order. -/
theorem serves_packets (f : DataHandler) (hf : ∀ log cmd data, f log cmd data = true)
    (ps : List Packet) (msgs : List (List Byte))
    (hmsgs : ∀ msg ∈ msgs, msg ≠ [] ∧ msg.length ≤ recvBufferSize)
    (hcut : msgs.flatten <+: Frame.concat ps) :
    (∃ s, (accepted clientConv serverId addr status tick needUpdateTime).receiveAll serverId
        (some f) msgs = some s ∧ s.HasServed ps msgs.flatten) ∧
    ∀ reading s, Reachable (some f)
        (accepted clientConv serverId addr status tick needUpdateTime) reading s →
      s.buffers.WF := by
  refine ⟨?_, fun reading s h => ?_⟩
  · obtain ⟨done, more, rest, rfl, hdone, hrest⟩ := FrameFormat.exists_frames_of_prefix hcut
    have hinc := FrameFormat.incomplete_of_rest hrest
    obtain ⟨s, hrun, hs⟩ := (serving_accepted clientConv serverId addr status tick
      needUpdateTime).receiveAll (newConv_and clientConv serverId) hf hmsgs
      (by rw [List.nil_append]; exact hdone) hinc
    obtain ⟨r, hholds, hpend, hunread, -⟩ := hs.buffers
    refine ⟨s, hrun, done, more, rest, rfl, hdone, hrest, hs.dispatched,
      hholds.buffered_eq hpend, ?_⟩
    rw [hholds.unread, hunread]
  · obtain ⟨r, hr, -⟩ := h.holds ReadBuffers.holds_init rfl
    exact hr.positions

/-- A packet of two payload bytes and one without payload, the stream cut inside
both headers. -/
theorem serves_packets_cut_in_headers :
    let ps := [Packet.ofHeader ⟨2, 5⟩ [7, 9] (by decide) (by decide) rfl,
      Packet.ofHeader ⟨0, 6⟩ [] (by decide) (by decide) rfl]
    let msgs := [(Frame.concat ps).take 3, ((Frame.concat ps).drop 3).take 9]
    (∃ s, (accepted 1 2 ⟨2, 4000, 0⟩ .connecting 0 0).receiveAll 2 (some fun _ _ _ => true) msgs
        = some s ∧ s.HasServed ps msgs.flatten) ∧
      ∀ reading s, Reachable (some fun _ _ _ => true)
        (accepted 1 2 ⟨2, 4000, 0⟩ .connecting 0 0) reading s → s.buffers.WF :=
  serves_packets _ (fun _ _ _ => rfl) _ _ (by decide) (by decide)

end KcpSession

end PCGForUnity
