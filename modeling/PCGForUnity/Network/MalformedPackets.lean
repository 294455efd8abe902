/-
PCGForUnity/Network/MalformedPackets.lean

What a session of the server does about a header it rejects.  For messages of any content

    the data handler is called with nothing but packets of the stream, at any time
      ↔  no message comes after one with a rejected header, unless this is the first header
         and fewer than BUFFER_SIZE bytes come

(`dispatches_only_packets_iff`).

`ReadHandler` returns with the header still in the header buffer, and the session stays open.
The next message finds the header complete and is taken for its payload, up to the size the
packet buffer has at the time.  So the data handler is called with the rejected header after
all: at the next message if a packet was served before, since its payload still fills the
packet buffer, and otherwise once the bytes of a new packet buffer have arrived.

Design.  A message is split where the first rejected header ends.  Up to there the session
follows the framing library; behind it the buffers are computed by hand.
-/
import PCGForUnity.Network.ServerFraming

namespace PCGForUnity

namespace KcpSession

/-- Each call of the data handler so far was made with a header that passes the
checks and the payload it announces, as they stand in the stream received. -/
def OnlyPackets (s : KcpSession) (received : List Byte) : Prop :=
  ∀ d ∈ s.members.dispatched, packetFormat.ValidHeader d.hdr ∧
    d.payload.length = packetFormat.size d.hdr ∧ d.hdr ++ d.payload <:+: received

/-- The messages are a number of packets the data handler accepts, and then bytes
that begin with a header to be rejected. -/
def HeaderRejected (f : DataHandler) (msgs : List (List Byte)) (ps : List Packet) : Prop :=
  ∃ bad, msgs.flatten = Frame.concat ps ++ bad ∧ packetFormat.Malformed bad ∧ Accepts f [] ps

section Streams

variable {f : DataHandler} {log : List (Dispatch Byte)} {s : KcpSession} {ps qs : List Packet}
  {pre post : List (List Byte)} {received : List Byte}

theorem onlyPackets_of_frames (hd : s.members.dispatched = ps.map Frame.toDispatch)
    (hw : Frame.concat ps <+: received) : s.OnlyPackets received := by
  intro d hmem
  rw [hd] at hmem
  obtain ⟨p, hp, rfl⟩ := List.mem_map.mp hmem
  exact ⟨p.valid, p.length_payload, (Frame.elems_infix_concat hp).trans hw.isInfix⟩

/-- What is logged of packets that are served. -/
theorem foldl_log (log : List (Dispatch Byte)) (ps : List Packet) :
    ps.foldl (fun log p => log ++ [p.toDispatch]) log = log ++ ps.map Frame.toDispatch := by
  induction ps generalizing log with
  | nil => exact (List.append_nil log).symm
  | cons p ps ih => rw [List.foldl_cons, ih, List.append_assoc, List.map_cons, List.singleton_append]

theorem accepts_append :
    Accepts f log (ps ++ qs) ↔ Accepts f log ps ∧ Accepts f (log ++ ps.map Frame.toDispatch) qs := by
  show Run.EachStep _ _ _ _ ↔ _
  rw [Run.eachStep_append, foldl_log]
  rfl

theorem HeaderRejected.append (h : HeaderRejected f pre ps) (post : List (List Byte)) :
    HeaderRejected f (pre ++ post) ps := by
  obtain ⟨bad, hflat, hbad, hacc⟩ := h
  exact ⟨bad ++ post.flatten, by rw [List.flatten_append, hflat, List.append_assoc],
    hbad.append _, hacc⟩

theorem HeaderRejected.unique (h : HeaderRejected f pre ps) (h' : HeaderRejected f pre qs) :
    ps = qs := by
  obtain ⟨bad, hflat, hbad, -⟩ := h
  obtain ⟨bad', hflat', hbad', -⟩ := h'
  exact (FrameFormat.frames_unique (hflat.symm.trans hflat') (Or.inl hbad) (Or.inl hbad')).1

end Streams

/-! ### One message, when not all of it is packets to be accepted -/

/-- A session at rest that has served the packets `ps` and rejected the header
that `bad` begins with.  This still stands in the header buffer, and `got` has
been received since. -/
structure Stuck (s : KcpSession) (conv : UInt32) (ps : List Packet) (bad got : List Byte) :
    Prop where
  buffers : ∃ r, s.buffers.Holds r ∧ r.hdr = bad.take packetFormat.headerLen ∧
    r.unread = [] ∧ r.used = 0 ∧
    (ps = [] ∧ r.payload = got ∧ r.size = MessageBuffer.bufferSize ∨
      ps ≠ [] ∧ r.payload.length = r.size)
  bad : packetFormat.Malformed bad
  queue : s.members.kcp.rcvQueue = []
  conv : s.members.sessionId.conv = conv
  kcpConv : s.members.kcp.conv = s.members.sessionId.conv
  place : s.members.place = .sessions
  dispatched : s.members.dispatched = ps.map Frame.toDispatch

section Steps

variable {f : DataHandler} {s : KcpSession} {conv : UInt32} {serverId : UInt16}
  {ps qs : List Packet} {rest bad got msg : List Byte}

theorem Stuck.deliver (h : Stuck s conv ps bad got) (buff : KcpDatagram) :
    s.deliver serverId (some f) buff = s.onReceive serverId (some f) buff := by
  rw [KcpSession.deliver, h.place]

/-- A message with a header to be rejected. -/
theorem Serving.onReceive_malformed (h : Serving s conv ps rest)
    (hserver : conv &&& 0xffff = serverId.toUInt32) (hne : msg ≠ [])
    (hlen : msg.length ≤ recvBufferSize) (hl : rest ++ msg = Frame.concat qs ++ bad)
    (hbad : packetFormat.Malformed bad) (hacc : Accepts f (ps.map Frame.toDispatch) qs) :
    ∃ s', s.onReceive serverId (some f) ⟨conv, [msg]⟩ = some s' ∧
      Stuck s' conv (ps ++ qs) bad [] := by
  obtain ⟨r, hholds, hpend, hunread, hused, hpay⟩ := h.buffers
  obtain ⟨hk, hfold⟩ := keeps_of_accepts (m := s.members) (by rwa [h.dispatched])
  obtain ⟨r', hrun', hhdr, -, hcase⟩ := Receiver.run_malformed
    (r := { r with unread := msg, used := msg.length }) hpend hl hbad hk (Nat.le_refl _)
  rw [hfold] at hrun'
  obtain ⟨s', t, hrun, hrecv, hb, hm⟩ := onReceive_refines hholds h.queue hunread hused hne hlen
    h.kcpConv (by rwa [h.conv])
  obtain rfl := Option.some.inj (hrun'.symm.trans hrun)
  rw [h.conv] at hrecv
  refine ⟨s', hrecv, ⟨⟨_, hb, hhdr, rfl, rfl, ?_⟩, hbad, ?_, ?_, ?_, ?_, ?_⟩⟩
  · rcases hcase with ⟨rfl, hp, hs⟩ | ⟨hqs, hfull⟩
    · -- the rejected header began before this message, or with it
      have hrest : rest.length < sizeofPacketHeader := by
        rw [Frame.concat_nil, List.nil_append] at hl
        rcases hpend.incomplete with hlt | ⟨hv, -⟩
        · exact hlt
        · have hge : packetFormat.headerLen ≤ rest.length := by
            have := hv.1
            rw [List.length_take] at this
            omega
          have hno := hbad.2
          rw [← hl, List.take_append_of_le_length hge, hv.2] at hno
          cases hno
      rw [List.append_nil]
      rcases hpay hrest with ⟨hps, hp', hs'⟩ | ⟨hps, hfull⟩
      · exact Or.inl ⟨hps, hp.trans hp', hs.trans hs'⟩
      · exact Or.inr ⟨hps, by rw [hp, hs]; exact hfull⟩
    · exact Or.inr ⟨by simp [hqs], hfull⟩
  · rw [hm]
    exact h.queue
  · rw [hm]
    exact h.conv
  · rw [hm]
    exact h.kcpConv
  · rw [hm]
    exact h.place
  · rw [hm, h.dispatched, List.map_append]

/-- A message with a packet the data handler refuses. -/
theorem Serving.onReceive_refused (h : Serving s conv ps rest)
    (hserver : conv &&& 0xffff = serverId.toUInt32) (hne : msg ≠ [])
    (hlen : msg.length ≤ recvBufferSize) {p : Packet} {more : List Byte}
    (hl : rest ++ msg = Frame.concat qs ++ (p.elems ++ more))
    (hacc : Accepts f (ps.map Frame.toDispatch) qs)
    (hp : f ((ps ++ qs).map Frame.toDispatch) (PacketHeader.ofBytes p.hdr).command p.payload
      ≠ true) :
    ∃ s', s.onReceive serverId (some f) ⟨conv, [msg]⟩ = some s' ∧
      s'.members.place ≠ .sessions ∧
      s'.members.dispatched = (ps ++ qs ++ [p]).map Frame.toDispatch := by
  obtain ⟨r, hholds, hpend, hunread, hused, -⟩ := h.buffers
  obtain ⟨hk, hfold⟩ := keeps_of_accepts (m := s.members) (by rwa [h.dispatched])
  rw [h.dispatched, ← List.map_append] at hfold
  set m : SessionMembers := { s.members with dispatched := (ps ++ qs).map Frame.toDispatch }
  -- the refusal closes the session in the middle of the read
  have hact : act (some f) m p.toDispatch = (closed (logged m p.toDispatch), true) := by
    rw [act, if_neg hp, if_pos h.place]
  have hresets : (act (some f) (qs.foldl (Receiver.serve (act (some f))) s.members)
      p.toDispatch).2 = true := by
    rw [hfold, hact]
  have hreset := Receiver.run_reset (r := { r with unread := msg, used := msg.length })
    hpend hl hk hresets (Nat.le_refl _)
  obtain ⟨s', t, hrun, hrecv, -, hmem⟩ := onReceive_refines hholds h.queue hunread hused hne hlen
    h.kcpConv (by rwa [h.conv])
  obtain rfl := Option.some.inj (hreset.symm.trans hrun)
  rw [h.conv] at hrecv
  rw [hfold, Receiver.serve, hact] at hmem
  refine ⟨s', hrecv, ?_, ?_⟩
  · rw [hmem, closed_place (by exact h.place)]
    decide
  · rw [hmem, closed_dispatched, List.map_append]
    rfl

/-- With room left in the packet buffer a message only adds to the bytes taken
for the payload of the rejected header. -/
theorem Stuck.onReceive (h : Stuck s conv [] bad got)
    (hserver : conv &&& 0xffff = serverId.toUInt32) (hne : msg ≠ [])
    (hlen : msg.length ≤ recvBufferSize)
    (hshort : got.length + msg.length < MessageBuffer.bufferSize) :
    ∃ s', s.onReceive serverId (some f) ⟨conv, [msg]⟩ = some s' ∧
      Stuck s' conv [] bad (got ++ msg) := by
  obtain ⟨r, hholds, hhdr, hunread, hused, hcase⟩ := h.buffers
  obtain ⟨-, rfl, hsize⟩ := hcase.resolve_right fun hps => hps.1 rfl
  have hfull : packetFormat.headerLen ≤ r.hdr.length := by
    rw [hhdr, FrameFormat.length_take_headerLen h.bad.1]
  have hstep := Receiver.step_full (F := packetFormat)
    (r := { r with unread := msg, used := msg.length }) (act (some f)) s.members hfull hne
    (by show r.payload.length ≤ r.size; omega)
  -- the payload buffer still has the size of an unused one
  rw [if_neg (by rw [List.length_append]; show ¬ r.size ≤ r.payload.length + msg.length; omega)]
    at hstep
  obtain ⟨s', t, hrun, hrecv, hb, hm⟩ := onReceive_refines hholds h.queue hunread hused hne hlen
    h.kcpConv (by rwa [h.conv])
  rw [Receiver.run_stop _ hstep] at hrun
  obtain rfl := Option.some.inj hrun
  rw [h.conv] at hrecv
  refine ⟨s', hrecv, ⟨⟨_, hb, hhdr, rfl, rfl, Or.inl ⟨rfl, rfl, hsize⟩⟩, h.bad, ?_, ?_, ?_, ?_, ?_⟩⟩
  · rw [hm]
    exact h.queue
  · rw [hm]
    exact h.conv
  · rw [hm]
    exact h.kcpConv
  · rw [hm]
    exact h.place
  · rw [hm]
    exact h.dispatched

/-- Once that payload is complete, the data handler is called with the rejected header. -/
theorem Stuck.onReceive_dispatches (h : Stuck s conv ps bad got)
    (hserver : conv &&& 0xffff = serverId.toUInt32) (hne : msg ≠ [])
    (hlen : msg.length ≤ recvBufferSize)
    (hlong : ps ≠ [] ∨ MessageBuffer.bufferSize ≤ got.length + msg.length) :
    ∃ s', s.onReceive serverId (some f) ⟨conv, [msg]⟩ = some s' ∧
      ∃ d ∈ s'.members.dispatched, d.hdr = bad.take packetFormat.headerLen := by
  obtain ⟨r, hholds, hhdr, hunread, hused, hcase⟩ := h.buffers
  have hfull : packetFormat.headerLen ≤ r.hdr.length := by
    rw [hhdr, FrameFormat.length_take_headerLen h.bad.1]
  have hle : r.payload.length ≤ r.size := hholds.packet.length_le
  -- the message has what is missing of the payload
  have hcomplete : r.size ≤ (r.payload ++ msg).length := by
    rw [List.length_append]
    rcases hcase with ⟨hps, rfl, hsize⟩ | ⟨-, hfull'⟩
    · have := hlong.resolve_left (not_not.mpr hps)
      omega
    · omega
  have hstep := Receiver.step_full (F := packetFormat)
    (r := { r with unread := msg, used := msg.length }) (act (some f)) s.members hfull hne hle
  rw [if_pos hcomplete] at hstep
  obtain ⟨s', t, hrun, hrecv, -, hm⟩ := onReceive_refines hholds h.queue hunread hused hne hlen
    h.kcpConv (by rwa [h.conv])
  rw [h.conv] at hrecv
  refine ⟨s', hrecv, ?_⟩
  rw [hm]
  rw [Receiver.run_succ _ hstep] at hrun
  refine Receiver.run_preserves (P := fun m : SessionMembers =>
    ∃ d ∈ m.dispatched, d.hdr = bad.take packetFormat.headerLen) ?_ hrun ?_
  · rintro m d ⟨d', hmem, hd'⟩
    rw [act_dispatched]
    exact ⟨d', List.mem_append_left _ hmem, hd'⟩
  · rw [Receiver.deliver]
    refine ⟨⟨r.hdr, (r.payload ++ msg).take r.size⟩, ?_, hhdr⟩
    have hlog := act_dispatched (some f) s.members ⟨r.hdr, (r.payload ++ msg).take r.size⟩
    split <;> rename_i heq <;> rw [heq] at hlog <;> rw [hlog] <;> simp

end Steps

/-! ### Any number of messages -/

/-- Where a session is after the messages `hist`. -/
inductive After (f : DataHandler) (s : KcpSession) (conv : UInt32) (hist : List (List Byte)) : Prop
  | serving (ps : List Packet) (rest : List Byte) :
      Serving s conv ps rest → Accepts f [] ps → hist.flatten = Frame.concat ps ++ rest →
      After f s conv hist
  | refused (ps : List Packet) (p : Packet) (more : List Byte) :
      s.members.place ≠ .sessions → s.members.dispatched = (ps ++ [p]).map Frame.toDispatch →
      ¬ Accepts f [] (ps ++ [p]) → hist.flatten = Frame.concat (ps ++ [p]) ++ more →
      After f s conv hist
  | rejected (pre : List (List Byte)) (msg : List Byte) (post : List (List Byte))
      (ps : List Packet) (bad : List Byte) :
      Stuck s conv ps bad post.flatten → hist = pre ++ msg :: post →
      HeaderRejected f (pre ++ [msg]) ps → (∀ qs, ¬ HeaderRejected f pre qs) →
      After f s conv hist

/-- The next message may come after `hist`: where a header was rejected, this was
the first packet and the packet buffer does not get full. -/
def Allowed (f : DataHandler) (hist : List (List Byte)) (msg : List Byte) : Prop :=
  ∀ pre post ps, hist = pre ++ post → HeaderRejected f pre ps →
    ps = [] ∧ post.flatten.length + msg.length < MessageBuffer.bufferSize

section Runs

variable {f : DataHandler} {s : KcpSession} {conv : UInt32} {serverId : UInt16}
  {hist : List (List Byte)} {msg : List Byte}

/-- In all three cases only packets were dispatched so far. -/
theorem After.onlyPackets (h : After f s conv hist) : s.OnlyPackets hist.flatten := by
  cases h with
  | serving ps rest hs _ hflat =>
      exact onlyPackets_of_frames hs.dispatched (hflat ▸ List.prefix_append _ _)
  | refused ps p more _ hd _ hflat =>
      exact onlyPackets_of_frames hd (hflat ▸ List.prefix_append _ _)
  | rejected pre msg post ps bad hs hhist hrej _ =>
      obtain ⟨bad', hflat, -, -⟩ := hrej.append post
      apply onlyPackets_of_frames hs.dispatched
      rw [hhist, List.append_cons, hflat]
      exact List.prefix_append _ _

/-- While packets are served no header was rejected. -/
theorem not_headerRejected_of_incomplete {ps qs : List Packet} {rest : List Byte}
    (hflat : hist.flatten = Frame.concat ps ++ rest) (hinc : packetFormat.Incomplete rest) :
    ¬ HeaderRejected f hist qs := by
  rintro ⟨bad, hflat', hbad, -⟩
  obtain ⟨-, rfl⟩ := FrameFormat.frames_unique (hflat.symm.trans hflat') (Or.inr hinc)
    (Or.inl hbad)
  exact hbad.not_incomplete hinc

/-- Nor before a packet was refused. -/
theorem not_headerRejected_of_refused {ps qs : List Packet} {more : List Byte}
    (hnot : ¬ Accepts f [] ps) (hflat : hist.flatten = Frame.concat ps ++ more) :
    ¬ HeaderRejected f hist qs := by
  rintro ⟨bad, hflat', hbad, hacc⟩
  obtain ⟨ps', t, rfl, ht⟩ := FrameFormat.exists_frames (F := packetFormat) more
  rw [← List.append_assoc, ← Frame.concat_append, hflat'] at hflat
  obtain ⟨rfl, -⟩ := FrameFormat.frames_unique hflat (Or.inl hbad) ht
  exact hnot (accepts_append.mp hacc).1

theorem allowed_of_not_headerRejected (h : ∀ qs, ¬ HeaderRejected f hist qs) :
    Allowed f hist msg := by
  rintro pre post ps rfl hrej
  exact absurd (hrej.append post) (h ps)

/-- After a header was rejected, only the message that completed it matters. -/
theorem allowed_iff_of_rejected {pre post : List (List Byte)} {m : List Byte} {ps : List Packet}
    (hrej : HeaderRejected f (pre ++ [m]) ps) (hfirst : ∀ qs, ¬ HeaderRejected f pre qs) :
    Allowed f (pre ++ m :: post) msg ↔
      ps = [] ∧ post.flatten.length + msg.length < MessageBuffer.bufferSize := by
  constructor
  · intro h
    exact h (pre ++ [m]) post ps (List.append_cons _ _ _) hrej
  · rintro ⟨rfl, hlen⟩ pre' post' ps' hsplit hrej'
    have hps : ps' = [] := by
      apply (hrej'.append post').unique
      rw [← hsplit, List.append_cons]
      exact hrej.append post
    refine ⟨hps, ?_⟩
    rcases List.append_eq_append_iff.mp hsplit with ⟨l, rfl, hl⟩ | ⟨l, rfl, -⟩
    · cases l with
      | nil =>
          rw [List.append_nil] at hrej'
          exact absurd hrej' (hfirst ps')
      | cons m' l =>
          have hpost : post = l ++ post' := (List.cons.inj hl).2
          rw [hpost, List.flatten_append, List.length_append] at hlen
          omega
    · exact absurd (hrej'.append l) (hfirst ps')

/-- A message that may come is received, and leaves the session in one of the cases. -/
theorem After.deliver (h : After f s conv hist) (hserver : conv &&& 0xffff = serverId.toUInt32)
    (hne : msg ≠ []) (hlen : msg.length ≤ recvBufferSize) (hok : Allowed f hist msg) :
    ∃ s', s.deliver serverId (some f) ⟨s.members.sessionId.conv, [msg]⟩ = some s' ∧
      After f s' conv (hist ++ [msg]) := by
  cases h with
  | serving ps rest hs hacc hflat =>
      rw [hs.deliver, hs.conv]
      obtain ⟨r, -, hpend, -⟩ := hs.buffers
      have hnone : ∀ qs, ¬ HeaderRejected f hist qs := fun _ =>
        not_headerRejected_of_incomplete hflat hpend.incomplete
      obtain ⟨qs, t, hl, ht⟩ := FrameFormat.exists_frames (F := packetFormat) (rest ++ msg)
      have hflat' : (hist ++ [msg]).flatten = Frame.concat (ps ++ qs) ++ t := by
        rw [List.flatten_concat, hflat, List.append_assoc, hl, Frame.concat_append,
          List.append_assoc]
      -- the handler accepts every packet that is complete now, or there is a first it refuses
      rcases Run.eachStep_or_exists_first _ _ (ps.map Frame.toDispatch) qs with hqs | ⟨qs₁, p, qs₂, rfl, hqs₁, hp⟩
      · have hacc' : Accepts f [] (ps ++ qs) := accepts_append.mpr ⟨hacc, hqs⟩
        rcases ht with hbad | hinc
        · obtain ⟨s', hrecv, hs'⟩ := hs.onReceive_malformed hserver hne hlen hl hbad hqs
          exact ⟨s', hrecv, .rejected hist msg [] _ t hs' rfl ⟨t, hflat', hbad, hacc'⟩ hnone⟩
        · obtain ⟨s', hrecv, hs'⟩ := hs.onReceive hserver hne hlen hl hinc hqs
          exact ⟨s', hrecv, .serving _ t hs' hacc' hflat'⟩
      · rw [foldl_log, ← List.map_append] at hp
        rw [Frame.concat_append, Frame.concat_cons, List.append_assoc, List.append_assoc] at hl
        obtain ⟨s', hrecv, hplace, hd⟩ := hs.onReceive_refused hserver hne hlen hl hqs₁ hp
        -- what stands behind the refused packet is dropped with the session
        refine ⟨s', hrecv, .refused (ps ++ qs₁) p (Frame.concat qs₂ ++ t) hplace hd ?_ ?_⟩
        · intro hall
          exact hp (accepts_append.mp hall).2.1
        · rw [hflat']
          simp [Frame.concat_append]
  | refused ps p more hplace hd hnot hflat =>
      refine ⟨s, ?_, .refused ps p (more ++ msg) hplace hd hnot ?_⟩
      -- a session that has left the map gets no more messages
      · rw [KcpSession.deliver]
        split
        · contradiction
        · rfl
      · rw [List.flatten_concat, hflat, List.append_assoc]
  | rejected pre m post ps bad hs hhist hrej hfirst =>
      subst hhist
      -- the payload of the rejected header stays incomplete, so nothing is dispatched
      obtain ⟨rfl, hshort⟩ := (allowed_iff_of_rejected hrej hfirst).mp hok
      rw [hs.deliver, hs.conv]
      obtain ⟨s', hrecv, hs'⟩ := hs.onReceive (f := f) hserver hne hlen hshort
      refine ⟨s', hrecv, .rejected pre m (post ++ [msg]) [] bad ?_ (by simp) hrej hfirst⟩
      rwa [List.flatten_concat]

/-- A message that may not come makes the session dispatch something else than a packet. -/
theorem After.deliver_dispatches (h : After f s conv hist)
    (hserver : conv &&& 0xffff = serverId.toUInt32)
    (hne : msg ≠ []) (hlen : msg.length ≤ recvBufferSize) (hnot : ¬ Allowed f hist msg) :
    ∃ s', s.deliver serverId (some f) ⟨s.members.sessionId.conv, [msg]⟩ = some s' ∧
      ∀ received, ¬ s'.OnlyPackets received := by
  cases h with
  | serving ps rest hs _ hflat =>
      obtain ⟨r, -, hpend, -⟩ := hs.buffers
      exact absurd (allowed_of_not_headerRejected fun qs =>
        not_headerRejected_of_incomplete hflat hpend.incomplete) hnot
  | refused ps p more _ _ hrefuse hflat =>
      exact absurd (allowed_of_not_headerRejected fun qs =>
        not_headerRejected_of_refused hrefuse hflat) hnot
  | rejected pre m post ps bad hs hhist hrej hfirst =>
      subst hhist
      rw [allowed_iff_of_rejected hrej hfirst, not_and_or, Nat.not_lt] at hnot
      rw [hs.deliver, hs.conv]
      obtain ⟨s', hrecv, d, hmem, hd⟩ := hs.onReceive_dispatches (f := f) hserver hne hlen hnot
      refine ⟨s', hrecv, fun received honly => ?_⟩
      -- what is dispatched has the header that was rejected
      have hvalid := (honly d hmem).1.2
      rw [hd, hs.bad.2] at hvalid
      cases hvalid

end Runs

/-- The messages received so far, one after another. -/
theorem foldl_hist (hist msgs : List (List Byte)) :
    msgs.foldl (fun hist msg => hist ++ [msg]) hist = hist ++ msgs := by
  induction msgs generalizing hist with
  | nil => exact (List.append_nil hist).symm
  | cons msg msgs ih => rw [List.foldl_cons, ih, List.append_assoc, List.singleton_append]

theorem eachStep_allowed_iff {f : DataHandler} {msgs : List (List Byte)} :
    Run.EachStep (fun hist msg => hist ++ [msg]) (Allowed f) [] msgs ↔
      ∀ pre post ps, msgs = pre ++ post → post ≠ [] → HeaderRejected f pre ps →
        ps = [] ∧ post.flatten.length < MessageBuffer.bufferSize := by
  rw [Run.eachStep_iff_forall_split]
  constructor
  · rintro h pre post ps rfl hne hrej
    obtain ⟨hps, hlen⟩ := h (pre ++ post.dropLast) (post.getLast hne) []
      (by rw [List.append_assoc, List.dropLast_append_getLast]) pre post.dropLast ps
      (by rw [foldl_hist, List.nil_append]) hrej
    refine ⟨hps, ?_⟩
    rwa [← List.length_append, ← List.flatten_concat, List.dropLast_append_getLast] at hlen
  · rintro h hist msg tail rfl pre post ps hsplit hrej
    rw [foldl_hist, List.nil_append] at hsplit
    obtain ⟨hps, hlen⟩ := h pre (post ++ msg :: tail) ps (by rw [hsplit, List.append_assoc])
      (by simp) hrej
    refine ⟨hps, ?_⟩
    rw [List.flatten_append, List.flatten_cons, List.length_append, List.length_append] at hlen
    omega

variable {clientConv serverId : UInt16} {addr : SockAddr} {status : SessionStatus}
  {tick needUpdateTime : Nat}

/-- **When only packets are dispatched.**  A session receives messages of any
content.  Its data handler is called with nothing but packets of the stream, at
any time, if and only if no message comes after one with a rejected header,
unless this is the first header and less than `BUFFER_SIZE` bytes follow. -/
theorem dispatches_only_packets_iff (f : DataHandler) (msgs : List (List Byte))
    (hmsgs : ∀ msg ∈ msgs, msg ≠ [] ∧ msg.length ≤ recvBufferSize) :
    (∀ pre, pre <+: msgs → ∃ s,
      (accepted clientConv serverId addr status tick needUpdateTime).receiveAll serverId (some f)
        pre = some s ∧ s.OnlyPackets pre.flatten) ↔
    ∀ pre post ps, msgs = pre ++ post → post ≠ [] → HeaderRejected f pre ps →
      ps = [] ∧ post.flatten.length < MessageBuffer.bufferSize := by
  have hserver := newConv_and clientConv serverId
  have hexact := Run.forall_prefix_good_iff
    (fun (s : KcpSession) msg =>
      s.deliver serverId (some f) ⟨s.members.sessionId.conv, [msg]⟩)
    (fun hist msg => hist ++ [msg])
    (fun s hist => After f s (SocketServer.newConv clientConv serverId) hist)
    (fun _ msg => msg ≠ [] ∧ msg.length ≤ recvBufferSize) (Allowed f)
    (fun o hist => ∃ s, o = some s ∧ OnlyPackets s hist.flatten)
    (fun s hist h => ⟨s, rfl, h.onlyPackets⟩)
    (fun s hist msg h hmsg hok => h.deliver hserver hmsg.1 hmsg.2 hok)
    (by
      rintro s hist msg h hmsg hnot ⟨s', e, honly⟩
      obtain ⟨s'', e', hbad⟩ := h.deliver_dispatches hserver hmsg.1 hmsg.2 hnot
      obtain rfl := Option.some.inj (e.symm.trans e')
      exact hbad _ honly)
    (s := accepted clientConv serverId addr status tick needUpdateTime) (a := [])
    (.serving [] [] (serving_accepted clientConv serverId addr status tick needUpdateTime)
      trivial rfl)
    (Run.eachStep_iff_forall_mem.mpr hmsgs)
  simp only [foldl_hist, List.nil_append] at hexact
  exact hexact.trans eachStep_allowed_iff

/-- The condition for a first header that announces 65536 bytes, and one more byte. -/
theorem dispatches_only_packets_iff_of_first_header :
    let msgs := [(PacketHeader.mk 65536 5).toBytes, [0]]
    (∀ pre, pre <+: msgs → ∃ s,
      (accepted 1 2 ⟨2, 4000, 0⟩ .connecting 0 0).receiveAll 2 (some fun _ _ _ => true) pre
        = some s ∧ s.OnlyPackets pre.flatten) ↔
    ∀ pre post ps, msgs = pre ++ post → post ≠ [] →
      HeaderRejected (fun _ _ _ => true) pre ps →
      ps = [] ∧ post.flatten.length < MessageBuffer.bufferSize :=
  dispatches_only_packets_iff _ _ (by decide)

/-- A packet without payload, a header with an invalid command, and one byte more:
the handler is called with the invalid command and no payload. -/
theorem rejected_header_dispatched :
    let served := (PacketHeader.mk 0 5).toBytes
    let rejected := (PacketHeader.mk 0 2000).toBytes
    let msgs := [served ++ rejected, [0]]
    ∃ s, (accepted 1 2 ⟨2, 4000, 0⟩ .connecting 0 0).receiveAll 2 (some fun _ _ _ => true) msgs
        = some s ∧
      s.members.dispatched = [⟨served, []⟩, ⟨rejected, []⟩] ∧ ¬ s.OnlyPackets msgs.flatten := by
  intro served rejected msgs
  have hrun : ((accepted 1 2 ⟨2, 4000, 0⟩ .connecting 0 0).receiveAll 2
      (some fun _ _ _ => true) msgs).map (fun s => s.members.dispatched)
        = some [⟨served, []⟩, ⟨rejected, []⟩] := by
    decide +kernel
  obtain ⟨s, hs, hd⟩ := Option.map_eq_some_iff.mp hrun
  refine ⟨s, hs, hd, fun honly => ?_⟩
  have hvalid := (honly ⟨rejected, []⟩ (by rw [hd]; simp)).1.2
  have hinvalid : packetFormat.valid rejected = false := by decide +kernel
  rw [hinvalid] at hvalid
  cases hvalid

end KcpSession

end PCGForUnity
