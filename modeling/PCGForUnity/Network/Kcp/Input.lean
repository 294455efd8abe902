/-
PCGForUnity/Network/Kcp/Input.lean

What `ikcp_input` does with the datagrams of the other end.

* `loop_encode`: a datagram of whole segments is read to its end;
* `hears_segment`: what a segment of the other end does;
* `hears_input`: what a datagram of them does.

Design.  An end sends over one link (`out`) and receives over another (`inc`).  Each segment
that arrives makes steps of both: its `una` and an acknowledgement are answers to what was
sent, its data is what comes.  `Hears` has what one segment changes, as steps of the links;
it composes, so it holds of whole datagrams.

`Arrives` is what a segment must be like: true of the links, and not too old.  A datagram of
another conversation is not read at all, and changes nothing (`input_of_conv_ne`).
-/
import PCGForUnity.Network.Kcp.Receiver

namespace PCGForUnity

namespace IKCPCB

variable (long : LongWidth)

/-! ### Parsing -/

/-- An acknowledgement changes nothing of the sender but `snd_una` and `snd_buf`. -/
theorem sender_acked (kcp : IKCPCB) (seg : IKCPSEG) :
    ∃ una buf nbuf, (kcp.acked long seg).sender = { kcp.sender with una, buf, nbuf } := by
  rw [acked, parseAck]
  split <;> split <;> exact ⟨_, _, _, rfl⟩

/-- What `ikcp_input` has done before it looks at the command. -/
def answered (long : LongWidth) (kcp : IKCPCB) (seg : IKCPSEG) : IKCPCB :=
  (parseUna long { kcp with rmtWnd := seg.wnd } seg.una).shrinkBuf

theorem sender_answered (kcp : IKCPCB) (seg : IKCPSEG) :
    ∃ una buf nbuf, (answered long kcp seg).sender
      = { kcp.sender with una, buf, nbuf, rmtWnd := seg.wnd } := ⟨_, _, _, rfl⟩

/-- The cases of a segment. -/
theorem segment_cases (i : Input) {seg : IKCPSEG}
    (hcmd : seg.cmd = ikcpCmdPush ∨ seg.cmd = ikcpCmdAck ∨ seg.cmd = ikcpCmdWask ∨
      seg.cmd = ikcpCmdWins) :
    (seg.cmd = ikcpCmdPush ∧
        (i.segment long seg).kcp = (answered long i.kcp seg).pushed long seg) ∨
      (seg.cmd = ikcpCmdAck ∧
        (i.segment long seg).kcp = (answered long i.kcp seg).acked long seg) ∨
      ((seg.cmd = ikcpCmdWask ∨ seg.cmd = ikcpCmdWins) ∧
        (i.segment long seg).kcp.sender = (answered long i.kcp seg).sender ∧
        (i.segment long seg).kcp.receiver = (answered long i.kcp seg).receiver) := by
  rcases hcmd with h | h | h | h
  · refine Or.inl ⟨h, ?_⟩
    rw [Input.segment, if_neg (by rw [h]; decide), if_pos h]
    rfl
  · refine Or.inr (Or.inl ⟨h, ?_⟩)
    rw [Input.segment, if_pos h]
    rfl
  · refine Or.inr (Or.inr ⟨Or.inl h, ?_⟩)
    rw [Input.segment, if_neg (by rw [h]; decide), if_neg (by rw [h]; decide), if_pos h]
    exact ⟨rfl, rfl⟩
  · refine Or.inr (Or.inr ⟨Or.inr h, ?_⟩)
    rw [Input.segment, if_neg (by rw [h]; decide), if_neg (by rw [h]; decide),
      if_neg (by rw [h]; decide)]
    exact ⟨rfl, rfl⟩

/-- What a segment never changes of the sender. -/
theorem sender_segment (i : Input) {seg : IKCPSEG}
    (hcmd : seg.cmd = ikcpCmdPush ∨ seg.cmd = ikcpCmdAck ∨ seg.cmd = ikcpCmdWask ∨
      seg.cmd = ikcpCmdWins) :
    ∃ una buf nbuf, (i.segment long seg).kcp.sender
      = { i.kcp.sender with una, buf, nbuf, rmtWnd := seg.wnd } := by
  obtain ⟨una, buf, nbuf, h⟩ := sender_answered long i.kcp seg
  rcases segment_cases long i hcmd with ⟨-, heq⟩ | ⟨-, heq⟩ | ⟨-, heq, -⟩
  · rw [heq, sender_pushed, h]
    exact ⟨_, _, _, rfl⟩
  · obtain ⟨una', buf', nbuf', h'⟩ := sender_acked long (answered long i.kcp seg) seg
    rw [heq, h', h]
    exact ⟨_, _, _, rfl⟩
  · rw [heq, h]
    exact ⟨_, _, _, rfl⟩

/-- **A datagram of whole segments is read to its end.** -/
theorem loop_encode {segs : List IKCPSEG} {i : Input} {fuel : ℕ}
    (hfuel : (segs.flatMap IKCPSEG.encode).length ≤ fuel)
    (hsegs : ∀ seg ∈ segs, seg.conv = i.kcp.conv ∧ seg.Fits ∧
      (seg.cmd = ikcpCmdPush ∨ seg.cmd = ikcpCmdAck ∨ seg.cmd = ikcpCmdWask ∨
        seg.cmd = ikcpCmdWins)) :
    Input.loop long fuel (segs.flatMap IKCPSEG.encode) i
      = (segs.foldl (Input.segment long) i, 0) := by
  induction segs generalizing i fuel with
  | nil =>
      rcases fuel with - | fuel
      · rfl
      · rfl
  | cons seg segs ih =>
      obtain ⟨hconv, hfits, hcmd⟩ := hsegs seg List.mem_cons_self
      have hlen : (seg.encode ++ segs.flatMap IKCPSEG.encode).length
          = ikcpOverheadLen + seg.data.length + (segs.flatMap IKCPSEG.encode).length := by
        rw [List.length_append, IKCPSEG.length_encode]
      rw [List.flatMap_cons] at hfuel ⊢
      have hover : ikcpOverheadLen = 24 := rfl
      rcases fuel with - | fuel
      · omega
      rw [Input.loop, if_neg (by omega), IKCPSEG.decode_encode hfits, IKCPSEG.drop_encode]
      have hdata := hfits.data
      -- none of the three checks turns it away
      have hlegal : ¬ (seg.cmd ≠ ikcpCmdPush ∧ seg.cmd ≠ ikcpCmdAck ∧ seg.cmd ≠ ikcpCmdWask ∧
          seg.cmd ≠ ikcpCmdWins) := by tauto
      have hshort : ¬ ((seg.data ++ segs.flatMap IKCPSEG.encode).length < seg.data.length ∨
          2 ^ 31 ≤ seg.data.length) := by
        rw [List.length_append]
        omega
      dsimp only
      rw [if_neg (not_not.mpr hconv), if_neg hshort, if_neg hlegal, List.take_left, List.drop_left, List.foldl_cons]
      have hfuel' : (segs.flatMap IKCPSEG.encode).length ≤ fuel := by omega
      obtain ⟨_, _, _, hsender⟩ := sender_segment long i hcmd
      refine ih hfuel' fun s hs => ?_
      obtain ⟨hconv', hrest⟩ := hsegs s (List.mem_cons_of_mem _ hs)
      refine ⟨hconv'.trans ?_, hrest⟩
      exact (congrArg Sender.conv hsender).symm

/-- A datagram of another conversation is not read. -/
theorem loop_of_conv_ne {data : List Byte} {i : Input} (fuel : ℕ)
    (hlen : ¬ data.length < ikcpOverheadLen) (hconv : (IKCPSEG.decode data).1.conv ≠ i.kcp.conv) :
    Input.loop long (fuel + 1) data i = (i, -1) := by
  rw [Input.loop, if_neg hlen]
  dsimp only
  rw [if_pos hconv]

theorem input_of_conv_ne {data : List Byte} (kcp : IKCPCB)
    (hdata : data.length < ikcpOverheadLen ∨ (IKCPSEG.decode data).1.conv ≠ kcp.conv) :
    (kcp.input long data).1 = kcp := by
  by_cases hlen : data.length < ikcpOverheadLen
  · rw [input, if_pos hlen]
  · have hloop : Input.loop long data.length data ⟨kcp, false, 0⟩ = (⟨kcp, false, 0⟩, -1) := by
      obtain ⟨fuel, hfuel⟩ : ∃ fuel, data.length = fuel + 1 :=
        Nat.exists_eq_succ_of_ne_zero fun hzero => hlen (by rw [hzero]; exact Nat.succ_pos _)
      rw [hfuel]
      exact loop_of_conv_ne long fuel hlen (hdata.resolve_left hlen)
    rw [input, if_neg hlen, hloop]
    dsimp only
    rw [if_pos (by decide)]

/-! ### What arrives -/

/-- A control block with the link that it sends over and the one that it receives over. -/
structure End where
  kcp : IKCPCB
  out : Link (Fragment Byte)
  inc : Link (Fragment Byte)

/-- The block is the end of both links. -/
structure End.Holds (e : End) (delivered : List (Fragment Byte)) : Prop where
  out : e.out.WF
  inc : e.inc.WF
  sends : Sends e.kcp.sender e.out
  receives : Receives e.kcp.receiver e.inc delivered
  settled : Settled e.kcp.receiver
  ahead : e.inc.sent.length ≤ e.inc.next + 2 ^ 17

/-- A segment of the other end that is true of the links and not too old.  It answers only
for what was sent before `mark`. -/
structure Arrives (e : End) (mark : ℕ) (seg : IKCPSEG) : Prop where
  conv : seg.conv = e.kcp.conv
  fits : seg.Fits
  cmd : seg.cmd = ikcpCmdPush ∨ seg.cmd = ikcpCmdAck ∨ seg.cmd = ikcpCmdWask ∨
    seg.cmd = ikcpCmdWins
  una : ∃ u, seg.una = UInt32.ofNat u ∧ (∀ k < u, e.out.Has k) ∧ u ≤ mark ∧
    e.out.sent.length ≤ u + 2 ^ 31
  ack : seg.cmd = ikcpCmdAck → ∃ i, seg.sn = UInt32.ofNat i ∧ e.out.Has i ∧ i < mark ∧
    e.out.sent.length ≤ i + 2 ^ 31
  push : seg.cmd = ikcpCmdPush → ∃ k, seg.sn = UInt32.ofNat k ∧
    e.inc.sent[k]? = some seg.fragment ∧ e.inc.sent.length ≤ k + (2 ^ 29 + 2 ^ 16)

/-- What a segment, or some, may change. -/
structure Hears (mark : ℕ) (delivered : List (Fragment Byte)) (e e' : End) : Prop where
  out : Relation.ReflTransGen Link.Step e.out e'.out
  out_sent : e'.out.sent = e.out.sent
  out_next : e'.out.next = e.out.next
  out_early : e'.out.early = e.out.early
  kept : ∀ k ∈ e.out.pending, mark ≤ k → k ∈ e'.out.pending
  inc : Relation.ReflTransGen Link.Step e.inc e'.inc
  inc_sent : e'.inc.sent = e.inc.sent
  inc_pending : e'.inc.pending = e.inc.pending
  holds : e'.Holds delivered
  sender : ∃ una buf nbuf rmtWnd,
    e'.kcp.sender = { e.kcp.sender with una, buf, nbuf, rmtWnd }
  acks : ∀ a ∈ e'.kcp.acklist, a ∈ e.kcp.acklist ∨ ∃ k, a.1 = UInt32.ofNat k ∧ e'.inc.Has k ∧
    e.inc.sent.length ≤ k + (2 ^ 29 + 2 ^ 16)

variable {e e' e'' : End} {mark : ℕ} {delivered : List (Fragment Byte)} {seg : IKCPSEG}

theorem Hears.trans (h : Hears mark delivered e e') (h' : Hears mark delivered e' e'') :
    Hears mark delivered e e'' where
  out := h.out.trans h'.out
  out_sent := h'.out_sent.trans h.out_sent
  out_next := h'.out_next.trans h.out_next
  out_early := h'.out_early.trans h.out_early
  kept := fun k hk hmark => h'.kept k (h.kept k hk hmark) hmark
  inc := h.inc.trans h'.inc
  inc_sent := h'.inc_sent.trans h.inc_sent
  inc_pending := h'.inc_pending.trans h.inc_pending
  holds := h'.holds
  sender := by
    obtain ⟨_, _, _, _, h⟩ := h.sender
    obtain ⟨una, buf, nbuf, rmtWnd, h'⟩ := h'.sender
    exact ⟨una, buf, nbuf, rmtWnd, by rw [h', h]⟩
  acks := by
    intro a ha
    rcases h'.acks a ha with ha | ⟨k, hk, hhas, hle⟩
    · refine (h.acks a ha).imp_right fun ⟨k, hk, hhas, hle⟩ => ⟨k, hk, ?_, hle⟩
      exact (h.holds.inc.steps h'.inc).2.has k hhas
    · rw [h.inc_sent] at hle
      exact Or.inr ⟨k, hk, hhas, hle⟩

/-- What was true of the links when a segment came stays true. -/
theorem Arrives.of_hears (hseg : Arrives e mark seg) (hholds : e.Holds delivered)
    (h : Hears mark delivered e e') : Arrives e' mark seg where
  conv := by
    obtain ⟨_, _, _, _, hsender⟩ := h.sender
    exact hseg.conv.trans (congrArg Sender.conv hsender).symm
  fits := hseg.fits
  cmd := hseg.cmd
  una := by
    obtain ⟨u, hu, hhas, hmark, hfar⟩ := hseg.una
    refine ⟨u, hu, fun k hk => ?_, hmark, by rw [h.out_sent]; exact hfar⟩
    exact (hholds.out.steps h.out).2.has k (hhas k hk)
  ack := by
    intro hcmd
    obtain ⟨i, hi, hhas, hmark, hfar⟩ := hseg.ack hcmd
    refine ⟨i, hi, ?_, hmark, by rw [h.out_sent]; exact hfar⟩
    exact (hholds.out.steps h.out).2.has i hhas
  push := by
    intro hcmd
    obtain ⟨k, hk, hsent, hle⟩ := hseg.push hcmd
    exact ⟨k, hk, by rw [h.inc_sent]; exact hsent, by rw [h.inc_sent]; exact hle⟩

/-- Changes of members that neither half has. -/
theorem hears_of_eq (h : e.Holds delivered) {kcp : IKCPCB} (hsender : kcp.sender = e.kcp.sender)
    (hreceiver : kcp.receiver = e.kcp.receiver) :
    Hears mark delivered e { e with kcp } where
  out := Relation.ReflTransGen.refl
  out_sent := rfl
  out_next := rfl
  out_early := rfl
  kept := fun _ hk _ => hk
  inc := Relation.ReflTransGen.refl
  inc_sent := rfl
  inc_pending := rfl
  holds := ⟨h.out, h.inc, by rw [hsender]; exact h.sends, by rw [hreceiver]; exact h.receives,
    by rw [hreceiver]; exact h.settled, h.ahead⟩
  sender := ⟨e.kcp.sndUna, e.kcp.sender.buf, e.kcp.nsndBuf, e.kcp.rmtWnd, hsender⟩
  acks := fun a ha => Or.inl (by
    have hacks : kcp.acklist = e.kcp.acklist := congrArg Receiver.acklist hreceiver
    rw [← hacks]
    exact ha)

/-- The sender gives up what has arrived. -/
theorem hears_acknowledge (h : e.Holds delivered) {kcp : IKCPCB} (keep : ℕ → Bool)
    (hkeep : ∀ k ∈ e.out.pending, keep k = false → e.out.Has k ∧ k < mark)
    (hsends : Sends kcp.sender { e.out with pending := e.out.pending.filter keep })
    (hreceiver : kcp.receiver = e.kcp.receiver)
    (hsender : ∃ una buf nbuf rmtWnd, kcp.sender = { e.kcp.sender with una, buf, nbuf, rmtWnd }) :
    Hears mark delivered e
      ⟨kcp, { e.out with pending := e.out.pending.filter keep }, e.inc⟩ := by
  have hstep := Link.Step.acknowledge e.out keep fun k hk hnot => (hkeep k hk hnot).1
  refine ⟨Relation.ReflTransGen.single hstep, rfl, rfl, rfl, fun k hk hmark => ?_,
    Relation.ReflTransGen.refl, rfl, rfl, ⟨h.out.step hstep, h.inc, hsends, ?_, ?_, h.ahead⟩,
    hsender, fun a ha => Or.inl ?_⟩
  · refine List.mem_filter.mpr ⟨hk, ?_⟩
    by_contra hnot
    have := (hkeep k hk (Bool.eq_false_iff.mpr hnot)).2
    omega
  · rw [hreceiver]
    exact h.receives
  · rw [hreceiver]
    exact h.settled
  · have hacks : kcp.acklist = e.kcp.acklist := congrArg Receiver.acklist hreceiver
    rw [← hacks]
    exact ha

theorem hears_answered (h : e.Holds delivered) (hmark : mark ≤ e.out.sent.length)
    (hseg : Arrives e mark seg) :
    ∃ e', e'.kcp = answered .bits32 e.kcp seg ∧ Hears mark delivered e e' := by
  obtain ⟨u, hu, hhas, hle, hfar⟩ := hseg.una
  refine ⟨⟨answered .bits32 e.kcp seg, _, e.inc⟩, rfl,
    hears_acknowledge h (fun k => decide (u ≤ k)) ?_ ?_ rfl ⟨_, _, _, _, rfl⟩⟩
  · intro k _ hnot
    have hlt : k < u := Nat.not_le.mp (of_decide_eq_false hnot)
    exact ⟨hhas k hlt, hlt.trans_le hle⟩
  · rw [answered, hu]
    have hs := h.sends
    exact @sends_parseUna { e.kcp with rmtWnd := seg.wnd } _
      ⟨hs.nxt, hs.una, hs.buf, hs.window, hseg.fits.wnd⟩ h.out _ (hle.trans hmark) hfar

/-- An acknowledgement gives up the segment that it names. -/
theorem hears_acked (h : e.Holds delivered) (hmark : mark ≤ e.out.sent.length)
    (hseg : Arrives e mark seg) (hcmd : seg.cmd = ikcpCmdAck) :
    ∃ e', e'.kcp = e.kcp.acked .bits32 seg ∧ Hears mark delivered e e' ∧
      ∀ k ∈ e'.out.pending, seg.sn ≠ UInt32.ofNat k := by
  obtain ⟨i, hi, hhas, hlt, hfar⟩ := hseg.ack hcmd
  refine ⟨⟨e.kcp.acked .bits32 seg, _, e.inc⟩, rfl,
    hears_acknowledge h (fun k => decide (k ≠ i)) ?_ ?_ ?_ ?_, ?_⟩
  · intro k _ hnot
    have hk : k = i := not_not.mp (of_decide_eq_false hnot)
    rw [hk]
    exact ⟨hhas, hlt⟩
  · rw [acked, hi]
    refine sends_parseAck ?_ h.out (hlt.trans_le hmark) hfar
    split
    · exact h.sends
    · exact h.sends
  · exact receiver_acked _ _ _
  · obtain ⟨una, buf, nbuf, heq⟩ := sender_acked .bits32 e.kcp seg
    exact ⟨una, buf, nbuf, e.kcp.rmtWnd, heq⟩
  · intro k hk heq
    obtain ⟨hmem, hne⟩ := List.mem_filter.mp hk
    have hnear := h.sends.lt_of_mem h.out hmem
    rw [hi, Serial.ofNat_inj (by omega) (by omega)] at heq
    exact of_decide_eq_true hne heq.symm

theorem hears_pushed (h : e.Holds delivered) (hseg : Arrives e mark seg)
    (hcmd : seg.cmd = ikcpCmdPush) :
    ∃ e', e'.kcp = e.kcp.pushed .bits32 seg ∧ Hears mark delivered e e' := by
  obtain ⟨k, hk, hsent, hle⟩ := hseg.push hcmd
  have hlt : k < e.inc.sent.length := (List.getElem?_eq_some_iff.mp hsent).1
  have hahead := h.ahead
  have hnext := h.inc.next_le
  obtain ⟨inc', hsteps, hsame, hpending, hrec, hset, hacks⟩ :=
    receives_pushed h.receives h.settled h.inc hk hsent (by omega)
  have hinc := h.inc.steps hsteps
  refine ⟨⟨e.kcp.pushed .bits32 seg, e.out, inc'⟩, rfl, Relation.ReflTransGen.refl, rfl, rfl, rfl,
    fun _ hk _ => hk, hsteps, hsame, hpending,
    ⟨h.out, hinc.1, ?_, hrec, hset, ?_⟩, ?_, fun a ha => ?_⟩
  · rw [sender_pushed]
    exact h.sends
  · have := hinc.2.next
    show inc'.sent.length ≤ inc'.next + 2 ^ 17
    rw [hsame]
    omega
  · exact ⟨e.kcp.sndUna, e.kcp.sender.buf, e.kcp.nsndBuf, e.kcp.rmtWnd, sender_pushed _ _ _⟩
  · rcases hacks with heq | ⟨heq, hhas⟩
    · exact Or.inl (heq ▸ ha)
    · rw [heq] at ha
      rcases List.mem_append.mp ha with ha | ha
      · exact Or.inl ha
      · rw [List.mem_singleton.mp ha]
        exact Or.inr ⟨k, hk, hhas, hle⟩

/-- **What a segment of the other end does.** -/
theorem hears_segment {i : Input} (hi : i.kcp = e.kcp) (h : e.Holds delivered)
    (hmark : mark ≤ e.out.sent.length) (hseg : Arrives e mark seg) :
    ∃ e', e'.kcp = (i.segment .bits32 seg).kcp ∧ Hears mark delivered e e' := by
  obtain ⟨e₁, hkcp, hhears⟩ := hears_answered h hmark hseg
  have hseg₁ := hseg.of_hears h hhears
  have hmark₁ : mark ≤ e₁.out.sent.length := by
    rw [hhears.out_sent]
    exact hmark
  rw [← hi] at hkcp
  rcases segment_cases .bits32 i hseg.cmd with ⟨hcmd, heq⟩ | ⟨hcmd, heq⟩ | ⟨-, hsender, hreceiver⟩
  · obtain ⟨e', he', hhears'⟩ := hears_pushed hhears.holds hseg₁ hcmd
    exact ⟨e', by rw [he', heq, hkcp], hhears.trans hhears'⟩
  · obtain ⟨e', he', hhears', -⟩ := hears_acked hhears.holds hmark₁ hseg₁ hcmd
    exact ⟨e', by rw [he', heq, hkcp], hhears.trans hhears'⟩
  · rw [← hkcp] at hsender hreceiver
    exact ⟨_, rfl, hhears.trans (hears_of_eq hhears.holds hsender hreceiver)⟩

theorem Hears.refl (h : e.Holds delivered) : Hears mark delivered e e := hears_of_eq h rfl rfl

theorem hears_foldl {segs : List IKCPSEG} {i : Input} (hi : i.kcp = e.kcp) (h : e.Holds delivered)
    (hmark : mark ≤ e.out.sent.length) (hsegs : ∀ seg ∈ segs, Arrives e mark seg) :
    ∃ e', e'.kcp = (segs.foldl (Input.segment .bits32) i).kcp ∧ Hears mark delivered e e' := by
  induction segs generalizing e i with
  | nil => exact ⟨e, hi.symm, Hears.refl h⟩
  | cons seg segs ih =>
      obtain ⟨e₁, he₁, hhears⟩ := hears_segment hi h hmark (hsegs seg List.mem_cons_self)
      obtain ⟨e', he', hhears'⟩ := ih he₁.symm hhears.holds (by rw [hhears.out_sent]; exact hmark)
        fun s hs => (hsegs s (List.mem_cons_of_mem _ hs)).of_hears h hhears
      exact ⟨e', he', hhears.trans hhears'⟩

/-- **What a datagram of the other end does.** -/
theorem hears_input (h : e.Holds delivered) (hmark : mark ≤ e.out.sent.length)
    {data : List Byte} (hdata : Writes (Arrives e mark) data) :
    ∃ e', e'.kcp = (e.kcp.input .bits32 data).1 ∧ Hears mark delivered e e' := by
  rw [input]
  split
  · exact ⟨e, rfl, Hears.refl h⟩
  obtain ⟨segs, rfl, hsegs⟩ := hdata
  rw [loop_encode .bits32 (Nat.le_refl _) fun seg hseg =>
    ⟨(hsegs seg hseg).conv, (hsegs seg hseg).fits, (hsegs seg hseg).cmd⟩]
  dsimp only
  rw [if_neg (not_not.mpr rfl)]
  obtain ⟨e₁, he₁, hhears⟩ := hears_foldl (i := ⟨e.kcp, false, 0⟩) rfl h hmark hsegs
  obtain ⟨hsender, hreceiver⟩ := parts_finish .bits32
    (segs.foldl (Input.segment .bits32) ⟨e.kcp, false, 0⟩) e.kcp.sndUna
  rw [← he₁] at hsender hreceiver
  exact ⟨_, rfl, hhears.trans (hears_of_eq hhears.holds hsender hreceiver)⟩

end IKCPCB

end PCGForUnity
