/-
PCGForUnity/Network/Kcp/Recovery.lean

What one call of a control block can be made to do.  A flush at a time that suits it sends
the first segment of `snd_buf`, asks for the window when that is closed, and tells what it
was asked; the datagram, once read, leaves its mark at the other end.

* `acks_input`: a segment of data that is not ahead is acknowledged, new or not;
* `hears_input_ack`: what is acknowledged is given up;
* a datagram that tells a window opens it.

Design.  These are statements about single calls, the bricks of the argument that a
connection can always make progress (`Progress`).  `ikcp_update` flushes if it is called
late enough, and there is such a time less than half the range of the clock ahead, so the
calls are ones that a program can make.  `Legal` is a segment that `ikcp_input` reads, and
a datagram is written in one way only (`flatMap_encode_inj`).
-/
import PCGForUnity.Network.Kcp.Flush
import PCGForUnity.Network.Kcp.Calls

namespace PCGForUnity

/-- **A datagram is written in one way only.** -/
theorem IKCPSEG.flatMap_encode_inj {segs segs' : List IKCPSEG}
    (h : segs.flatMap encode = segs'.flatMap encode) (hsegs : ∀ seg ∈ segs, seg.Fits)
    (hsegs' : ∀ seg ∈ segs', seg.Fits) : segs = segs' := by
  induction segs generalizing segs' with
  | nil => exact (IKCPCB.Output.flatMap_encode_eq_nil h.symm).symm
  | cons seg segs ih =>
      rcases segs' with - | ⟨seg', segs'⟩
      · exact IKCPCB.Output.flatMap_encode_eq_nil h
      rw [List.flatMap_cons, List.flatMap_cons] at h
      have hread := congrArg decode h
      have hbehind := congrArg (List.drop ikcpOverheadLen) h
      rw [decode_encode (hsegs seg List.mem_cons_self),
        decode_encode (hsegs' seg' List.mem_cons_self)] at hread
      rw [drop_encode, drop_encode] at hbehind
      obtain ⟨hheader, hlen⟩ := Prod.mk.inj hread
      obtain ⟨hdata, hrest⟩ := List.append_inj hbehind hlen
      have hseg : seg = seg' := by
        rcases seg with ⟨_, _, _, _, _, _, _, _⟩
        rcases seg' with ⟨_, _, _, _, _, _, _, _⟩
        simp only [mk.injEq] at hheader hdata ⊢
        exact ⟨hheader.1, hheader.2.1, hheader.2.2.1, hheader.2.2.2.1, hheader.2.2.2.2.1,
          hheader.2.2.2.2.2.1, hheader.2.2.2.2.2.2.1, hdata⟩
      rw [hseg, ih hrest (fun s hs => hsegs s (List.mem_cons_of_mem _ hs))
        fun s hs => hsegs' s (List.mem_cons_of_mem _ hs)]

namespace IKCPCB

variable {long : LongWidth} {kcp : IKCPCB}

/-! ### The bits of `probe` -/

theorem or_and (a b c : UInt32) : (a ||| b) &&& c = a &&& c ||| b &&& c := by
  apply UInt32.eq_of_toBitVec_eq
  ext i hi
  simp [Bool.and_or_distrib_right]

/-- `probe` has the bit. -/
def Asks (ask : UInt32) (kcp : IKCPCB) : Prop := kcp.probe &&& ask ≠ 0

theorem Asks.or {ask : UInt32} (h : kcp.Asks ask) (more : UInt32) :
    Asks ask { kcp with probe := kcp.probe ||| more } := by
  show (kcp.probe ||| more) &&& ask ≠ 0
  rw [or_and]
  intro hzero
  exact h (UInt32.or_eq_zero_iff.mp hzero).1

theorem asks_or {ask : UInt32} (hask : ask ≠ 0) :
    Asks ask { kcp with probe := kcp.probe ||| ask } := by
  show (kcp.probe ||| ask) &&& ask ≠ 0
  rw [or_and, UInt32.and_self]
  intro hzero
  exact hask (UInt32.or_eq_zero_iff.mp hzero).2

theorem probe_moveAvailable (kcp : IKCPCB) (segs : List IKCPSEG) :
    (kcp.moveAvailable segs).probe = kcp.probe := by
  induction segs generalizing kcp with
  | nil => rfl
  | cons seg segs ih =>
      rw [moveAvailable]
      split
      · exact ih _
      · rfl

theorem probe_pushed (kcp : IKCPCB) (seg : IKCPSEG) :
    (kcp.pushed long seg).probe = kcp.probe := by
  have hparse (k : IKCPCB) : (k.parseData long seg).probe = k.probe := by
    rw [parseData]
    split
    · rfl
    · refine (probe_moveAvailable _ _).trans ?_
      split <;> rfl
  rw [pushed]
  split_ifs
  · exact hparse _
  · rfl
  · rfl

theorem probe_acked (kcp : IKCPCB) (seg : IKCPSEG) : (kcp.acked long seg).probe = kcp.probe := by
  have hparse (k : IKCPCB) : (k.parseAck long seg.sn).probe = k.probe := by
    rw [parseAck]
    split <;> rfl
  simp only [acked]
  split
  · exact hparse _
  · exact hparse _

/-- What the other end asks for is not forgotten before a flush. -/
theorem Asks.segment {i : Input} {ask : UInt32} (h : i.kcp.Asks ask) (seg : IKCPSEG) :
    (i.segment long seg).kcp.Asks ask := by
  rw [Input.segment]
  by_cases hack : seg.cmd = ikcpCmdAck
  · rw [if_pos hack]
    show (acked long (answered long i.kcp seg) seg).probe &&& ask ≠ 0
    rw [probe_acked]
    exact h
  · rw [if_neg hack]
    by_cases hpush : seg.cmd = ikcpCmdPush
    · rw [if_pos hpush]
      show (pushed long (answered long i.kcp seg) seg).probe &&& ask ≠ 0
      rw [probe_pushed]
      exact h
    · rw [if_neg hpush]
      by_cases hwask : seg.cmd = ikcpCmdWask
      · rw [if_pos hwask]
        exact h.or ikcpAskTell
      · rw [if_neg hwask]
        exact h

theorem Asks.foldl {ask : UInt32} (segs : List IKCPSEG) {i : Input} (h : i.kcp.Asks ask) :
    (segs.foldl (Input.segment long) i).kcp.Asks ask := by
  induction segs generalizing i with
  | nil => exact h
  | cons seg segs ih => exact ih (h.segment seg)

theorem Asks.recv {ask : UInt32} (h : kcp.Asks ask) (len : ℤ) : (kcp.recv len).1.Asks ask := by
  have hmoved (k : IKCPCB) (hk : k.Asks ask) : (k.moveAvailable k.rcvBuf).Asks ask := by
    rw [Asks, probe_moveAvailable]
    exact hk
  have htold (k : IKCPCB) (hk : k.Asks ask) (recover : Bool) : (k.tellRoom recover).Asks ask := by
    rw [tellRoom]
    split
    · exact hk.or _
    · exact hk
  rw [IKCPCB.recv]
  split_ifs
  · exact h
  · exact h
  · exact h
  · exact htold _ (hmoved kcp h) _
  · exact htold _ (hmoved kcp.deleteFirst h) _

/-! ### Times -/

/-- Where the next flush is less than 10 seconds away, it is due 20 seconds later. -/
theorem slap_later {t : UInt32} (h : ¬ (kcp.slap .bits32 t).2 ≥ 0) :
    (kcp.slap .bits32 (t + 20000)).2 ≥ 0 := by
  have hlater (v : UInt32) (hv : v.toInt32 < 0) (hge : ¬ v.toInt32 < -10000) :
      (v + 20000).toInt32 ≥ 10000 := by
    rw [Int32.lt_iff_toInt_lt] at hv hge
    rw [ge_iff_le, Int32.le_iff_toInt_le]
    have hzero : (0 : Int32).toInt = 0 := rfl
    have hten : (-10000 : Int32).toInt = -10000 := rfl
    have htwenty : (10000 : Int32).toInt = 10000 := rfl
    have hbefore := Serial.signed_eq v
    have hafter := Serial.signed_eq (v + 20000)
    rw [Serial.signed] at hbefore hafter
    rw [UInt32.toNat_add, show (20000 : UInt32).toNat = 20000 from rfl] at hafter
    have := v.toNat_lt
    split at hbefore <;> split at hafter <;> omega
  simp only [slap, ofInt_itimediff] at h ⊢
  by_cases hfirst : kcp.updated = 0
  · simp only [if_pos hfirst, UInt32.sub_self]
    rw [if_neg (by decide)]
    show (0 : Int32) ≥ 0
    decide
  simp only [if_neg hfirst] at h ⊢
  split at h
  · exact absurd (show (0 : Int32) ≥ 0 by decide) h
  · rename_i hnear
    rw [not_or] at hnear
    have hge := hlater (t - kcp.tsFlush) (Int32.not_le.mp h) hnear.2
    rw [show t - kcp.tsFlush + 20000 = t + 20000 - kcp.tsFlush by
      rw [UInt32.sub_eq_add_neg, UInt32.sub_eq_add_neg, UInt32.add_assoc,
        UInt32.add_comm (-_), ← UInt32.add_assoc]] at hge
    rw [if_pos (Or.inl hge)]
    show (0 : Int32) ≥ 0
    decide

/-- At some time that is not before `t` an update flushes. -/
theorem exists_flush (kcp : IKCPCB) (t : UInt32) :
    ∃ current updated tsFlush, updated ≠ 0 ∧ itimediff .bits32 current t ≥ 0 ∧
      kcp.update .bits32 current = flush .bits32 { kcp with current, updated, tsFlush } := by
  have hupdated : (if kcp.updated = 0 then (1 : UInt32) else kcp.updated) ≠ 0 := by
    split
    · decide
    · assumption
  have hflush (current : UInt32) (hslap : (kcp.slap .bits32 current).2 ≥ 0) :
      ∃ tsFlush, kcp.update .bits32 current = flush .bits32 { kcp with
        current, updated := if kcp.updated = 0 then 1 else kcp.updated, tsFlush } := by
    rw [update, if_pos hslap]
    exact ⟨_, rfl⟩
  have hself : itimediff .bits32 t t ≥ 0 := by
    show Serial.signed (t - t) ≥ 0
    rw [UInt32.sub_self]
    decide
  by_cases hslap : (kcp.slap .bits32 t).2 ≥ 0
  · obtain ⟨tsFlush, h⟩ := hflush t hslap
    exact ⟨t, _, tsFlush, hupdated, hself, h⟩
  · -- the flush is less than 10 seconds away: a call 20 seconds later does it
    obtain ⟨tsFlush, h⟩ := hflush (t + 20000) (slap_later hslap)
    refine ⟨t + 20000, _, tsFlush, hupdated, ?_, h⟩
    show Serial.signed (t + 20000 - t) ≥ 0
    rw [UInt32.add_comm, UInt32.add_sub_cancel]
    decide

/-! ### A flush -/

theorem sender_flush_eq (h : kcp.updated ≠ 0) :
    (kcp.flush long).1.sender = (moved long kcp).sender := by
  simp only [flush, if_neg h, sender_updateCwnd]
  simp only [sender, fixed_flushSegments]
  rfl

theorem moved_eq (long : LongWidth) (kcp : IKCPCB) :
    ∃ sndQueue sndBuf nsndQue nsndBuf sndNxt,
      moved long kcp = { updateProbe long { kcp with acklist := [] } with
        probe := 0, sndQueue, sndBuf, nsndQue, nsndBuf, sndNxt } :=
  moveToBuf_eq long _ _ _ _

theorem sndBuf_moveToBuf (wnd cwnd : UInt32) (kcp : IKCPCB) (fs : List (Fragment Byte)) :
    kcp.sndBuf <+: (moveToBuf long wnd cwnd kcp fs).sndBuf := by
  induction fs generalizing kcp with
  | nil => exact List.prefix_rfl
  | cons f fs ih =>
      rw [moveToBuf]
      split
      · have hmore := ih { kcp with
          nsndQue := kcp.nsndQue - 1
          nsndBuf := kcp.nsndBuf + 1
          sndBuf := kcp.sndBuf ++ [kcp.newSegment wnd f]
          sndNxt := kcp.sndNxt + 1 }
        exact List.IsPrefix.trans (List.prefix_append kcp.sndBuf [kcp.newSegment wnd f]) hmore
      · exact List.prefix_rfl

theorem sndBuf_moveToBuf_ne_nil {cwnd : UInt32} (wnd : UInt32) {fs : List (Fragment Byte)}
    (hfs : fs ≠ []) (hopen : itimediff long kcp.sndNxt (kcp.sndUna + cwnd) < 0) :
    (moveToBuf long wnd cwnd kcp fs).sndBuf ≠ [] := by
  obtain ⟨f, fs, rfl⟩ := List.exists_cons_of_ne_nil hfs
  have hmore := @sndBuf_moveToBuf long wnd cwnd { kcp with
    nsndQue := kcp.nsndQue - 1
    nsndBuf := kcp.nsndBuf + 1
    sndBuf := kcp.sndBuf ++ [kcp.newSegment wnd f]
    sndNxt := kcp.sndNxt + 1 } fs
  rw [moveToBuf, if_pos hopen]
  intro hnil
  rw [hnil] at hmore
  exact List.append_ne_nil_of_right_ne_nil _ (List.cons_ne_nil _ _) (List.prefix_nil.mp hmore)

theorem sndBuf_moved (long : LongWidth) (kcp : IKCPCB) :
    kcp.sndBuf <+: (moved long kcp).sndBuf := by
  have h := @sndBuf_moveToBuf long kcp.wndUnused
    (updateProbe long { kcp with acklist := [] }).sendWindow
    { updateProbe long { kcp with acklist := [] } with probe := 0 } kcp.sndQueue
  exact h

/-- What is put out lies in one of the datagrams. -/
theorem exists_datagram (h : kcp.updated ≠ 0) {seg : IKCPSEG} (hseg : seg ∈ kcp.puts long) :
    ∃ group : List IKCPSEG, group.flatMap IKCPSEG.encode ∈ (kcp.flush long).2 ∧ seg ∈ group ∧
      ∀ s ∈ group, s ∈ kcp.puts long := by
  obtain ⟨o, hflush, hof, hempty⟩ := @exists_flush_output long _ h
  obtain ⟨groups, hgroups, hflatten⟩ := hof.exists_groups hempty
  have hdatagrams := hflush.trans hgroups
  rw [← hflatten] at hseg
  obtain ⟨group, hgroup, hmem⟩ := List.mem_flatten.mp hseg
  refine ⟨group, ?_, hmem, fun s hs => ?_⟩
  · rw [hdatagrams]
    exact List.mem_map_of_mem hgroup
  · rw [← hflatten]
    exact List.mem_flatten.mpr ⟨group, hgroup, hs⟩

/-- What is put out is what `Put` says, and has the window of this flush. -/
theorem put_of_mem_puts (h : kcp.updated ≠ 0) {seg : IKCPSEG} (hseg : seg ∈ kcp.puts long) :
    Put kcp (kcp.flush long).1.sender.buf seg ∧ seg.wnd = kcp.wndUnused := by
  have hprobe {ask : UInt32} {cmd : ℕ} {last : UInt32 × UInt32}
      (hmem : seg ∈ (updateProbe long { kcp with acklist := [] }).probes ask cmd last) :
      seg = kcp.control cmd last := by
    rw [probes] at hmem
    split at hmem
    · exact List.mem_singleton.mp hmem
    · exact absurd hmem List.not_mem_nil
  rw [puts] at hseg
  rcases List.mem_append.mp hseg with hseg | hseg
  · rcases List.mem_append.mp hseg with hseg | hseg
    · rcases List.mem_append.mp hseg with hseg | hseg
      · obtain ⟨ack, hack, rfl⟩ := List.mem_map.mp hseg
        exact ⟨Put.ack hack, rfl⟩
      · rw [hprobe hseg]
        exact ⟨Put.ask _, rfl⟩
    · rw [hprobe hseg]
      exact ⟨Put.tell _, rfl⟩
  · obtain ⟨s, hs, rfl⟩ := List.mem_map.mp hseg
    have hmem : s.fixed ∈ (kcp.flush long).1.sender.buf := by
      rw [sender_flush_eq h]
      exact List.mem_map_of_mem (List.mem_of_mem_filter hs)
    have hsame : (moved long kcp).current = kcp.current ∧ (moved long kcp).rcvNxt = kcp.rcvNxt := by
      obtain ⟨_, _, _, _, _, heq⟩ := moved_eq long kcp
      rw [heq]
      exact ⟨rfl, rfl⟩
    have hput := @Put.push kcp _ _ hmem
    rw [stamped, hsame.1, hsame.2]
    exact ⟨hput, rfl⟩

/-- A flush sends the first segment of `snd_buf` when its time has come. -/
theorem head_mem_puts {seg : SndSeg} {segs : List SndSeg} (hbuf : kcp.sndBuf = seg :: segs)
    (htime : itimediff long kcp.current seg.resendts ≥ 0) :
    ∃ s ∈ kcp.puts long, s.cmd = seg.cmd ∧ s.sn = seg.sn := by
  have hmem : seg ∈ (moved long kcp).sndBuf := by
    refine (sndBuf_moved long kcp).subset ?_
    rw [hbuf]
    exact List.mem_cons_self
  have hdue : (moved long kcp).Due long kcp.resent seg := by
    obtain ⟨_, _, _, _, _, heq⟩ := moved_eq long kcp
    rw [heq]
    exact Or.inr (Or.inl htime)
  refine ⟨(moved long kcp).stamped kcp.wndUnused seg, ?_, rfl, rfl⟩
  refine List.mem_append_right _ (List.mem_map_of_mem ?_)
  exact List.mem_filter.mpr ⟨hmem, decide_eq_true hdue⟩

theorem ack_mem_puts {ack : UInt32 × UInt32} (h : ack ∈ kcp.acklist) :
    kcp.control ikcpCmdAck ack ∈ kcp.puts long :=
  List.mem_append_left _ (List.mem_append_left _ (List.mem_append_left _ (List.mem_map_of_mem h)))

theorem probes_of_asks {ask : UInt32} (h : kcp.Asks ask) (cmd : ℕ) (last : UInt32 × UInt32) :
    kcp.probes ask cmd last = [kcp.control cmd last] := if_pos h

theorem probe_updateProbe (long : LongWidth) (kcp : IKCPCB) :
    (updateProbe long kcp).probe = kcp.probe ∨
      (updateProbe long kcp).probe = kcp.probe ||| ikcpAskSend := by
  show (kcp.nextProbe long).2.2 = _ ∨ (kcp.nextProbe long).2.2 = _
  rw [nextProbe]
  by_cases hrmt : kcp.rmtWnd = 0
  · rw [if_pos hrmt]
    by_cases hwait : kcp.probeWait = 0
    · rw [if_pos hwait]
      exact Or.inl rfl
    · rw [if_neg hwait]
      by_cases htime : itimediff long kcp.current kcp.tsProbe ≥ 0
      · rw [if_pos htime]
        exact Or.inr rfl
      · rw [if_neg htime]
        exact Or.inl rfl
  · rw [if_neg hrmt]
    exact Or.inl rfl

/-- A flush tells the window when it was asked for it. -/
theorem tell_mem_puts (h : kcp.Asks ikcpAskTell) : ∃ s, s ∈ kcp.puts long := by
  have hasks : Asks ikcpAskTell (updateProbe long { kcp with acklist := [] }) := by
    rcases probe_updateProbe long { kcp with acklist := [] } with heq | heq
    · rw [Asks, heq]
      exact h
    · rw [Asks, heq]
      exact h.or ikcpAskSend
  refine ⟨kcp.control ikcpCmdWins (kcp.acklist.getLastD (0, 0)),
    List.mem_append_left _ (List.mem_append_right _ ?_)⟩
  rw [probes_of_asks hasks]
  exact List.mem_singleton_self _

/-- A flush asks for the window when that is closed and it is time to ask. -/
theorem ask_mem_puts (hrmt : kcp.rmtWnd = 0) (hwait : kcp.probeWait ≠ 0)
    (htime : itimediff long kcp.current kcp.tsProbe ≥ 0) :
    ∃ s ∈ kcp.puts long, s.cmd = ikcpCmdWask := by
  have hasks : Asks ikcpAskSend (updateProbe long { kcp with acklist := [] }) := by
    have hprobe : (updateProbe long { kcp with acklist := [] }).probe
        = kcp.probe ||| ikcpAskSend := by
      show (nextProbe long { kcp with acklist := [] }).2.2 = _
      rw [nextProbe, if_pos hrmt, if_neg hwait, if_pos htime]
    rw [Asks, hprobe]
    exact asks_or (by decide)
  refine ⟨kcp.control ikcpCmdWask (kcp.acklist.getLastD (0, 0)), ?_, rfl⟩
  refine List.mem_append_left _ (List.mem_append_left _ (List.mem_append_right _ ?_))
  rw [probes_of_asks hasks]
  exact List.mem_singleton_self _

/-- Else it sets a time to ask. -/
theorem probeWait_flush (h : kcp.updated ≠ 0) (hrmt : kcp.rmtWnd = 0) (hwait : kcp.probeWait = 0) :
    (kcp.flush long).1.probeWait ≠ 0 := by
  have hmoved : (kcp.flush long).1.probeWait = (moved long kcp).probeWait := by
    simp only [flush, if_neg h]
    rfl
  obtain ⟨_, _, _, _, _, heq⟩ := moved_eq long kcp
  rw [hmoved, heq]
  show (nextProbe long { kcp with acklist := [] }).1 ≠ 0
  rw [nextProbe, if_pos hrmt, if_pos hwait]
  show ikcpProbeInit ≠ 0
  decide

/-- The congestion window is not closed by a flush. -/
theorem cwnd_flush (h : kcp.updated ≠ 0) : (kcp.flush long).1.cwnd ≠ 0 := by
  have hopen (ssthresh grown incr mss : UInt32) :
      (if grown < 1 then (ssthresh, 1, mss) else (ssthresh, grown, incr)).2.1 ≠ 0 := by
    split
    · show (1 : UInt32) ≠ 0
      decide
    · rename_i hge
      rintro (rfl : grown = 0)
      exact hge (by decide)
  have hcongestion (k : IKCPCB) (cwnd resent : UInt32) (st : Flush) :
      (k.congestion cwnd resent st).2.1 ≠ 0 := by
    rw [congestion]
    exact hopen _ _ _ _
  simp only [flush, if_neg h, updateCwnd]
  exact hcongestion _ _ _ _

/-- The window that a flush sends by. -/
theorem sendWindow_ne_zero (hsnd : kcp.sndWnd ≠ 0) (hrmt : kcp.rmtWnd ≠ 0) (hcwnd : kcp.cwnd ≠ 0) :
    kcp.sendWindow ≠ 0 := by
  rw [sendWindow, imin, imin]
  split_ifs <;> assumption

/-- While the window is open, a flush leaves `snd_buf` empty only if nothing is queued. -/
theorem sndBuf_flush_ne_nil {L : Link (Fragment Byte)} (h : kcp.updated ≠ 0)
    (hs : Sends kcp.sender L) (hqueue : kcp.sndQueue ≠ []) (hwindow : kcp.sendWindow ≠ 0) :
    (kcp.flush .bits32).1.sndBuf ≠ [] := by
  have hbuf := congrArg Sender.buf (@sender_flush_eq .bits32 _ h)
  intro hnil
  have hmoved : (moved .bits32 kcp).sndBuf = [] := by
    rw [← List.map_eq_nil_iff (f := SndSeg.fixed)]
    exact hbuf.symm.trans (congrArg (List.map SndSeg.fixed) hnil)
  -- nothing was kept before, so the first segment queued is let through
  have hempty : kcp.sndBuf = [] := by
    have hpart := sndBuf_moved .bits32 kcp
    rw [hmoved] at hpart
    exact List.prefix_nil.mp hpart
  have hpending : L.pending = [] := by
    have hmap := hs.buf
    rw [show kcp.sender.buf = [] from congrArg (List.map SndSeg.fixed) hempty] at hmap
    exact List.map_eq_nil_iff.mp hmap.symm
  have hnxt : kcp.sndNxt = UInt32.ofNat L.sent.length := hs.nxt
  have huna : kcp.sndUna = UInt32.ofNat L.sent.length := by
    have huna := hs.una
    rw [Link.una, hpending] at huna
    exact huna
  have hrmt : kcp.rmtWnd.toNat < 2 ^ 16 := hs.rmtWnd
  have hle := sendWindow_le kcp
  have hpos : 0 < kcp.sendWindow.toNat := by
    refine Nat.pos_of_ne_zero fun hzero => hwindow ?_
    rw [← UInt32.toNat_inj, hzero]
    rfl
  have hopen : itimediff .bits32 kcp.sndNxt (kcp.sndUna + kcp.sendWindow) < 0 := by
    rw [hnxt, huna, Serial.ofNat_add_word, itimediff_ofNat (by omega) (by omega)]
    omega
  exact @sndBuf_moveToBuf_ne_nil _ { updateProbe .bits32 { kcp with acklist := [] } with
    probe := 0 } _ kcp.wndUnused _ hqueue hopen hmoved

/-! ### A datagram -/

variable {group : List IKCPSEG} {seg : IKCPSEG}

/-- A segment that `ikcp_input` reads. -/
structure Legal (conv : UInt32) (seg : IKCPSEG) : Prop where
  conv : seg.conv = conv
  fits : seg.Fits
  cmd : seg.cmd = ikcpCmdPush ∨ seg.cmd = ikcpCmdAck ∨ seg.cmd = ikcpCmdWask ∨
    seg.cmd = ikcpCmdWins

theorem input_encode (hne : group ≠ []) (hgroup : ∀ seg ∈ group, Legal kcp.conv seg) :
    (kcp.input long (group.flatMap IKCPSEG.encode)).1
      = (group.foldl (Input.segment long) ⟨kcp, false, 0⟩).finish long kcp.sndUna := by
  have hlen : ¬ (group.flatMap IKCPSEG.encode).length < ikcpOverheadLen := by
    rcases group with - | ⟨seg, group⟩
    · exact absurd rfl hne
    · rw [List.flatMap_cons, List.length_append, IKCPSEG.length_encode]
      omega
  rw [input, if_neg hlen, loop_encode long (Nat.le_refl _) fun seg hseg =>
    ⟨(hgroup seg hseg).conv, (hgroup seg hseg).fits, (hgroup seg hseg).cmd⟩]
  dsimp only
  rw [if_neg (not_not.mpr rfl)]

theorem probe_finish (i : Input) (una : UInt32) : (i.finish long una).probe = i.kcp.probe := by
  have hfast (sn : UInt32) : (i.kcp.parseFastack long sn).probe = i.kcp.probe := by
    rw [parseFastack]
    split <;> rfl
  rw [Input.finish]
  split_ifs
  · exact hfast _
  · exact hfast _
  · rfl
  · rfl

/-- What is asked is not forgotten. -/
theorem Asks.input {ask : UInt32} (h : kcp.Asks ask) (hne : group ≠ [])
    (hgroup : ∀ seg ∈ group, Legal kcp.conv seg) :
    (kcp.input long (group.flatMap IKCPSEG.encode)).1.Asks ask := by
  rw [input_encode hne hgroup, Asks, probe_finish]
  exact Asks.foldl group (i := ⟨kcp, false, 0⟩) h

/-- A probe is heard. -/
theorem asks_input (hgroup : ∀ seg ∈ group, Legal kcp.conv seg) (hseg : seg ∈ group)
    (hcmd : seg.cmd = ikcpCmdWask) :
    (kcp.input long (group.flatMap IKCPSEG.encode)).1.Asks ikcpAskTell := by
  rw [input_encode (List.ne_nil_of_mem hseg) hgroup, Asks, probe_finish]
  obtain ⟨before, after, rfl⟩ := List.append_of_mem hseg
  rw [List.foldl_append, List.foldl_cons]
  refine Asks.foldl after ?_
  generalize before.foldl (Input.segment long) ⟨kcp, false, 0⟩ = i
  rw [Input.segment, if_neg (by rw [hcmd]; decide), if_neg (by rw [hcmd]; decide), if_pos hcmd]
  exact @asks_or (answered long i.kcp seg) _ (by decide)

/-- The window that the segments tell is taken over. -/
theorem rmtWnd_input {w : UInt32} (hne : group ≠ []) (hgroup : ∀ seg ∈ group, Legal kcp.conv seg)
    (hwnd : ∀ seg ∈ group, seg.wnd = w) :
    (kcp.input long (group.flatMap IKCPSEG.encode)).1.rmtWnd = w := by
  have hfinish := congrArg Sender.rmtWnd (parts_finish long
    (group.foldl (Input.segment long) ⟨kcp, false, 0⟩) kcp.sndUna).1
  rw [input_encode hne hgroup]
  refine hfinish.trans ?_
  obtain ⟨before, last, rfl⟩ : ∃ before last, group = before ++ [last] :=
    ⟨_, _, (List.dropLast_append_getLast hne).symm⟩
  have hmem : last ∈ before ++ [last] := List.mem_append_right _ (List.mem_singleton_self _)
  rw [List.foldl_append, List.foldl_cons, List.foldl_nil]
  obtain ⟨_, _, _, heq⟩ := sender_segment long
    (before.foldl (Input.segment long) ⟨kcp, false, 0⟩) (hgroup last hmem).cmd
  rw [heq]
  exact hwnd last hmem

/-- An acknowledgement once kept stays until a flush. -/
theorem acklist_segment (i : Input) (hcmd : seg.cmd = ikcpCmdPush ∨ seg.cmd = ikcpCmdAck ∨
    seg.cmd = ikcpCmdWask ∨ seg.cmd = ikcpCmdWins) :
    i.kcp.acklist <+: (i.segment long seg).kcp.acklist := by
  rcases segment_cases long i hcmd with ⟨-, heq⟩ | ⟨-, heq⟩ | ⟨-, -, heq⟩
  · rw [heq, pushed]
    split_ifs
    · rw [acklist_parseData]
      exact List.prefix_append _ _
    · exact List.prefix_append _ _
    · exact List.prefix_rfl
  · rw [heq, show (acked long (answered long i.kcp seg) seg).acklist = i.kcp.acklist from
      congrArg Receiver.acklist (receiver_acked _ _ _)]
  · rw [show (i.segment long seg).kcp.acklist = i.kcp.acklist from congrArg Receiver.acklist heq]

theorem acklist_foldl (i : Input) (hgroup : ∀ seg ∈ group, seg.cmd = ikcpCmdPush ∨
    seg.cmd = ikcpCmdAck ∨ seg.cmd = ikcpCmdWask ∨ seg.cmd = ikcpCmdWins) :
    i.kcp.acklist <+: (group.foldl (Input.segment long) i).kcp.acklist := by
  induction group generalizing i with
  | nil => exact List.prefix_rfl
  | cons seg group ih =>
      exact (acklist_segment i (hgroup seg List.mem_cons_self)).trans
        (ih _ fun s hs => hgroup s (List.mem_cons_of_mem _ hs))

variable {e : End} {mark : ℕ} {delivered : List (Fragment Byte)}

theorem Arrives.legal (h : Arrives e mark seg) : Legal e.kcp.conv seg := ⟨h.conv, h.fits, h.cmd⟩

/-- **Data that is not ahead is acknowledged**, whether it is new or not. -/
theorem acks_input (h : e.Holds delivered) (hmark : mark ≤ e.out.sent.length)
    (hgroup : ∀ seg ∈ group, Arrives e mark seg) (hseg : seg ∈ group)
    (hcmd : seg.cmd = ikcpCmdPush) {k : ℕ} (hk : seg.sn = UInt32.ofNat k) (hle : k ≤ e.inc.next)
    (hnear : e.inc.sent.length ≤ k + 2 ^ 16) :
    (seg.sn, seg.ts) ∈ (e.kcp.input .bits32 (group.flatMap IKCPSEG.encode)).1.acklist := by
  have hfinish := congrArg Receiver.acklist (parts_finish .bits32
    (group.foldl (Input.segment .bits32) ⟨e.kcp, false, 0⟩) e.kcp.sndUna).2
  rw [input_encode (List.ne_nil_of_mem hseg) fun s hs => (hgroup s hs).legal]
  rw [show ((group.foldl (Input.segment .bits32) ⟨e.kcp, false, 0⟩).finish .bits32
    e.kcp.sndUna).acklist = _ from hfinish]
  obtain ⟨before, after, rfl⟩ := List.append_of_mem hseg
  have hbefore : ∀ s ∈ before, Arrives e mark s := fun s hs =>
    hgroup s (List.mem_append_left _ hs)
  have hafter : ∀ s ∈ after, Arrives e mark s := fun s hs =>
    hgroup s (List.mem_append_right _ (List.mem_cons_of_mem _ hs))
  rw [List.foldl_append, List.foldl_cons]
  obtain ⟨e₁, he₁, hhears⟩ := hears_foldl (i := ⟨e.kcp, false, 0⟩) rfl h hmark hbefore
  refine (acklist_foldl _ fun s hs => (hafter s hs).cmd).subset ?_
  generalize before.foldl (Input.segment .bits32) ⟨e.kcp, false, 0⟩ = i at he₁
  have hanswered : (answered .bits32 i.kcp seg).receiver = e₁.kcp.receiver := by
    rw [he₁]
    rfl
  have hr := hhears.holds.receives
  rw [← hanswered] at hr
  have hnext := (h.inc.steps hhears.inc).2.next
  have hlast := hhears.holds.inc.next_le
  rw [hhears.inc_sent] at hlast
  have hge := hr.wnd_ge
  have hlt := hr.wnd_lt
  -- the window only moves on, so the segment is not beyond it
  have hopen : itimediff .bits32 seg.sn ((answered .bits32 i.kcp seg).rcvNxt
      + (answered .bits32 i.kcp seg).rcvWnd) < 0 := by
    rw [hk, show (answered .bits32 i.kcp seg).rcvNxt = UInt32.ofNat e₁.inc.next from hr.nxt,
      Serial.ofNat_add_word]
    change 128 ≤ (answered .bits32 i.kcp seg).rcvWnd.toNat at hge
    change (answered .bits32 i.kcp seg).rcvWnd.toNat < 2 ^ 16 at hlt
    rw [itimediff_ofNat (by omega) (by omega)]
    omega
  rcases segment_cases .bits32 i (Or.inl hcmd) with ⟨-, heq⟩ | ⟨hack, -⟩ | ⟨hprobe, -⟩
  · rw [heq, pushed, if_pos hopen]
    split_ifs
    · rw [acklist_parseData]
      exact List.mem_append_right _ (List.mem_singleton_self _)
    · exact List.mem_append_right _ (List.mem_singleton_self _)
  · rw [hcmd] at hack
    exact absurd hack (by decide)
  · rw [hcmd] at hprobe
    exact absurd hprobe (by decide)

/-- **What is acknowledged is given up.** -/
theorem hears_input_ack (h : e.Holds delivered) (hmark : mark ≤ e.out.sent.length)
    (hgroup : ∀ seg ∈ group, Arrives e mark seg) (hseg : seg ∈ group)
    (hcmd : seg.cmd = ikcpCmdAck) :
    ∃ e', e'.kcp = (e.kcp.input .bits32 (group.flatMap IKCPSEG.encode)).1 ∧
      Hears mark delivered e e' ∧ ∀ k ∈ e'.out.pending, seg.sn ≠ UInt32.ofNat k := by
  rw [input_encode (List.ne_nil_of_mem hseg) fun s hs => (hgroup s hs).legal]
  obtain ⟨before, after, rfl⟩ := List.append_of_mem hseg
  have hbefore : ∀ s ∈ before, Arrives e mark s := fun s hs =>
    hgroup s (List.mem_append_left _ hs)
  obtain ⟨e₁, he₁, hhears₁⟩ := hears_foldl (i := ⟨e.kcp, false, 0⟩) rfl h hmark hbefore
  have hmark₁ : mark ≤ e₁.out.sent.length := by
    rw [hhears₁.out_sent]
    exact hmark
  have hseg₁ := (hgroup seg hseg).of_hears h hhears₁
  -- the acknowledgement itself
  obtain ⟨e₂, he₂, hhears₂⟩ := hears_answered hhears₁.holds hmark₁ hseg₁
  have hmark₂ : mark ≤ e₂.out.sent.length := by
    rw [hhears₂.out_sent]
    exact hmark₁
  obtain ⟨e₃, he₃, hhears₃, hgone⟩ := hears_acked hhears₂.holds hmark₂
    (hseg₁.of_hears hhears₁.holds hhears₂) hcmd
  have hmark₃ : mark ≤ e₃.out.sent.length := by
    rw [hhears₃.out_sent]
    exact hmark₂
  have hhears := (hhears₁.trans hhears₂).trans hhears₃
  have hafter : ∀ s ∈ after, Arrives e₃ mark s := fun s hs =>
    (hgroup s (List.mem_append_right _ (List.mem_cons_of_mem _ hs))).of_hears h hhears
  have hkcp : e₃.kcp = ((before.foldl (Input.segment .bits32) ⟨e.kcp, false, 0⟩).segment .bits32
      seg).kcp := by
    rw [he₃, he₂, he₁, Input.segment, if_pos hcmd]
    rfl
  obtain ⟨e₄, he₄, hhears₄⟩ := hears_foldl hkcp.symm hhears₃.holds hmark₃ hafter
  have hall := hhears.trans hhears₄
  rw [List.foldl_append, List.foldl_cons]
  generalize after.foldl (Input.segment .bits32) _ = i at he₄
  obtain ⟨hsender, hreceiver⟩ := parts_finish .bits32 i e.kcp.sndUna
  rw [← he₄] at hsender hreceiver
  refine ⟨_, rfl, hall.trans (hears_of_eq hall.holds hsender hreceiver), fun k hk => ?_⟩
  exact hgone k ((Link.pending_sublist hhears₄.out hhears₄.out_sent).subset hk)

end IKCPCB

end PCGForUnity
