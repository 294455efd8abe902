/-
PCGForUnity/Network/Kcp/Flush.lean

Exactly what `ikcp_flush` puts out: every acknowledgement kept, the probes asked for and
the segments of `snd_buf` that are due, in this order and each once (`flush_puts`).  The
datagrams, taken apart, are

    kcp.puts  =  acknowledgements ++ probes ++ the segments due

and a datagram ends only between two segments.

Design.  `puts` is stated with the decisions of the code (which segment is due, what its
times are then) and without its buffer; `Output.put` is what the code does with the buffer.
The two meet in `Output.Of`: an output is of a list of segments if its datagrams and the
bytes behind them are the list, cut somewhere between segments.
-/
import PCGForUnity.Network.Kcp.Output

namespace PCGForUnity

namespace IKCPCB

/-- The segments in the datagrams and in the buffer are these. -/
def Output.Of (o : Output) (segs : List IKCPSEG) : Prop :=
  ∃ (groups : List (List IKCPSEG)) (last : List IKCPSEG),
    o.datagrams = groups.map (List.flatMap IKCPSEG.encode) ∧
      o.ptr = last.flatMap IKCPSEG.encode ∧ groups.flatten ++ last = segs

namespace Output

variable {o : Output} {segs : List IKCPSEG}

theorem of_nil : Of { ptr := [], datagrams := [] } [] := ⟨[], [], rfl, rfl, rfl⟩

theorem flatMap_encode_eq_nil (h : segs.flatMap IKCPSEG.encode = []) : segs = [] := by
  rcases segs with - | ⟨seg, segs⟩
  · rfl
  · have hlen := congrArg List.length h
    rw [List.flatMap_cons, List.length_append, IKCPSEG.length_encode] at hlen
    exact absurd hlen (by rw [ikcpOverheadLen]; simp)

/-- With nothing left in the buffer, all of it is in the datagrams. -/
theorem Of.exists_groups (h : o.Of segs) (hempty : o.ptr = []) :
    ∃ groups : List (List IKCPSEG), o.datagrams = groups.map (List.flatMap IKCPSEG.encode) ∧
      groups.flatten = segs := by
  obtain ⟨groups, last, hdatagrams, hptr, hflatten⟩ := h
  have hlast : last = [] := flatMap_encode_eq_nil (hptr ▸ hempty)
  rw [hlast, List.append_nil] at hflatten
  exact ⟨groups, hdatagrams, hflatten⟩

theorem Of.emit (h : o.Of segs) : o.emit.Of segs ∧ o.emit.ptr = [] := by
  obtain ⟨groups, last, hdatagrams, hptr, hsegs⟩ := h
  refine ⟨?_, rfl⟩
  by_cases hempty : o.ptr = []
  · have hlast : last = [] := flatMap_encode_eq_nil (hptr ▸ hempty)
    refine ⟨groups, [], ?_, rfl, by rw [← hsegs, hlast]⟩
    simp only [Output.emit, hempty, List.isEmpty_nil, if_true]
    exact hdatagrams
  · refine ⟨groups ++ [last], [], ?_, rfl, ?_⟩
    · simp only [Output.emit, List.isEmpty_iff, if_neg hempty]
      rw [List.map_append, List.map_singleton, ← hdatagrams, ← hptr]
    · rw [List.flatten_append, List.flatten_singleton, List.append_nil]
      exact hsegs

theorem Of.append (h : o.Of segs) (seg : IKCPSEG) :
    Of { o with ptr := o.ptr ++ seg.encode } (segs ++ [seg]) := by
  obtain ⟨groups, last, hdatagrams, hptr, rfl⟩ := h
  refine ⟨groups, last ++ [seg], hdatagrams, ?_, (List.append_assoc _ _ _).symm⟩
  show o.ptr ++ seg.encode = _
  rw [hptr, List.flatMap_append, List.flatMap_singleton]

theorem Of.put (h : o.Of segs) (mtu : ℕ) (seg : IKCPSEG) : (o.put mtu seg).Of (segs ++ [seg]) := by
  simp only [Output.put]
  split
  · exact h.emit.1.append seg
  · exact h.append seg

theorem Of.foldl_put (h : o.Of segs) (mtu : ℕ) (more : List IKCPSEG) :
    (more.foldl (fun o seg => o.put mtu seg) o).Of (segs ++ more) := by
  induction more generalizing o segs with
  | nil =>
      rw [List.append_nil]
      exact h
  | cons seg more ih =>
      have hput := ih (h.put mtu seg)
      rw [List.append_assoc] at hput
      exact hput

end Output

variable (long : LongWidth) (kcp : IKCPCB)

/-- A segment of `snd_buf` that a flush sends: a new one, one whose time has come, or one that
others have passed. -/
def Due (resent : UInt32) (seg : SndSeg) : Prop :=
  seg.xmit = 0 ∨ itimediff long kcp.current seg.resendts ≥ 0 ∨ seg.fastack ≥ resent

instance (resent : UInt32) (seg : SndSeg) : Decidable (kcp.Due long resent seg) :=
  inferInstanceAs (Decidable (_ ∨ _ ∨ _))

/-- The segment as it is sent. -/
def stamped (wnd : UInt32) (seg : SndSeg) : IKCPSEG :=
  { seg.toIKCPSEG with ts := kcp.current, wnd, una := kcp.rcvNxt }

variable {long kcp}

theorem dueSegment_cases (resent rtomin : UInt32) (st : Flush) (seg : SndSeg) :
    (¬ kcp.Due long resent seg ∧ kcp.dueSegment long resent rtomin st seg = none) ∨
      kcp.Due long resent seg ∧ ∃ seg' st', kcp.dueSegment long resent rtomin st seg = some (seg', st') ∧
        seg'.toIKCPSEG = seg.toIKCPSEG ∧ st'.out = st.out := by
  rw [dueSegment]
  by_cases hxmit : seg.xmit = 0
  · rw [if_pos hxmit]
    exact Or.inr ⟨Or.inl hxmit, _, _, rfl, rfl, rfl⟩
  · rw [if_neg hxmit]
    by_cases htime : itimediff long kcp.current seg.resendts ≥ 0
    · rw [if_pos htime]
      exact Or.inr ⟨Or.inr (Or.inl htime), _, _, rfl, rfl, rfl⟩
    · rw [if_neg htime]
      by_cases hfast : seg.fastack ≥ resent
      · rw [if_pos hfast]
        exact Or.inr ⟨Or.inr (Or.inr hfast), _, _, rfl, rfl, rfl⟩
      · rw [if_neg hfast]
        refine Or.inl ⟨?_, rfl⟩
        rintro (h | h | h)
        · exact hxmit h
        · exact htime h
        · exact hfast h

/-- The loop over `snd_buf` puts the segments that are due. -/
theorem flushSegments_puts (wnd resent rtomin : UInt32) (segs : List SndSeg) {st : Flush}
    {before : List IKCPSEG} (h : st.out.Of before) :
    (kcp.flushSegments long wnd resent rtomin segs st).2.out.Of
      (before ++ (segs.filter fun seg => decide (kcp.Due long resent seg)).map (kcp.stamped wnd)) := by
  induction segs generalizing st before with
  | nil =>
      rw [List.filter_nil, List.map_nil, List.append_nil]
      exact h
  | cons seg segs ih =>
      rw [flushSegments]
      rcases @dueSegment_cases long kcp resent rtomin st seg with
        ⟨hdue, hnone⟩ | ⟨hdue, seg', st', hsome, hseg, hout⟩
      · rw [hnone, List.filter_cons_of_neg (by simpa using hdue)]
        exact ih h
      · rw [hsome, List.filter_cons_of_pos (by simpa using hdue), List.map_cons]
        have hsame : kcp.stamped wnd seg' = kcp.stamped wnd seg := by
          rw [stamped, stamped, hseg]
        have hput := (hout ▸ h).put kcp.mtu.toNat (kcp.stamped wnd seg')
        have hmore := @ih { st' with
          out := st'.out.put kcp.mtu.toNat (kcp.stamped wnd seg')
          state := if seg'.xmit ≥ kcp.deadLink then 0xffffffff else st'.state } _ hput
        rw [List.append_assoc] at hmore
        rw [← hsame]
        exact hmore

/-- The probe that `probe` has the bit of. -/
def probes (kcp : IKCPCB) (ask : UInt32) (cmd : ℕ) (last : UInt32 × UInt32) : List IKCPSEG :=
  if kcp.probe &&& ask ≠ 0 then [kcp.control cmd last] else []

theorem of_putProbe {o : Output} {before : List IKCPSEG} (h : o.Of before) (ask : UInt32)
    (cmd : ℕ) (last : UInt32 × UInt32) :
    (kcp.putProbe ask cmd last o).Of (before ++ kcp.probes ask cmd last) := by
  rw [putProbe, probes]
  split
  · exact h.put _ _
  · rw [List.append_nil]
    exact h

/-- The block when a flush comes to `snd_buf`. -/
def moved (long : LongWidth) (kcp : IKCPCB) : IKCPCB :=
  let probed := updateProbe long { kcp with acklist := [] }
  moveToBuf long kcp.wndUnused probed.sendWindow { probed with probe := 0 } probed.sndQueue

/-- `resent` in `ikcp_flush`. -/
def resent (kcp : IKCPCB) : UInt32 :=
  if kcp.fastresend > 0 then kcp.fastresend.toUInt32 else 0xffffffff

/-- All the segments of a flush. -/
def puts (long : LongWidth) (kcp : IKCPCB) : List IKCPSEG :=
  let last := kcp.acklist.getLastD (0, 0)
  let probed := updateProbe long { kcp with acklist := [] }
  kcp.acklist.map (kcp.control ikcpCmdAck) ++ probed.probes ikcpAskSend ikcpCmdWask last
    ++ probed.probes ikcpAskTell ikcpCmdWins last
    ++ ((moved long kcp).sndBuf.filter fun seg =>
        decide ((moved long kcp).Due long kcp.resent seg)).map
          ((moved long kcp).stamped kcp.wndUnused)

/-- What a flush has written, and has put out to the last byte. -/
theorem exists_flush_output (h : kcp.updated ≠ 0) :
    ∃ o : Output, (kcp.flush long).2 = o.datagrams ∧ o.Of (kcp.puts long) ∧ o.ptr = [] := by
  have hacks : kcp.putAcks.Of (kcp.acklist.map (kcp.control ikcpCmdAck)) :=
    Output.of_nil.foldl_put _ _
  have hask := @of_putProbe (updateProbe long { kcp with acklist := [] }) _ _ hacks ikcpAskSend
    ikcpCmdWask (kcp.acklist.getLastD (0, 0))
  have htell := @of_putProbe (updateProbe long { kcp with acklist := [] }) _ _ hask ikcpAskTell
    ikcpCmdWins (kcp.acklist.getLastD (0, 0))
  have hpush (st : Flush) (hst : st.out = _) := (@flushSegments_puts long
    (moved long kcp) kcp.wndUnused kcp.resent
    (if kcp.nodelay = 0 then (kcp.rxRto >>> 3).toUInt32 else 0) (moved long kcp).sndBuf
    st _ (by rw [hst]; exact htell)).emit
  refine ⟨_, ?_, hpush ⟨kcp.xmit, kcp.state, false, 0, _⟩ rfl⟩
  simp only [flush, if_neg h]
  rfl

/-- **A flush puts out what is kept, asked for or due**, in this order and each once. -/
theorem flush_puts (h : kcp.updated ≠ 0) :
    ∃ groups : List (List IKCPSEG),
      (kcp.flush long).2 = groups.map (List.flatMap IKCPSEG.encode) ∧
        groups.flatten = kcp.puts long := by
  obtain ⟨o, hflush, hof, hempty⟩ := @exists_flush_output long _ h
  obtain ⟨groups, hdatagrams, hflatten⟩ := hof.exists_groups hempty
  exact ⟨groups, hflush.trans hdatagrams, hflatten⟩

theorem flush_puts_first :
    let kcp := { (((create 1).setNodelay 1 10 2 1).send [7, 8]).1 with updated := 1 }
    (kcp.puts .bits32).map (fun seg => (seg.sn, seg.data)) = [(0, [7, 8])] ∧
      ∃ groups : List (List IKCPSEG),
        (kcp.flush .bits32).2 = groups.map (List.flatMap IKCPSEG.encode) ∧
          groups.flatten = kcp.puts .bits32 := by
  intro kcp
  exact ⟨by decide +kernel, flush_puts (by decide +kernel)⟩

end IKCPCB

end PCGForUnity
