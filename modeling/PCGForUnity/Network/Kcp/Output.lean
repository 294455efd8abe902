/-
PCGForUnity/Network/Kcp/Output.lean

What `ikcp_flush` puts out: datagrams of whole segments, and which segments these are.

A segment is an acknowledgement of an entry of `acklist`, a probe, or a segment of
`snd_buf` with the times of this flush (`Put`).  All of them carry `rcv_nxt` as `una`.

* `made_flush`: what holds of every segment of a flush holds of every segment of its
  datagrams, and none of these is empty, or longer than `mtu` where each segment alone
  would fit;
* `flush_eq`: what a flush changes, but for `snd_buf`, is decided before it writes.

Design.  The code writes to one buffer and hands it out when it is full.  `Output.Made` is
the invariant of this: what stands in the buffer, and each datagram, is written of segments
with the property.  It is kept by `put` and `emit`, so the order of the writes is of no
concern here; `Flush` is about the order.
-/
import PCGForUnity.Network.Kcp.Parts

namespace PCGForUnity

/-- The data is that of whole segments, one behind the other. -/
def Writes (P : IKCPSEG → Prop) (data : List Byte) : Prop :=
  ∃ segs : List IKCPSEG, data = segs.flatMap IKCPSEG.encode ∧ ∀ seg ∈ segs, P seg

section

variable {P Q : IKCPSEG → Prop} {data : List Byte}

theorem writes_nil : Writes P [] := ⟨[], rfl, fun _ h => absurd h List.not_mem_nil⟩

theorem Writes.mono (h : Writes P data) (hPQ : ∀ seg, P seg → Q seg) : Writes Q data := by
  obtain ⟨segs, rfl, hsegs⟩ := h
  exact ⟨segs, rfl, fun seg hseg => hPQ seg (hsegs seg hseg)⟩

theorem Writes.append_encode (h : Writes P data) {seg : IKCPSEG} (hseg : P seg) :
    Writes P (data ++ seg.encode) := by
  obtain ⟨segs, rfl, hsegs⟩ := h
  refine ⟨segs ++ [seg], ?_, fun s hs => ?_⟩
  · rw [List.flatMap_append, List.flatMap_singleton]
  · rcases List.mem_append.mp hs with hs | hs
    · exact hsegs s hs
    · rw [List.mem_singleton.mp hs]
      exact hseg

end

namespace IKCPCB

/-- A buffer of which every part is written so, with datagrams of at most `mtu` bytes. -/
structure Output.Made (mtu : ℕ) (P : IKCPSEG → Prop) (o : Output) : Prop where
  ptr : Writes P o.ptr
  datagrams : ∀ d ∈ o.datagrams, Writes P d ∧ d ≠ []
  ptr_le : (∀ seg, P seg → ikcpOverheadLen + seg.data.length ≤ mtu) → o.ptr.length ≤ mtu
  le : (∀ seg, P seg → ikcpOverheadLen + seg.data.length ≤ mtu) → ∀ d ∈ o.datagrams, d.length ≤ mtu

namespace Output

variable {mtu : ℕ} {P Q : IKCPSEG → Prop} {o : Output}

theorem made_nil : Made mtu P { ptr := [], datagrams := [] } where
  ptr := writes_nil
  datagrams := fun _ h => absurd h List.not_mem_nil
  ptr_le := fun _ => Nat.zero_le _
  le := fun _ _ h => absurd h List.not_mem_nil

theorem Made.emit (h : o.Made mtu P) : o.emit.Made mtu P := by
  refine ⟨writes_nil, fun d hd => ?_, fun _ => Nat.zero_le _, fun hP d hd => ?_⟩
  · simp only [Output.emit] at hd
    split at hd
    · exact h.datagrams d hd
    · rcases List.mem_append.mp hd with hd | hd
      · exact h.datagrams d hd
      · rw [List.mem_singleton.mp hd]
        exact ⟨h.ptr, by simpa using ‹¬ o.ptr.isEmpty›⟩
  · simp only [Output.emit] at hd
    split at hd
    · exact h.le hP d hd
    · rcases List.mem_append.mp hd with hd | hd
      · exact h.le hP d hd
      · rw [List.mem_singleton.mp hd]
        exact h.ptr_le hP

theorem Made.put (h : o.Made mtu P) {seg : IKCPSEG} (hseg : P seg) :
    (o.put mtu seg).Made mtu P := by
  simp only [Output.put]
  split
  · -- the segment begins a new datagram
    have he := h.emit
    refine ⟨he.ptr.append_encode hseg, he.datagrams, fun hP => ?_, he.le⟩
    show ([] ++ seg.encode).length ≤ mtu
    rw [List.nil_append, IKCPSEG.length_encode]
    exact hP seg hseg
  · refine ⟨h.ptr.append_encode hseg, h.datagrams, fun _ => ?_, h.le⟩
    rw [List.length_append, IKCPSEG.length_encode]
    exact Nat.not_lt.mp ‹_›

end Output

variable {kcp : IKCPCB}

/-- The segments of a flush; `buf` has what stays of those in `snd_buf`. -/
inductive Put (kcp : IKCPCB) (buf : List IKCPSEG) : IKCPSEG → Prop
  | ack {ack : UInt32 × UInt32} (h : ack ∈ kcp.acklist) : Put kcp buf (kcp.control ikcpCmdAck ack)
  | ask (ack : UInt32 × UInt32) : Put kcp buf (kcp.control ikcpCmdWask ack)
  | tell (ack : UInt32 × UInt32) : Put kcp buf (kcp.control ikcpCmdWins ack)
  | push {seg : IKCPSEG} (h : seg ∈ buf) :
      Put kcp buf { seg with ts := kcp.current, wnd := kcp.wndUnused, una := kcp.rcvNxt }

section

variable {P : IKCPSEG → Prop} {mtu : ℕ}

theorem made_foldl {o : Output} (h : o.Made mtu P) {segs : List IKCPSEG}
    (hsegs : ∀ seg ∈ segs, P seg) : (segs.foldl (fun o seg => o.put mtu seg) o).Made mtu P := by
  induction segs generalizing o with
  | nil => exact h
  | cons seg segs ih =>
      exact ih (h.put (hsegs seg List.mem_cons_self)) fun s hs =>
        hsegs s (List.mem_cons_of_mem _ hs)

theorem made_putProbe (kcp : IKCPCB) {o : Output} (ask : UInt32) (cmd : ℕ) (last : UInt32 × UInt32)
    (h : o.Made kcp.mtu.toNat P) (hP : P (kcp.control cmd last)) :
    (kcp.putProbe ask cmd last o).Made kcp.mtu.toNat P := by
  rw [putProbe]
  split
  · exact h.put hP
  · exact h

variable {long : LongWidth} {resent rtomin : UInt32}

/-- Sending again leaves of a segment what stays. -/
theorem fixed_dueSegment {st st' : Flush} {seg seg' : SndSeg}
    (h : kcp.dueSegment long resent rtomin st seg = some (seg', st')) :
    seg'.fixed = seg.fixed ∧ st'.out = st.out := by
  rw [dueSegment] at h
  split at h
  · obtain ⟨rfl, rfl⟩ := Prod.mk.inj (Option.some.inj h)
    exact ⟨rfl, rfl⟩
  · split at h
    · obtain ⟨rfl, rfl⟩ := Prod.mk.inj (Option.some.inj h)
      exact ⟨rfl, rfl⟩
    · split at h
      · obtain ⟨rfl, rfl⟩ := Prod.mk.inj (Option.some.inj h)
        exact ⟨rfl, rfl⟩
      · cases h

theorem fixed_flushSegments (wnd : UInt32) (segs : List SndSeg) (st : Flush) :
    (kcp.flushSegments long wnd resent rtomin segs st).1.map SndSeg.fixed
      = segs.map SndSeg.fixed := by
  induction segs generalizing st with
  | nil => rfl
  | cons seg segs ih =>
      rw [flushSegments]
      rcases hdue : kcp.dueSegment long resent rtomin st seg with - | ⟨seg', st'⟩
      · exact congrArg (seg.fixed :: ·) (ih st)
      · refine congrArg₂ List.cons ?_ (ih _)
        exact (fixed_dueSegment hdue).1

theorem made_flushSegments (kcp : IKCPCB) (long : LongWidth) (resent rtomin wnd : UInt32)
    {segs : List SndSeg} {st : Flush} (h : st.out.Made kcp.mtu.toNat P)
    (hP : ∀ seg ∈ segs.map SndSeg.fixed, P { seg with ts := kcp.current, wnd, una := kcp.rcvNxt }) :
    (kcp.flushSegments long wnd resent rtomin segs st).2.out.Made kcp.mtu.toNat P := by
  induction segs generalizing st with
  | nil => exact h
  | cons seg segs ih =>
      have hrest : ∀ s ∈ segs.map SndSeg.fixed,
          P { s with ts := kcp.current, wnd, una := kcp.rcvNxt } :=
        fun s hs => hP s (List.mem_cons_of_mem _ hs)
      rw [flushSegments]
      rcases hdue : kcp.dueSegment long resent rtomin st seg with - | ⟨seg', st'⟩
      · exact ih h hrest
      · obtain ⟨hfixed, hout⟩ := fixed_dueSegment hdue
        refine ih ?_ hrest
        show (st'.out.put kcp.mtu.toNat _).Made kcp.mtu.toNat P
        rw [hout]
        refine h.put ?_
        have hseg := hP seg.fixed List.mem_cons_self
        rw [← hfixed] at hseg
        exact hseg

end

variable (long : LongWidth)

/-- Moving segments changes nothing but the two lists and their counters. -/
theorem moveToBuf_eq (wnd cwnd : UInt32) (kcp : IKCPCB) (fs : List (Fragment Byte)) :
    ∃ sndQueue sndBuf nsndQue nsndBuf sndNxt, moveToBuf long wnd cwnd kcp fs
      = { kcp with sndQueue, sndBuf, nsndQue, nsndBuf, sndNxt } := by
  induction fs generalizing kcp with
  | nil => exact ⟨_, _, _, _, _, rfl⟩
  | cons f fs ih =>
      rw [moveToBuf]
      split
      · obtain ⟨sndQueue, sndBuf, nsndQue, nsndBuf, sndNxt, h⟩ := ih
          { kcp with
            nsndQue := kcp.nsndQue - 1
            nsndBuf := kcp.nsndBuf + 1
            sndBuf := kcp.sndBuf ++ [kcp.newSegment wnd f]
            sndNxt := kcp.sndNxt + 1 }
        exact ⟨sndQueue, sndBuf, nsndQue, nsndBuf, sndNxt, h⟩
      · exact ⟨_, _, _, _, _, rfl⟩

/-- What a flush does with the two halves: it only moves segments to `snd_buf`, and forgets
the acknowledgements. -/
theorem flush_eq (h : kcp.updated ≠ 0) :
    ∃ probed : IKCPCB, probed.sender = kcp.sender ∧
      probed.receiver = { kcp.receiver with acklist := [] } ∧
      (kcp.flush long).1.sender
        = (moveToBuf long kcp.wndUnused probed.sendWindow probed probed.sndQueue).sender ∧
      (kcp.flush long).1.receiver = { kcp.receiver with acklist := [] } := by
  refine ⟨{ updateProbe long { kcp with acklist := [] } with probe := 0 }, rfl, rfl, ?_, ?_⟩
  · simp only [flush, if_neg h, sender_updateCwnd]
    simp only [sender, fixed_flushSegments]
    rfl
  · simp only [flush, if_neg h, receiver_updateCwnd]
    exact receiver_moveToBuf _ _ _ _ _

/-- The datagrams of a flush are of whole segments, and no longer than `mtu` if each segment
alone fits. -/
theorem made_flush {P : IKCPSEG → Prop}
    (hP : ∀ seg, Put kcp (kcp.flush long).1.sender.buf seg → P seg) :
    ∀ d ∈ (kcp.flush long).2, Writes P d ∧ d ≠ [] ∧
      ((∀ seg, P seg → ikcpOverheadLen + seg.data.length ≤ kcp.mtu.toNat) →
        d.length ≤ kcp.mtu.toNat) := by
  intro d hd
  by_cases h : kcp.updated = 0
  · rw [flush, if_pos h] at hd
    exact absurd hd List.not_mem_nil
  -- the segments of `snd_buf` are those that have been moved
  set moved := moveToBuf long kcp.wndUnused (updateProbe long { kcp with acklist := [] }).sendWindow
    { updateProbe long { kcp with acklist := [] } with probe := 0 } kcp.sndQueue with hmoved
  have hbuf : (kcp.flush long).1.sender.buf = moved.sndBuf.map SndSeg.fixed := by
    simp only [flush, if_neg h, sender_updateCwnd]
    simp only [sender, fixed_flushSegments]
    rfl
  rw [hbuf] at hP
  have hsame : moved.current = kcp.current ∧ moved.rcvNxt = kcp.rcvNxt ∧ moved.mtu = kcp.mtu := by
    obtain ⟨_, _, _, _, _, heq⟩ := moveToBuf_eq long kcp.wndUnused
      (updateProbe long { kcp with acklist := [] }).sendWindow
      { updateProbe long { kcp with acklist := [] } with probe := 0 } kcp.sndQueue
    rw [hmoved, heq]
    exact ⟨rfl, rfl, rfl⟩
  have hput : ∀ seg ∈ moved.sndBuf.map SndSeg.fixed,
      P { seg with ts := moved.current, wnd := kcp.wndUnused, una := moved.rcvNxt } := by
    intro seg hseg
    rw [hsame.1, hsame.2.1]
    exact hP _ (Put.push hseg)
  have hacks : kcp.putAcks.Made kcp.mtu.toNat P := by
    refine made_foldl Output.made_nil fun seg hseg => ?_
    obtain ⟨ack, hack, rfl⟩ := List.mem_map.mp hseg
    exact hP _ (Put.ack hack)
  have hask := made_putProbe (updateProbe long { kcp with acklist := [] }) ikcpAskSend
    ikcpCmdWask (kcp.acklist.getLastD (0, 0)) hacks (hP _ (Put.ask _))
  have htell := made_putProbe (updateProbe long { kcp with acklist := [] }) ikcpAskTell
    ikcpCmdWins (kcp.acklist.getLastD (0, 0)) hask (hP _ (Put.tell _))
  have hmtu : (updateProbe long { kcp with acklist := [] }).mtu.toNat = moved.mtu.toNat :=
    congrArg UInt32.toNat hsame.2.2.symm
  rw [hmtu] at htell
  simp only [flush, if_neg h] at hd
  have hmade (st : Flush) (hst : st.out.Made moved.mtu.toNat P) :=
    (made_flushSegments moved long
      (if kcp.fastresend > 0 then kcp.fastresend.toUInt32 else 0xffffffff)
      (if kcp.nodelay = 0 then (kcp.rxRto >>> 3).toUInt32 else 0) kcp.wndUnused hst hput).emit
  have hmade := hmade ⟨kcp.xmit, kcp.state, false, 0, _⟩ htell
  rw [hsame.2.2] at hmade
  exact ⟨(hmade.datagrams d hd).1, (hmade.datagrams d hd).2, fun hle => hmade.le hle d hd⟩

theorem settings_flush (kcp : IKCPCB) : (kcp.flush long).1.settings = kcp.settings := by
  by_cases h : kcp.updated = 0
  · rw [flush, if_pos h]
  · have hmoved : (moveToBuf long kcp.wndUnused
        (updateProbe long { kcp with acklist := [] }).sendWindow
        { updateProbe long { kcp with acklist := [] } with probe := 0 } kcp.sndQueue).settings
          = kcp.settings := by
      obtain ⟨_, _, _, _, _, heq⟩ := moveToBuf_eq long kcp.wndUnused
        (updateProbe long { kcp with acklist := [] }).sendWindow
        { updateProbe long { kcp with acklist := [] } with probe := 0 } kcp.sndQueue
      rw [heq]
      rfl
    refine Eq.trans ?_ hmoved
    simp only [flush, if_neg h]
    rfl

/-- `ikcp_update` sets the clock, and may flush. -/
theorem update_cases (kcp : IKCPCB) (current : UInt32) :
    ∃ clocked : IKCPCB, clocked.sender = kcp.sender ∧ clocked.receiver = kcp.receiver ∧
      (∃ updated, clocked.settings = { kcp.settings with current, updated }) ∧
      (kcp.update long current = (clocked, []) ∨
        clocked.updated ≠ 0 ∧ kcp.update long current = clocked.flush long) := by
  have hupdated : (if kcp.updated = 0 then (1 : UInt32) else kcp.updated) ≠ 0 := by
    split
    · decide
    · assumption
  rw [update]
  by_cases hslap : (kcp.slap long current).2 ≥ 0
  · rw [if_pos hslap]
    refine ⟨_, ?_, ?_, ⟨if kcp.updated = 0 then 1 else kcp.updated, ?_⟩, Or.inr ⟨?_, rfl⟩⟩
    · rfl
    · rfl
    · rfl
    · exact hupdated
  · rw [if_neg hslap]
    refine ⟨_, ?_, ?_, ⟨if kcp.updated = 0 then 1 else kcp.updated, ?_⟩, Or.inl rfl⟩
    · rfl
    · rfl
    · rfl

theorem settings_update (kcp : IKCPCB) (current : UInt32) :
    ∃ updated, (kcp.update long current).1.settings = { kcp.settings with current, updated } := by
  obtain ⟨clocked, -, -, hsettings, heq | ⟨-, heq⟩⟩ := update_cases long kcp current
  · rw [heq]
    exact hsettings
  · rw [heq, settings_flush]
    exact hsettings

theorem imin_le_right (a b : UInt32) : (imin a b).toNat ≤ b.toNat := by
  rw [imin]
  split
  · exact UInt32.le_iff_toNat_le.mp ‹_›
  · exact Nat.le_refl _

/-- The window of a flush is no larger than what the other end has room for. -/
theorem sendWindow_le (kcp : IKCPCB) : kcp.sendWindow.toNat ≤ kcp.rmtWnd.toNat := by
  simp only [sendWindow]
  split
  · exact (imin_le_right _ _).trans (imin_le_right _ _)
  · exact imin_le_right _ _

end IKCPCB

end PCGForUnity
