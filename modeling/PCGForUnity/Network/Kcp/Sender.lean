/-
PCGForUnity/Network/Kcp/Sender.lean

The sending half of a control block follows a link: `snd_nxt` and `snd_una` are the words of
its numbers, `snd_buf` has the segments that it keeps (`Sends`).

* `sends_parseAck`: an acknowledgement gives up what it names;
* `sends_parseUna`: `una` gives up what lies before it;
* `sends_moveToBuf`: a flush numbers what the window lets through.

Design.  Each function of the sender makes a step of the link, and what it does to words is
computed from what the step does to numbers.  The numbers of an answer may be old by half the
range of a word, no more: then an old answer names nothing that is kept, and is without
effect.  Segments are compared without what the congestion control changes in them, so the
half is a `Sender` (`Parts`), in which they have only what is sent.
-/
import PCGForUnity.Lib.SelectiveRepeat
import PCGForUnity.Network.Kcp.Output

namespace PCGForUnity

theorem itimediff_ofNat {i j : ℕ} (hlt : i < j + 2 ^ 31) (hle : j ≤ i + 2 ^ 31) :
    itimediff .bits32 (UInt32.ofNat i) (UInt32.ofNat j) = (i : ℤ) - j := Serial.signed_sub hlt hle

/-- Where a property holds of a first part of a list, dropping that part leaves out what
has the property. -/
theorem dropWhile_eq_filter {α : Type*} {p : α → Bool} {l : List α}
    (h : l.Pairwise fun x y => p y = true → p x = true) : l.dropWhile p = l.filter (!p ·) := by
  induction l with
  | nil => rfl
  | cons x l ih =>
      obtain ⟨hhead, htail⟩ := List.pairwise_cons.mp h
      by_cases hx : p x = true
      · rw [List.dropWhile_cons_of_pos hx, List.filter_cons_of_neg (by simp [hx])]
        exact ih htail
      · rw [List.dropWhile_cons_of_neg hx]
        refine (List.filter_eq_self.mpr fun y hy => ?_).symm
        rcases List.mem_cons.mp hy with rfl | hy
        · simpa using hx
        · simpa using fun hpy => hx (hhead y hy hpy)

namespace IKCPCB

/-- What stays of the segment with the number `k`. -/
def pushSegment (conv : UInt32) (sent : List (Fragment Byte)) (k : ℕ) : IKCPSEG where
  conv
  cmd := ikcpCmdPush
  frg := (sent.getD k ⟨0, []⟩).frg
  wnd := 0
  ts := 0
  sn := UInt32.ofNat k
  una := 0
  data := (sent.getD k ⟨0, []⟩).data

/-- The sender is that of the link. -/
structure Sends (s : Sender) (L : Link (Fragment Byte)) : Prop where
  nxt : s.nxt = UInt32.ofNat L.sent.length
  una : s.una = UInt32.ofNat L.una
  buf : s.buf = L.pending.map (pushSegment s.conv L.sent)
  window : L.sent.length ≤ L.una + 2 ^ 16
  rmtWnd : s.rmtWnd.toNat < 2 ^ 16

variable {kcp : IKCPCB} {L : Link (Fragment Byte)}

theorem pushSegment_append (conv : UInt32) {sent more : List (Fragment Byte)} {k : ℕ}
    (hk : k < sent.length) : pushSegment conv (sent ++ more) k = pushSegment conv sent k := by
  simp only [pushSegment, List.getD_eq_getElem?_getD, List.getElem?_append_left hk]

/-- The sender does not mind what the receiver does. -/
theorem Sends.of_eq {s : Sender} {L' : Link (Fragment Byte)} (h : Sends s L)
    (hsent : L'.sent = L.sent) (hpending : L'.pending = L.pending) : Sends s L' := by
  have huna : L'.una = L.una := by rw [Link.una, Link.una, hsent, hpending]
  refine ⟨?_, ?_, ?_, ?_, h.rmtWnd⟩
  · rw [hsent]
    exact h.nxt
  · rw [huna]
    exact h.una
  · rw [hsent, hpending]
    exact h.buf
  · rw [hsent, huna]
    exact h.window

/-- What a sender keeps is not far behind what it has numbered. -/
theorem Sends.lt_of_mem {s : Sender} (hs : Sends s L) (hL : L.WF) {k : ℕ} (hk : k ∈ L.pending) :
    k < L.sent.length ∧ L.sent.length ≤ k + 2 ^ 16 := by
  have hwindow := hs.window
  have huna := hL.una_le_of_mem hk
  exact ⟨hL.pending_lt k hk, by omega⟩

/-- `ikcp_shrink_buf` makes `snd_una` the first number kept. -/
theorem sends_shrinkBuf (hnxt : kcp.sndNxt = UInt32.ofNat L.sent.length)
    (hbuf : kcp.sender.buf = L.pending.map (pushSegment kcp.conv L.sent))
    (hwindow : L.sent.length ≤ L.una + 2 ^ 16) (hrmt : kcp.rmtWnd.toNat < 2 ^ 16) :
    Sends kcp.shrinkBuf.sender L := by
  refine ⟨hnxt, ?_, hbuf, hwindow, hrmt⟩
  have hmap : kcp.sndBuf.map SndSeg.fixed = L.pending.map (pushSegment kcp.conv L.sent) := hbuf
  show kcp.shrinkBuf.sndUna = UInt32.ofNat L.una
  rw [Link.una]
  rcases hb : kcp.sndBuf with - | ⟨seg, segs⟩ <;> rcases hp : L.pending with - | ⟨k, ks⟩ <;>
    rw [hb, hp] at hmap
  · exact (sndUna_shrinkBuf_of_nil hb).trans hnxt
  · cases hmap
  · cases hmap
  · exact (sndUna_shrinkBuf_of_cons hb).trans (congrArg IKCPSEG.sn (List.cons.inj hmap).1)

/-- **`una` gives up what lies before it.** -/
theorem sends_parseUna (hs : Sends kcp.sender L) (hL : L.WF) {u : ℕ} (hu : u ≤ L.sent.length)
    (hfar : L.sent.length ≤ u + 2 ^ 31) :
    Sends (kcp.parseUna .bits32 (UInt32.ofNat u)).shrinkBuf.sender
      { L with pending := L.pending.filter fun k => decide (u ≤ k) } := by
  have hwindow := hs.window
  refine sends_shrinkBuf hs.nxt ?_ ?_ hs.rmtWnd
  · -- the words are compared as the numbers are
    have hlt : ∀ k ∈ L.pending,
        decide (itimediff .bits32 (UInt32.ofNat u) (UInt32.ofNat k) > 0) = decide (k < u) := by
      intro k hk
      have hk' := hs.lt_of_mem hL hk
      rw [itimediff_ofNat (by omega) (by omega)]
      simp
    have hmono : L.pending.Pairwise fun j k =>
        decide (itimediff .bits32 (UInt32.ofNat u) (UInt32.ofNat k) > 0) = true →
          decide (itimediff .bits32 (UInt32.ofNat u) (UInt32.ofNat j) > 0) = true := by
      refine hL.pending_sorted.imp_of_mem fun {j k} hj hk hjk => ?_
      rw [hlt j hj, hlt k hk, decide_eq_true_iff, decide_eq_true_iff]
      exact hjk.trans
    have hfilter : (L.pending.dropWhile fun k =>
        decide (itimediff .bits32 (UInt32.ofNat u) (UInt32.ofNat k) > 0))
          = L.pending.filter fun k => decide (u ≤ k) := by
      rw [dropWhile_eq_filter hmono]
      refine List.filter_congr fun k hk => ?_
      rw [hlt k hk, ← decide_not]
      simp
    calc (kcp.sndBuf.dropWhile _).map SndSeg.fixed
        = kcp.sender.buf.dropWhile fun seg =>
            decide (itimediff .bits32 (UInt32.ofNat u) seg.sn > 0) := by
          show _ = (kcp.sndBuf.map SndSeg.fixed).dropWhile _
          rw [List.dropWhile_map]
          rfl
      _ = (L.pending.filter fun k => decide (u ≤ k)).map (pushSegment kcp.conv L.sent) := by
          rw [hs.buf, List.dropWhile_map, ← hfilter]
          rfl
  · have := hL.una_le_una_filter fun k => decide (u ≤ k)
    exact hwindow.trans (Nat.add_le_add_right this _)

/-- The search of `ikcp_parse_ack` finds the number if it is kept. -/
theorem fixed_removeAcked {segs : List SndSeg} {conv : UInt32} {sent : List (Fragment Byte)}
    {ks : List ℕ} {i : ℕ} (hsegs : segs.map SndSeg.fixed = ks.map (pushSegment conv sent))
    (hsorted : ks.Pairwise (· < ·)) (hnear : ∀ k ∈ ks, k < i + 2 ^ 31 ∧ i < k + 2 ^ 31) :
    ((removeAcked .bits32 (UInt32.ofNat i) segs).getD segs).map SndSeg.fixed
      = (ks.filter fun k => decide (k ≠ i)).map (pushSegment conv sent) := by
  induction ks generalizing segs with
  | nil =>
      rw [List.map_nil, List.map_eq_nil_iff] at hsegs
      rw [hsegs]
      rfl
  | cons k ks ih =>
      rcases segs with - | ⟨seg, segs⟩
      · cases hsegs
      obtain ⟨hseg, hsegs'⟩ := List.cons.inj hsegs
      have hsn : seg.sn = UInt32.ofNat k := congrArg IKCPSEG.sn hseg
      obtain ⟨hki, hik⟩ := hnear k List.mem_cons_self
      obtain ⟨hhead, htail⟩ := List.pairwise_cons.mp hsorted
      have hrest (hk : i ≤ k) : (ks.filter fun j => decide (j ≠ i)) = ks := by
        refine List.filter_eq_self.mpr fun j hj => ?_
        have := hhead j hj
        simp only [decide_eq_true_eq]
        omega
      rw [removeAcked, hsn]
      by_cases hk : k = i
      · subst hk
        rw [if_pos rfl, List.filter_cons_of_neg (by simp), hrest (Nat.le_refl _)]
        exact hsegs'
      · have hne : UInt32.ofNat i ≠ UInt32.ofNat k := fun h =>
          hk ((Serial.ofNat_inj (by omega) (by omega)).mp h).symm
        rw [if_neg hne, itimediff_ofNat hik (by omega),
          List.filter_cons_of_pos (by simpa using hk), List.map_cons]
        by_cases hlt : i < k
        · -- the list is sorted, so the search ends here
          rw [if_pos (by omega), hrest hlt.le]
          exact hsegs
        · have ih' := ih hsegs' htail fun j hj => hnear j (List.mem_cons_of_mem _ hj)
          rw [if_neg (by omega)]
          rcases hr : removeAcked .bits32 (UInt32.ofNat i) segs with - | rest
          · rw [hr] at ih'
            exact congrArg₂ List.cons hseg ih'
          · rw [hr] at ih'
            exact congrArg₂ List.cons hseg ih'

/-- **An acknowledgement gives up what it names.** -/
theorem sends_parseAck (hs : Sends kcp.sender L) (hL : L.WF) {i : ℕ} (hi : i < L.sent.length)
    (hfar : L.sent.length ≤ i + 2 ^ 31) :
    Sends (kcp.parseAck .bits32 (UInt32.ofNat i)).shrinkBuf.sender
      { L with pending := L.pending.filter fun k => decide (k ≠ i) } := by
  have hwindow := hs.window
  have huna := hL.una_le
  have hkeep := hL.una_le_una_filter fun k => decide (k ≠ i)
  have hbefore : itimediff .bits32 (UInt32.ofNat i) kcp.sndUna = (i : ℤ) - L.una := by
    rw [show kcp.sndUna = UInt32.ofNat L.una from hs.una]
    exact itimediff_ofNat (by omega) (by omega)
  have hbehind : itimediff .bits32 (UInt32.ofNat i) kcp.sndNxt = (i : ℤ) - L.sent.length := by
    rw [show kcp.sndNxt = UInt32.ofNat L.sent.length from hs.nxt]
    exact itimediff_ofNat (by omega) (by omega)
  rw [parseAck, hbefore, hbehind]
  have hremoved := fixed_removeAcked (i := i) hs.buf hL.pending_sorted fun k hk => by
    have := hs.lt_of_mem hL hk
    omega
  split
  · -- before `snd_una` nothing is kept
    have hsame : (L.pending.filter fun k => decide (k ≠ i)) = L.pending := by
      refine List.filter_eq_self.mpr fun k hk => ?_
      have := hL.una_le_of_mem hk
      simp only [decide_eq_true_eq]
      omega
    rw [hsame]
    exact sends_shrinkBuf hs.nxt hs.buf hs.window hs.rmtWnd
  · exact sends_shrinkBuf hs.nxt hremoved (hwindow.trans (Nat.add_le_add_right hkeep _)) hs.rmtWnd

/-- **A flush numbers what the window lets through.** -/
theorem sends_moveToBuf (hs : Sends kcp.sender L) (hL : L.WF) {wnd cwnd : UInt32}
    (hcwnd : cwnd.toNat < 2 ^ 16) (fs : List (Fragment Byte)) :
    ∃ L', Relation.ReflTransGen Link.Step L L' ∧ L'.next = L.next ∧ L'.early = L.early ∧
      Sends (moveToBuf .bits32 wnd cwnd kcp fs).sender L' ∧
      L'.sent ++ (moveToBuf .bits32 wnd cwnd kcp fs).sndQueue = L.sent ++ fs ∧
      ∀ mark, L.KeptFrom mark → L'.KeptFrom mark := by
  induction fs generalizing kcp L with
  | nil =>
      rw [moveToBuf]
      exact ⟨L, Relation.ReflTransGen.refl, rfl, rfl, ⟨hs.nxt, hs.una, hs.buf, hs.window, hs.rmtWnd⟩,
        rfl, fun _ => id⟩
  | cons f fs ih =>
      have hnxt : kcp.sndNxt = UInt32.ofNat L.sent.length := hs.nxt
      have huna : kcp.sndUna = UInt32.ofNat L.una := hs.una
      have hwindow := hs.window
      have hle := hL.una_le
      have hdiff : itimediff .bits32 kcp.sndNxt (kcp.sndUna + cwnd)
          = (L.sent.length : ℤ) - (L.una + cwnd.toNat : ℕ) := by
        rw [hnxt, huna, Serial.ofNat_add_word]
        exact itimediff_ofNat (by omega) (by omega)
      rw [moveToBuf, hdiff]
      split
      · -- there is room
        have hroom : L.sent.length < L.una + cwnd.toNat := by omega
        have hstep := Link.Step.number L f
        have hlen : (L.sent ++ [f]).length = L.sent.length + 1 := by simp
        have hunaEq : (L.pending ++ [L.sent.length]).headD (L.sent ++ [f]).length = L.una := by
          rw [Link.una]
          rcases L.pending with - | ⟨k, ks⟩ <;> rfl
        set moved : IKCPCB := { kcp with
          nsndQue := kcp.nsndQue - 1
          nsndBuf := kcp.nsndBuf + 1
          sndBuf := kcp.sndBuf ++ [kcp.newSegment wnd f]
          sndNxt := kcp.sndNxt + 1 }
        have hmovedSends : Sends moved.sender
            { L with sent := L.sent ++ [f], pending := L.pending ++ [L.sent.length] } := by
          refine ⟨?_, ?_, ?_, ?_, hs.rmtWnd⟩
          · rw [hlen, Serial.ofNat_succ, ← hnxt]
            rfl
          · rw [Link.una, hunaEq]
            exact huna
          · show (kcp.sndBuf ++ [kcp.newSegment wnd f]).map SndSeg.fixed = _
            rw [List.map_append, List.map_append]
            refine congrArg₂ (· ++ ·) ?_ ?_
            · refine hs.buf.trans (List.map_congr_left fun k hk => ?_)
              exact (pushSegment_append _ (hL.pending_lt k hk)).symm
            · simp only [List.map_cons, List.map_nil, pushSegment, List.getD_eq_getElem?_getD,
                List.getElem?_concat_length, Option.getD_some]
              rw [← hnxt]
              rfl
          · rw [hlen, Link.una, hunaEq]
            omega
        obtain ⟨L', hL', hnext, hearly, hsends, hqueue, hkeep⟩ := ih hmovedSends (hL.step hstep)
        refine ⟨L', Relation.ReflTransGen.head hstep hL', hnext, hearly, hsends, ?_,
          fun mark hmark => hkeep mark (hmark.number f)⟩
        rw [hqueue, List.append_assoc]
        rfl
      · -- the window is closed
        exact ⟨L, Relation.ReflTransGen.refl, rfl, rfl,
          ⟨hs.nxt, hs.una, hs.buf, hs.window, hs.rmtWnd⟩, rfl, fun _ => id⟩

/-- What `ikcp_send` does with messages: all the fragments of one are queued, or none. -/
theorem send_eq (hstream : kcp.stream = 0) (buffer : List Byte) :
    kcp.send buffer =
      if Fragment.count kcp.mss.toNat buffer.length ≥ ikcpWndRcv.toNat then (kcp, -2)
      else
        ({ kcp with
            sndQueue := kcp.sndQueue ++ Fragment.split kcp.mss.toNat buffer
            nsndQue := kcp.nsndQue + UInt32.ofNat (Fragment.count kcp.mss.toNat buffer.length) },
          0) := by
  rw [send, if_neg (not_not.mpr hstream), sendFragments]
  simp only [if_pos hstream, List.map_id']
  rfl

end IKCPCB

end PCGForUnity
