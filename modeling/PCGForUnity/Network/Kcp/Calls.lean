/-
PCGForUnity/Network/Kcp/Calls.lean

One control block under any calls and any bytes, also of a peer that does not follow the
protocol.

* `calls_stay_small`: `rcv_buf` and `snd_buf` stay in order and inside their windows, so they
  and `rcv_queue` stay small, and the counters are the lengths of their lists;
* `bits64_carries_nothing`: with a `long` of 64 bits no difference of numbers is negative,
  both buffers stay empty, and nothing but probes is ever put out.

Design.  There is no sender here whose segments could be called true, so nothing is said of
what the data is.  The invariants are about one half of the block each: `Orderly` measures
numbers from `rcv_nxt` on, `InFlight` from `snd_una` on, and both are kept however the
numbers come.

A call is a constructor of `Call`.  The functions that are made of others have rules that take
a property through them (`receiver_input`, `sender_flush` and the like), so that each
invariant is checked only where its half is written.
-/
import Mathlib.Data.List.Nodup
import PCGForUnity.Network.Kcp.Input

namespace PCGForUnity

namespace IKCPCB

/-- The calls of a program. -/
inductive Call
  | send (buffer : List Byte)
  | recv (len : ℤ)
  | input (data : List Byte)
  | update (current : UInt32)
  | flush
  | setmtu (mtu : Int32)
  | interval (interval : Int32)
  | nodelay (nodelay interval resend nc : Int32)
  | wndsize (sndwnd rcvwnd : Int32)
deriving DecidableEq, Repr

/-- The control block after a call. -/
def call (long : LongWidth) (kcp : IKCPCB) : Call → IKCPCB
  | .send buffer => (kcp.send buffer).1
  | .recv len => (kcp.recv len).1
  | .input data => (kcp.input long data).1
  | .update current => (kcp.update long current).1
  | .flush => (kcp.flush long).1
  | .setmtu mtu => (kcp.setmtu mtu).1
  | .interval interval => kcp.setInterval interval
  | .nodelay nodelay interval resend nc => kcp.setNodelay nodelay interval resend nc
  | .wndsize sndwnd rcvwnd => kcp.wndsize sndwnd rcvwnd

/-- The datagrams that a call puts out. -/
def emitted (long : LongWidth) (kcp : IKCPCB) : Call → List (List Byte)
  | .update current => (kcp.update long current).2
  | .flush => (kcp.flush long).2
  | _ => []

@[simp] theorem emitted_update (long : LongWidth) (kcp : IKCPCB) (current : UInt32) :
    kcp.emitted long (.update current) = (kcp.update long current).2 := rfl

variable {long : LongWidth} {kcp : IKCPCB}

/-- With 64 bits no number lies before another one. -/
theorem itimediff_bits64 (later earlier : UInt32) : ¬ itimediff .bits64 later earlier < 0 :=
  Int.not_lt.mpr (Int.natCast_nonneg _)

/-! ### Rules for the functions that are made of others -/

/-- A header that was read. -/
structure Header (seg : IKCPSEG) : Prop where
  wnd : seg.wnd.toNat < 2 ^ 16
  cmd : seg.cmd = ikcpCmdPush ∨ seg.cmd = ikcpCmdAck ∨ seg.cmd = ikcpCmdWask ∨
    seg.cmd = ikcpCmdWins

/-- What each segment keeps, `ikcp_input` keeps. -/
theorem loop_keeps {P : IKCPCB → Prop}
    (hsegment : ∀ (i : Input) (seg : IKCPSEG), Header seg → P i.kcp → P (i.segment long seg).kcp)
    (fuel : ℕ) (data : List Byte) {i : Input} (h : P i.kcp) :
    P (Input.loop long fuel data i).1.kcp := by
  induction fuel generalizing data i with
  | zero => exact h
  | succ fuel ih =>
      rw [Input.loop]
      split
      · exact h
      · dsimp only
        split_ifs with hconv hlen hcmd
        · exact h
        · exact h
        · exact h
        · refine ih _ (hsegment i _ ⟨?_, ?_⟩ h)
          · show (UInt32.ofNat (decode16u (data.drop 6))).toNat < 2 ^ 16
            have h₀ := IKCPSEG.byteAt_lt (data.drop 6) 0
            have h₁ := IKCPSEG.byteAt_lt (data.drop 6) 1
            rw [UInt32.toNat_ofNat', decode16u]
            omega
          · show byteAt data 4 = _ ∨ byteAt data 4 = _ ∨ byteAt data 4 = _ ∨ byteAt data 4 = _
            tauto

theorem settings_input (kcp : IKCPCB) (data : List Byte) :
    (kcp.input long data).1.settings = kcp.settings := by
  have hsegment : ∀ (i : Input) (seg : IKCPSEG), Header seg → i.kcp.settings = kcp.settings →
      (i.segment long seg).kcp.settings = kcp.settings := by
    intro i seg _ hi
    rw [Input.segment]
    by_cases hack : seg.cmd = ikcpCmdAck
    · rw [if_pos hack]
      exact (settings_acked _ long seg).trans hi
    · rw [if_neg hack]
      split_ifs
      · exact (settings_pushed _ long seg).trans hi
      · exact hi
      · exact hi
  have hfinish (i : Input) (una : UInt32) : (i.finish long una).settings = i.kcp.settings := by
    have hfast : (i.kcp.parseFastack long i.maxack).settings = i.kcp.settings := by
      rw [parseFastack]
      split <;> rfl
    rw [Input.finish]
    split_ifs
    · exact hfast
    · exact hfast
    · rfl
    · rfl
  rw [input]
  split
  · rfl
  · have hloop := loop_keeps (P := fun k => k.settings = kcp.settings) hsegment data.length data
      (i := ⟨kcp, false, 0⟩) rfl
    dsimp only
    split
    · exact hloop
    · exact (hfinish _ _).trans hloop

theorem receiver_input {R : Receiver → Prop}
    (hpushed : ∀ (kcp : IKCPCB) (seg : IKCPSEG), R kcp.receiver → R (kcp.pushed long seg).receiver)
    (h : R kcp.receiver) (data : List Byte) : R (kcp.input long data).1.receiver := by
  have hsegment : ∀ (i : Input) (seg : IKCPSEG), Header seg → R i.kcp.receiver →
      R (i.segment long seg).kcp.receiver := by
    intro i seg hseg hi
    rcases segment_cases long i hseg.cmd with ⟨-, heq⟩ | ⟨-, heq⟩ | ⟨-, -, heq⟩
    · rw [heq]
      exact hpushed _ seg hi
    · rw [heq, receiver_acked]
      exact hi
    · rw [heq]
      exact hi
  rw [input]
  split
  · exact h
  · have hloop := loop_keeps (P := fun kcp => R kcp.receiver) hsegment data.length data
      (i := ⟨kcp, false, 0⟩) h
    dsimp only
    split
    · exact hloop
    · rw [(parts_finish long _ _).2]
      exact hloop

theorem sender_input {S : Sender → Prop}
    (hanswered : ∀ (kcp : IKCPCB) (seg : IKCPSEG), seg.wnd.toNat < 2 ^ 16 → S kcp.sender →
      S (answered long kcp seg).sender)
    (hacked : ∀ (kcp : IKCPCB) (seg : IKCPSEG), S kcp.sender → S (kcp.acked long seg).sender)
    (h : S kcp.sender) (data : List Byte) : S (kcp.input long data).1.sender := by
  have hsegment : ∀ (i : Input) (seg : IKCPSEG), Header seg → S i.kcp.sender →
      S (i.segment long seg).kcp.sender := by
    intro i seg hseg hi
    have hfirst := hanswered i.kcp seg hseg.wnd hi
    rcases segment_cases long i hseg.cmd with ⟨-, heq⟩ | ⟨-, heq⟩ | ⟨-, heq, -⟩
    · rw [heq, sender_pushed]
      exact hfirst
    · rw [heq]
      exact hacked _ seg hfirst
    · rw [heq]
      exact hfirst
  rw [input]
  split
  · exact h
  · have hloop := loop_keeps (P := fun kcp => S kcp.sender) hsegment data.length data
      (i := ⟨kcp, false, 0⟩) h
    dsimp only
    split
    · exact hloop
    · rw [(parts_finish long _ _).1]
      exact hloop

theorem receiver_flush {R : Receiver → Prop} (hforget : ∀ r, R r → R { r with acklist := [] })
    (h : R kcp.receiver) : R (kcp.flush long).1.receiver := by
  by_cases hupdated : kcp.updated = 0
  · rw [flush, if_pos hupdated]
    exact h
  · obtain ⟨-, -, -, -, heq⟩ := flush_eq long hupdated
    rw [heq]
    exact hforget _ h

theorem sender_flush {S : Sender → Prop}
    (hmove : ∀ (kcp : IKCPCB) (wnd cwnd : UInt32), cwnd.toNat ≤ kcp.rmtWnd.toNat → S kcp.sender →
      S (moveToBuf long wnd cwnd kcp kcp.sndQueue).sender)
    (h : S kcp.sender) : S (kcp.flush long).1.sender := by
  by_cases hupdated : kcp.updated = 0
  · rw [flush, if_pos hupdated]
    exact h
  · obtain ⟨probed, hprobed, -, heq, -⟩ := flush_eq long hupdated
    rw [heq]
    refine hmove probed _ _ (sendWindow_le probed) ?_
    rw [hprobed]
    exact h

theorem receiver_update {R : Receiver → Prop} (hforget : ∀ r, R r → R { r with acklist := [] })
    (h : R kcp.receiver) (current : UInt32) : R (kcp.update long current).1.receiver := by
  obtain ⟨clocked, -, hreceiver, -, heq | ⟨-, heq⟩⟩ := update_cases long kcp current
  · rw [heq, hreceiver]
    exact h
  · rw [heq]
    exact receiver_flush hforget (hreceiver ▸ h)

theorem sender_update {S : Sender → Prop}
    (hmove : ∀ (kcp : IKCPCB) (wnd cwnd : UInt32), cwnd.toNat ≤ kcp.rmtWnd.toNat → S kcp.sender →
      S (moveToBuf long wnd cwnd kcp kcp.sndQueue).sender)
    (h : S kcp.sender) (current : UInt32) : S (kcp.update long current).1.sender := by
  obtain ⟨clocked, hsender, -, -, heq | ⟨-, heq⟩⟩ := update_cases long kcp current
  · rw [heq, hsender]
    exact h
  · rw [heq]
    exact sender_flush hmove (hsender ▸ h)

/-- The conversation stays. -/
theorem conv_call (kcp : IKCPCB) (c : Call) : (kcp.call long c).conv = kcp.conv := by
  have hmove (k : IKCPCB) (wnd cwnd : UInt32) (_ : cwnd.toNat ≤ k.rmtWnd.toNat)
      (hk : k.conv = kcp.conv) :
      (moveToBuf long wnd cwnd k k.sndQueue).conv = kcp.conv := by
    obtain ⟨_, _, _, _, _, heq⟩ := moveToBuf_eq long wnd cwnd k k.sndQueue
    rw [heq]
    exact hk
  cases c with
  | send buffer =>
      have hfragments (k : IKCPCB) (rest : List Byte) : (k.sendFragments rest).1.conv = k.conv := by
        simp only [sendFragments]
        split <;> rfl
      have hfill : (kcp.fillLast buffer).1.conv = kcp.conv := by
        rw [fillLast]
        split
        · split <;> rfl
        · rfl
      show (kcp.send buffer).1.conv = kcp.conv
      simp only [IKCPCB.send]
      split_ifs
      · exact hfill
      · exact (hfragments _ _).trans hfill
      · exact hfragments kcp buffer
  | recv len => exact congrArg Sender.conv (sender_recv kcp len)
  | input data =>
      refine sender_input (S := fun s => s.conv = kcp.conv) (fun k seg _ hk => ?_)
        (fun k seg hk => ?_) rfl data
      · exact hk
      · obtain ⟨_, _, _, heq⟩ := sender_acked long k seg
        rw [heq]
        exact hk
  | update current =>
      exact sender_update (S := fun s => s.conv = kcp.conv) hmove rfl current
  | flush => exact sender_flush (S := fun s => s.conv = kcp.conv) hmove rfl
  | setmtu mtu =>
      show (kcp.setmtu mtu).1.conv = kcp.conv
      rw [IKCPCB.setmtu]
      split <;> rfl
  | interval interval => rfl
  | nodelay nodelay interval resend nc => rfl
  | wndsize sndwnd rcvwnd => rfl

/-! ### The receiver -/

/-- How far a segment is ahead of the next. -/
def Receiver.offset (r : Receiver) (seg : IKCPSEG) : ℕ := (seg.sn - r.nxt).toNat

/-- `rcv_buf` is in order and inside the window, which is at most `W`. -/
structure Orderly (W : ℕ) (r : Receiver) : Prop where
  wnd_ge : 128 ≤ r.wnd.toNat
  wnd_le : r.wnd.toNat ≤ W
  queue_le : r.queue.length ≤ W
  nque : r.nque = UInt32.ofNat r.queue.length
  nbuf : r.nbuf = UInt32.ofNat r.buf.length
  sorted : r.buf.Pairwise fun a b => r.offset a < r.offset b
  near : ∀ seg ∈ r.buf, r.offset seg < W

variable {W : ℕ}

/-- So it is small. -/
theorem Orderly.length_le {r : Receiver} (h : Orderly W r) : r.buf.length ≤ W := by
  have hnodup : (r.buf.map r.offset).Nodup :=
    (List.pairwise_map.mpr h.sorted).imp fun hlt => Nat.ne_of_lt hlt
  have hsub : r.buf.map r.offset ⊆ List.range W := by
    intro o ho
    obtain ⟨seg, hseg, rfl⟩ := List.mem_map.mp ho
    exact List.mem_range.mpr (h.near seg hseg)
  have := (hnodup.subperm hsub).length_le
  rwa [List.length_map, List.length_range] at this

/-- What `ikcp_parse_data` takes is inside the window. -/
theorem offset_lt {sn nxt wnd : UInt32} (hwnd : wnd.toNat < 2 ^ 31)
    (hahead : itimediff .bits32 sn (nxt + wnd) < 0) (hbehind : 0 ≤ itimediff .bits32 sn nxt) :
    (sn - nxt).toNat < wnd.toNat := by
  rw [itimediff, Serial.sub_add_eq, Serial.signed_eq, UInt32.toNat_sub] at hahead
  rw [itimediff, Serial.signed_eq] at hbehind
  have := (sn - nxt).toNat_lt
  split at hahead <;> split at hbehind <;> omega

/-- Inside the window segments are compared as they lie. -/
theorem itimediff_offset {a b nxt : UInt32} (ha : (a - nxt).toNat < 2 ^ 31)
    (hb : (b - nxt).toNat < 2 ^ 31) :
    itimediff .bits32 a b = ((a - nxt).toNat : ℤ) - (b - nxt).toNat := by
  rw [itimediff, ← Serial.sub_sub_sub a b nxt, Serial.signed_eq, UInt32.toNat_sub]
  split <;> omega

theorem moveAvailable_keeps (hW : W < 2 ^ 31) (kcp : IKCPCB) (segs : List IKCPSEG)
    (h : Orderly W { kcp.receiver with buf := segs }) :
    Orderly W (kcp.moveAvailable segs).receiver := by
  induction segs generalizing kcp with
  | nil => exact h
  | cons seg segs ih =>
      rw [moveAvailable]
      split_ifs with hmove
      · obtain ⟨hsn, hroom⟩ := hmove
        have hnque : kcp.nrcvQue = UInt32.ofNat kcp.rcvQueue.length := h.nque
        have hnbuf : kcp.nrcvBuf = UInt32.ofNat (segs.length + 1) := h.nbuf
        have hle : kcp.rcvQueue.length ≤ W := h.queue_le
        have hwnd : kcp.rcvWnd.toNat ≤ W := h.wnd_le
        have hlt : kcp.rcvQueue.length < kcp.rcvWnd.toNat := by
          have := UInt32.lt_iff_toNat_lt.mp hroom
          rw [hnque, UInt32.toNat_ofNat'] at this
          omega
        obtain ⟨hhead, hrest⟩ := List.pairwise_cons.mp h.sorted
        -- the others are one nearer then
        have hoffset : ∀ s ∈ segs, (s.sn - (kcp.rcvNxt + 1)).toNat + 1 = (s.sn - kcp.rcvNxt).toNat := by
          intro s hs
          have hzero : (seg.sn - kcp.rcvNxt).toNat = 0 := by rw [hsn, UInt32.sub_self]; rfl
          have hpos : (seg.sn - kcp.rcvNxt).toNat < (s.sn - kcp.rcvNxt).toNat := hhead s hs
          have hone : (1 : UInt32).toNat = 1 := rfl
          have hbound := (s.sn - kcp.rcvNxt).toNat_lt
          rw [Serial.sub_add_eq, UInt32.toNat_sub, hone]
          omega
        refine ih _ ⟨h.wnd_ge, h.wnd_le, ?_, ?_, ?_, ?_, fun s hs => ?_⟩
        · show (kcp.rcvQueue ++ [seg]).length ≤ W
          rw [List.length_append, List.length_singleton]
          omega
        · show kcp.nrcvQue + 1 = UInt32.ofNat (kcp.rcvQueue ++ [seg]).length
          rw [List.length_append, List.length_singleton, Serial.ofNat_succ, hnque]
        · show kcp.nrcvBuf - 1 = UInt32.ofNat segs.length
          rw [hnbuf, Serial.ofNat_succ, UInt32.add_sub_cancel]
        · refine hrest.imp_of_mem fun {a b} ha hb hab => ?_
          have hab' : (a.sn - kcp.rcvNxt).toNat < (b.sn - kcp.rcvNxt).toNat := hab
          have := hoffset a ha
          have := hoffset b hb
          show (a.sn - (kcp.rcvNxt + 1)).toNat < (b.sn - (kcp.rcvNxt + 1)).toNat
          omega
        · have hnear : (s.sn - kcp.rcvNxt).toNat < W := h.near s (List.mem_cons_of_mem _ hs)
          have := hoffset s hs
          show (s.sn - (kcp.rcvNxt + 1)).toNat < W
          omega
      · exact h

/-- A segment comes to its place between the others. -/
theorem insertBack_sorted (nxt : UInt32) {seg : IKCPSEG} (hseg : (seg.sn - nxt).toNat < 2 ^ 31)
    {prev result : List IKCPSEG}
    (hsorted : prev.Pairwise fun a b => (b.sn - nxt).toNat < (a.sn - nxt).toNat)
    (hnear : ∀ s ∈ prev, (s.sn - nxt).toNat < 2 ^ 31)
    (h : insertBack .bits32 seg prev = some result) :
    (result.Pairwise fun a b => (b.sn - nxt).toNat < (a.sn - nxt).toNat) ∧
      (∀ s ∈ result, s = seg ∨ s ∈ prev) ∧ result.length = prev.length + 1 := by
  induction prev generalizing result with
  | nil =>
      obtain rfl := Option.some.inj h
      exact ⟨List.pairwise_singleton _ _, fun s hs => Or.inl (List.mem_singleton.mp hs), rfl⟩
  | cons last prev ih =>
      obtain ⟨hhead, htail⟩ := List.pairwise_cons.mp hsorted
      have hlast := hnear last List.mem_cons_self
      rw [insertBack, itimediff_offset hseg hlast] at h
      split_ifs at h with hsame hgt
      · -- behind the last one
        obtain rfl := Option.some.inj h
        refine ⟨List.pairwise_cons.mpr ⟨fun s hs => ?_, hsorted⟩, fun s hs => ?_, rfl⟩
        · rcases List.mem_cons.mp hs with rfl | hs
          · omega
          · have := hhead s hs
            omega
        · exact (List.mem_cons.mp hs)
      · -- before the last one
        obtain ⟨result', hresult, rfl⟩ := Option.map_eq_some_iff.mp h
        obtain ⟨hpair, hmem, hlen⟩ := ih htail (fun s hs => hnear s (List.mem_cons_of_mem _ hs))
          hresult
        have hne : (last.sn - nxt).toNat ≠ (seg.sn - nxt).toNat := fun heq =>
          hsame (Serial.sub_right_cancel (UInt32.toNat_inj.mp heq))
        refine ⟨List.pairwise_cons.mpr ⟨fun s hs => ?_, hpair⟩, fun s hs => ?_, ?_⟩
        · rcases hmem s hs with rfl | hs
          · omega
          · exact hhead s hs
        · rcases List.mem_cons.mp hs with rfl | hs
          · exact Or.inr List.mem_cons_self
          · exact (hmem s hs).imp_right (List.mem_cons_of_mem _)
        · rw [List.length_cons, hlen, List.length_cons]

theorem parseData_keeps (hW : W < 2 ^ 31) (long : LongWidth) (kcp : IKCPCB) (seg : IKCPSEG)
    (h : Orderly W kcp.receiver) : Orderly W (kcp.parseData long seg).receiver := by
  rw [parseData]
  split_ifs with hwindow
  · exact h
  have hin := not_or.mp hwindow
  cases long with
  | bits64 => exact absurd (Int.natCast_nonneg _) hin.1
  | bits32 =>
      have hwnd : kcp.rcvWnd.toNat ≤ W := h.wnd_le
      have hoffset := offset_lt (by omega) (Int.not_le.mp hin.1) (Int.not_lt.mp hin.2)
      rcases hback : insertBack .bits32 seg kcp.rcvBuf.reverse with - | result
      · exact moveAvailable_keeps hW _ _ h
      · have hnear : ∀ s ∈ kcp.rcvBuf.reverse, (s.sn - kcp.rcvNxt).toNat < 2 ^ 31 := by
          intro s hs
          have hlt : (s.sn - kcp.rcvNxt).toNat < W := h.near s (List.mem_reverse.mp hs)
          omega
        obtain ⟨hpair, hmem, hlen⟩ := insertBack_sorted kcp.rcvNxt
          ((hoffset.trans_le hwnd).trans hW) (List.pairwise_reverse.mpr h.sorted) hnear hback
        refine moveAvailable_keeps hW _ _ ⟨h.wnd_ge, h.wnd_le, h.queue_le, h.nque, ?_, ?_,
          fun s hs => ?_⟩
        · have hnbuf : kcp.nrcvBuf = UInt32.ofNat kcp.rcvBuf.length := h.nbuf
          show kcp.nrcvBuf + 1 = UInt32.ofNat result.reverse.length
          rw [List.length_reverse, hlen, List.length_reverse, Serial.ofNat_succ, hnbuf]
          rfl
        · exact List.pairwise_reverse.mpr hpair
        · rcases hmem s (List.mem_reverse.mp hs) with rfl | hs
          · exact hoffset.trans_le hwnd
          · exact h.near s (List.mem_reverse.mp hs)

theorem Orderly.forget {r : Receiver} (h : Orderly W r) (acklist : List (UInt32 × UInt32)) :
    Orderly W { r with acklist } :=
  ⟨h.wnd_ge, h.wnd_le, h.queue_le, h.nque, h.nbuf, h.sorted, h.near⟩

theorem pushed_keeps (hW : W < 2 ^ 31) (long : LongWidth) (kcp : IKCPCB) (seg : IKCPSEG)
    (h : Orderly W kcp.receiver) : Orderly W (kcp.pushed long seg).receiver := by
  rw [pushed]
  split_ifs
  · exact parseData_keeps hW long _ seg (h.forget _)
  · exact h.forget _
  · exact h

theorem merge_suffix (segs : List IKCPSEG) : (merge segs).2 <:+ segs := (merge_eq_first segs).2.2

theorem recv_keeps (hW : W < 2 ^ 31) (h : Orderly W kcp.receiver) (len : ℤ) :
    Orderly W (kcp.recv len).1.receiver := by
  have hdeleted : Orderly W kcp.deleteFirst.receiver := by
    have hle := (merge_suffix kcp.rcvQueue).length_le
    have hqueue : kcp.rcvQueue.length ≤ W := h.queue_le
    have hnque : kcp.nrcvQue = UInt32.ofNat kcp.rcvQueue.length := h.nque
    refine ⟨h.wnd_ge, h.wnd_le, hle.trans hqueue, ?_, h.nbuf, h.sorted, h.near⟩
    show kcp.nrcvQue - UInt32.ofNat (kcp.rcvQueue.length - (merge kcp.rcvQueue).2.length)
      = UInt32.ofNat (merge kcp.rcvQueue).2.length
    rw [hnque, Serial.ofNat_sub_ofNat hle]
  rw [recv]
  split_ifs
  · exact h
  · exact h
  · exact h
  · exact moveAvailable_keeps hW _ _ h
  · exact moveAvailable_keeps hW _ _ hdeleted

/-- A receive window that a call sets is at most `W`. -/
def Call.Within (W : ℕ) : Call → Prop
  | .wndsize _ rcvwnd => rcvwnd.toInt ≤ W
  | _ => True

theorem Orderly.call (hW : W < 2 ^ 31) (h : Orderly W kcp.receiver) {c : Call}
    (hc : c.Within W) : Orderly W (kcp.call long c).receiver := by
  cases c with
  | send buffer => exact (receiver_send kcp buffer).symm ▸ h
  | recv len => exact recv_keeps hW h len
  | input data => exact receiver_input (fun kcp seg => pushed_keeps hW long kcp seg) h data
  | update current => exact receiver_update (fun r hr => hr.forget []) h current
  | flush => exact receiver_flush (fun r hr => hr.forget []) h
  | setmtu mtu =>
      show Orderly W (kcp.setmtu mtu).1.receiver
      rw [IKCPCB.setmtu]
      split <;> exact h
  | interval interval => exact h
  | nodelay nodelay interval resend nc => exact h
  | wndsize sndwnd rcvwnd =>
      have hwnd := toNat_wndsize kcp sndwnd (fun _ => hc) h.wnd_ge h.wnd_le
      exact ⟨hwnd.1, hwnd.2, h.queue_le, h.nque, h.nbuf, h.sorted, h.near⟩

/-! ### The sender -/

/-- `snd_buf` is in order and inside the window from `snd_una` to `snd_nxt`. -/
structure InFlight (s : Sender) : Prop where
  rmtWnd : s.rmtWnd.toNat < 2 ^ 16
  nque : s.nque = UInt32.ofNat s.queue.length
  nbuf : s.nbuf = UInt32.ofNat s.buf.length
  window : (s.nxt - s.una).toNat ≤ 2 ^ 16
  sorted : s.buf.Pairwise fun a b => (a.sn - s.una).toNat < (b.sn - s.una).toNat
  inside : ∀ seg ∈ s.buf, (seg.sn - s.una).toNat < (s.nxt - s.una).toNat

/-- So it is small. -/
theorem InFlight.length_le {s : Sender} (h : InFlight s) : s.buf.length ≤ 2 ^ 16 := by
  have hnodup : (s.buf.map fun seg => (seg.sn - s.una).toNat).Nodup :=
    (List.pairwise_map.mpr h.sorted).imp fun hlt => Nat.ne_of_lt hlt
  have hsub : (s.buf.map fun seg => (seg.sn - s.una).toNat) ⊆ List.range (2 ^ 16) := by
    intro o ho
    obtain ⟨seg, hseg, rfl⟩ := List.mem_map.mp ho
    exact List.mem_range.mpr ((h.inside seg hseg).trans_le h.window)
  have := (hnodup.subperm hsub).length_le
  rwa [List.length_map, List.length_range] at this

/-- Nearer numbers are compared as farther ones are. -/
theorem offset_sub {a u nxt : UInt32} (h : (u - nxt).toNat ≤ (a - nxt).toNat) :
    (a - u).toNat = (a - nxt).toNat - (u - nxt).toNat := by
  rw [← Serial.sub_sub_sub a u nxt, UInt32.toNat_sub_of_le _ _ (UInt32.le_iff_toNat_le.mpr h)]

/-- After segments have been taken out, `snd_una` moves to the first left. -/
theorem inFlight_shrinkBuf (una : UInt32) (hrmt : kcp.rmtWnd.toNat < 2 ^ 16)
    (hnque : kcp.nsndQue = UInt32.ofNat kcp.sndQueue.length)
    (hnbuf : kcp.nsndBuf = UInt32.ofNat kcp.sndBuf.length)
    (hwindow : (kcp.sndNxt - una).toNat ≤ 2 ^ 16)
    (hsorted : kcp.sender.buf.Pairwise fun a b => (a.sn - una).toNat < (b.sn - una).toNat)
    (hinside : ∀ seg ∈ kcp.sender.buf, (seg.sn - una).toNat < (kcp.sndNxt - una).toNat) :
    InFlight kcp.shrinkBuf.sender := by
  have hlen : kcp.sender.buf.length = kcp.sndBuf.length := List.length_map _
  have hshrunk : kcp.shrinkBuf.sender.buf = kcp.sender.buf := rfl
  rcases hbuf : kcp.sndBuf with - | ⟨first, segs⟩
  · have hnil : kcp.sender.buf = [] := congrArg (List.map SndSeg.fixed) hbuf
    have huna : kcp.shrinkBuf.sender.una = kcp.sndNxt := sndUna_shrinkBuf_of_nil hbuf
    refine ⟨hrmt, hnque, ?_, ?_, ?_, ?_⟩
    · rw [hshrunk, hlen]
      exact hnbuf
    · rw [huna]
      show (kcp.sndNxt - kcp.sndNxt).toNat ≤ 2 ^ 16
      rw [UInt32.sub_self]
      exact Nat.zero_le _
    · rw [hshrunk, hnil]
      exact List.Pairwise.nil
    · rw [hshrunk, hnil]
      exact fun _ h => absurd h List.not_mem_nil
  · have hcons : kcp.sender.buf = first.fixed :: segs.map SndSeg.fixed :=
      congrArg (List.map SndSeg.fixed) hbuf
    have huna : kcp.shrinkBuf.sender.una = first.sn := sndUna_shrinkBuf_of_cons hbuf
    have hfirst := hinside first.fixed (by rw [hcons]; exact List.mem_cons_self)
    have hhead := hsorted
    rw [hcons] at hhead
    -- the first left is the nearest, so every distance gets smaller by its own
    have hle : ∀ seg ∈ kcp.sender.buf, (first.sn - una).toNat ≤ (seg.sn - una).toNat := by
      intro seg hseg
      rw [hcons] at hseg
      rcases List.mem_cons.mp hseg with rfl | hseg
      · exact Nat.le_refl _
      · exact ((List.pairwise_cons.mp hhead).1 seg hseg).le
    have hnxt : (kcp.sndNxt - first.sn).toNat
        = (kcp.sndNxt - una).toNat - (first.sn - una).toNat := offset_sub hfirst.le
    refine ⟨hrmt, hnque, ?_, ?_, ?_, fun seg hseg => ?_⟩
    · rw [hshrunk, hlen]
      exact hnbuf
    · rw [huna]
      show (kcp.sndNxt - first.sn).toNat ≤ 2 ^ 16
      omega
    · rw [huna, hshrunk]
      refine hsorted.imp_of_mem fun {a b} ha hb hab => ?_
      rw [offset_sub (hle a ha), offset_sub (hle b hb)]
      have := hle a ha
      omega
    · rw [huna]
      show (seg.sn - first.sn).toNat < (kcp.sndNxt - first.sn).toNat
      rw [offset_sub (hle seg hseg), hnxt]
      have hin := hinside seg hseg
      have := hle seg hseg
      omega

theorem inFlight_answered (long : LongWidth) (kcp : IKCPCB) (seg : IKCPSEG)
    (hwnd : seg.wnd.toNat < 2 ^ 16) (h : InFlight kcp.sender) :
    InFlight (answered long kcp seg).sender := by
  have hsuffix : (kcp.sndBuf.dropWhile fun s => decide (itimediff long seg.una s.sn > 0))
      <:+ kcp.sndBuf := List.dropWhile_suffix _
  have hsub := hsuffix.sublist.map SndSeg.fixed
  have hnbuf : kcp.nsndBuf = UInt32.ofNat kcp.sndBuf.length := by
    have heq : kcp.sender.buf.length = kcp.sndBuf.length := List.length_map _
    rw [← heq]
    exact h.nbuf
  rw [answered]
  refine inFlight_shrinkBuf kcp.sndUna hwnd h.nque ?_ h.window (h.sorted.sublist hsub)
    fun s hs => h.inside s (hsub.subset hs)
  show kcp.nsndBuf - UInt32.ofNat (kcp.sndBuf.length - _) = _
  rw [hnbuf]
  exact Serial.ofNat_sub_ofNat hsuffix.length_le

theorem removeAcked_sublist {sn : UInt32} {segs rest : List SndSeg}
    (h : removeAcked long sn segs = some rest) :
    rest.Sublist segs ∧ rest.length + 1 = segs.length := by
  induction segs generalizing rest with
  | nil => cases h
  | cons seg segs ih =>
      rw [removeAcked] at h
      split_ifs at h with hsame hbefore
      · obtain rfl := Option.some.inj h
        exact ⟨List.sublist_cons_self _ _, rfl⟩
      · obtain ⟨rest', hrest, rfl⟩ := Option.map_eq_some_iff.mp h
        obtain ⟨hsub, hlen⟩ := ih hrest
        exact ⟨hsub.cons_cons seg, congrArg (· + 1) hlen⟩

theorem inFlight_acked (long : LongWidth) (kcp : IKCPCB) (seg : IKCPSEG)
    (h : InFlight kcp.sender) : InFlight (kcp.acked long seg).sender := by
  have hnbuf : kcp.nsndBuf = UInt32.ofNat kcp.sndBuf.length := by
    have heq : kcp.sender.buf.length = kcp.sndBuf.length := List.length_map _
    rw [← heq]
    exact h.nbuf
  have hparse (k : IKCPCB) (hk : k.sender = kcp.sender) (hkbuf : k.sndBuf = kcp.sndBuf) :
      InFlight (k.parseAck long seg.sn).shrinkBuf.sender := by
    have hknbuf : k.nsndBuf = UInt32.ofNat k.sndBuf.length := by
      rw [hkbuf, ← hnbuf]
      exact congrArg Sender.nbuf hk
    rw [← hk] at h
    rw [parseAck]
    split_ifs
    · exact inFlight_shrinkBuf k.sndUna h.rmtWnd h.nque hknbuf h.window h.sorted h.inside
    · rcases hr : removeAcked long seg.sn k.sndBuf with - | rest
      · exact inFlight_shrinkBuf k.sndUna h.rmtWnd h.nque hknbuf h.window h.sorted h.inside
      · obtain ⟨hsub, hlen⟩ := removeAcked_sublist hr
        refine inFlight_shrinkBuf k.sndUna h.rmtWnd h.nque ?_ h.window
          (h.sorted.sublist (hsub.map SndSeg.fixed)) fun s hs =>
            h.inside s ((hsub.map SndSeg.fixed).subset hs)
        show k.nsndBuf - 1 = UInt32.ofNat rest.length
        rw [hknbuf, ← hlen, Serial.ofNat_succ, UInt32.add_sub_cancel]
  rw [acked]
  split
  · exact hparse _ rfl rfl
  · exact hparse _ rfl rfl

theorem inFlight_moveToBuf (long : LongWidth) {wnd cwnd : UInt32} (hcwnd : cwnd.toNat < 2 ^ 16)
    (fs : List (Fragment Byte)) (kcp : IKCPCB) (h : InFlight { kcp.sender with queue := fs }) :
    InFlight (moveToBuf long wnd cwnd kcp fs).sender := by
  induction fs generalizing kcp with
  | nil => exact h
  | cons f fs ih =>
      rw [moveToBuf]
      split_ifs with hroom
      · cases long with
        | bits64 => exact absurd hroom (itimediff_bits64 _ _)
        | bits32 =>
            have hwindow : (kcp.sndNxt - kcp.sndUna).toNat ≤ 2 ^ 16 := h.window
            have hlt : (kcp.sndNxt - kcp.sndUna).toNat < cwnd.toNat := by
              rw [itimediff, Serial.sub_add_eq, Serial.signed_eq, UInt32.toNat_sub] at hroom
              have := cwnd.toNat_lt
              split at hroom <;> omega
            -- the window is one longer then
            have hnxt : (kcp.sndNxt + 1 - kcp.sndUna).toNat
                = (kcp.sndNxt - kcp.sndUna).toNat + 1 := by
              have hcomm : kcp.sndNxt + 1 - kcp.sndUna = kcp.sndNxt - kcp.sndUna + 1 := by
                rw [UInt32.sub_eq_add_neg, UInt32.sub_eq_add_neg, UInt32.add_assoc,
                  UInt32.add_comm 1, ← UInt32.add_assoc]
              have hone : (1 : UInt32).toNat = 1 := rfl
              rw [hcomm, UInt32.toNat_add, hone]
              omega
            have hnque : kcp.nsndQue = UInt32.ofNat (fs.length + 1) := h.nque
            have hnbuf : kcp.nsndBuf = UInt32.ofNat kcp.sender.buf.length := h.nbuf
            have hbuf : (kcp.sndBuf ++ [kcp.newSegment wnd f]).map SndSeg.fixed
                = kcp.sender.buf ++ [(kcp.newSegment wnd f).fixed] := List.map_append
            have hsorted : kcp.sender.buf.Pairwise fun a b =>
                (a.sn - kcp.sndUna).toNat < (b.sn - kcp.sndUna).toNat := h.sorted
            have hinside : ∀ seg ∈ kcp.sender.buf,
                (seg.sn - kcp.sndUna).toNat < (kcp.sndNxt - kcp.sndUna).toNat := h.inside
            refine ih _ ⟨h.rmtWnd, ?_, ?_, ?_, ?_, fun seg hseg => ?_⟩
            · show kcp.nsndQue - 1 = UInt32.ofNat fs.length
              rw [hnque, Serial.ofNat_succ, UInt32.add_sub_cancel]
            · show kcp.nsndBuf + 1
                = UInt32.ofNat ((kcp.sndBuf ++ [kcp.newSegment wnd f]).map SndSeg.fixed).length
              rw [hbuf, List.length_append, List.length_singleton, Serial.ofNat_succ, hnbuf]
            · show (kcp.sndNxt + 1 - kcp.sndUna).toNat ≤ 2 ^ 16
              omega
            · show ((kcp.sndBuf ++ [kcp.newSegment wnd f]).map SndSeg.fixed).Pairwise _
              rw [hbuf]
              refine List.pairwise_append.mpr ⟨hsorted, List.pairwise_singleton _ _,
                fun a ha b hb => ?_⟩
              rw [List.mem_singleton.mp hb]
              exact hinside a ha
            · have hseg' : seg ∈ kcp.sender.buf ++ [(kcp.newSegment wnd f).fixed] := hbuf ▸ hseg
              show (seg.sn - kcp.sndUna).toNat < (kcp.sndNxt + 1 - kcp.sndUna).toNat
              rw [hnxt]
              rcases List.mem_append.mp hseg' with hseg' | hseg'
              · exact (hinside seg hseg').trans (Nat.lt_succ_self _)
              · rw [List.mem_singleton.mp hseg']
                exact Nat.lt_succ_self _
      · exact h

theorem InFlight.queue {s : Sender} (h : InFlight s) {queue : List (Fragment Byte)} {nque : UInt32}
    (hnque : nque = UInt32.ofNat queue.length) : InFlight { s with queue, nque } :=
  ⟨h.rmtWnd, hnque, h.nbuf, h.window, h.sorted, h.inside⟩

theorem inFlight_sendFragments (h : InFlight kcp.sender) (buffer : List Byte) :
    InFlight (kcp.sendFragments buffer).1.sender := by
  simp only [sendFragments]
  split
  · exact h
  · have hnque : kcp.nsndQue = UInt32.ofNat kcp.sndQueue.length := h.nque
    refine h.queue ?_
    rw [List.length_append, List.length_map, Fragment.length_pieces, UInt32.ofNat_add, hnque]

theorem inFlight_fillLast (h : InFlight kcp.sender) (buffer : List Byte) :
    InFlight (kcp.fillLast buffer).1.sender := by
  rw [fillLast]
  rcases hlast : kcp.sndQueue.getLast? with - | old
  · exact h
  · dsimp only
    split_ifs
    · have hnque : kcp.nsndQue = UInt32.ofNat kcp.sndQueue.length := h.nque
      have hne : kcp.sndQueue ≠ [] := by
        intro hnil
        rw [hnil] at hlast
        cases hlast
      refine h.queue (hnque.trans (congrArg UInt32.ofNat ?_))
      rw [List.length_append, List.length_dropLast, List.length_singleton]
      exact (Nat.sub_add_cancel (List.length_pos_of_ne_nil hne)).symm
    · exact h

theorem InFlight.call (h : InFlight kcp.sender) (c : Call) :
    InFlight (kcp.call long c).sender := by
  cases c with
  | send buffer =>
      show InFlight (kcp.send buffer).1.sender
      simp only [IKCPCB.send]
      split_ifs
      · exact inFlight_fillLast h buffer
      · exact inFlight_sendFragments (inFlight_fillLast h buffer) _
      · exact inFlight_sendFragments h buffer
  | recv len => exact (sender_recv kcp len).symm ▸ h
  | input data =>
      exact sender_input (inFlight_answered long) (inFlight_acked long) h data
  | update current =>
      exact sender_update (fun k wnd cwnd hcwnd hk =>
        inFlight_moveToBuf long (hcwnd.trans_lt hk.rmtWnd) _ k hk) h current
  | flush =>
      exact sender_flush (fun k wnd cwnd hcwnd hk =>
        inFlight_moveToBuf long (hcwnd.trans_lt hk.rmtWnd) _ k hk) h
  | setmtu mtu =>
      show InFlight (kcp.setmtu mtu).1.sender
      rw [IKCPCB.setmtu]
      split
      · exact h
      · exact ⟨h.rmtWnd, h.nque, h.nbuf, h.window, h.sorted, h.inside⟩
  | interval interval => exact h
  | nodelay nodelay interval resend nc => exact h
  | wndsize sndwnd rcvwnd => exact h

/-! ### Any calls -/

/-- What a call keeps, any calls keep. -/
theorem calls_keep {P : IKCPCB → Prop} {C : Call → Prop}
    (hcall : ∀ kcp c, C c → P kcp → P (kcp.call long c)) {calls : List Call}
    (hcalls : ∀ c ∈ calls, C c) (h : P kcp) : P (calls.foldl (call long) kcp) := by
  induction calls generalizing kcp with
  | nil => exact h
  | cons c calls ih =>
      exact ih (fun c hc => hcalls c (List.mem_cons_of_mem _ hc))
        (hcall kcp c (hcalls c List.mem_cons_self) h)

theorem orderly_create (conv : UInt32) (hmin : 128 ≤ W) : Orderly W (create conv).receiver :=
  ⟨Nat.le_refl 128, hmin, Nat.zero_le _, rfl, rfl, List.Pairwise.nil,
    fun _ h => absurd h List.not_mem_nil⟩

theorem inFlight_create (conv : UInt32) : InFlight (create conv).sender := by
  refine ⟨?_, rfl, rfl, ?_, List.Pairwise.nil, fun _ h => absurd h List.not_mem_nil⟩
  · show (128 : ℕ) < 2 ^ 16
    norm_num
  · show ((0 : UInt32) - 0).toNat ≤ 2 ^ 16
    rw [UInt32.sub_self]
    exact Nat.zero_le _

/-- **A control block stays small**, whatever bytes it is given: the lists of what has come are
no longer than the receive window, what is in flight is no longer than 16 bits can tell,
and the counters are the lengths of the lists. -/
theorem calls_stay_small (long : LongWidth) (conv : UInt32) {W : ℕ} (hmin : 128 ≤ W)
    (hW : W < 2 ^ 31) {calls : List Call} (hcalls : ∀ c ∈ calls, c.Within W) :
    let kcp := calls.foldl (call long) (create conv)
    (kcp.rcvBuf.length ≤ W ∧ kcp.rcvQueue.length ≤ W ∧ kcp.sndBuf.length ≤ 2 ^ 16) ∧
      (kcp.rcvBuf.map IKCPSEG.sn).Nodup ∧ (kcp.sndBuf.map fun seg => seg.sn).Nodup ∧
      kcp.nrcvBuf.toNat = kcp.rcvBuf.length ∧ kcp.nrcvQue.toNat = kcp.rcvQueue.length ∧
      kcp.nsndBuf.toNat = kcp.sndBuf.length ∧
      kcp.nsndQue = UInt32.ofNat kcp.sndQueue.length := by
  have hrcv : Orderly W (calls.foldl (call long) (create conv)).receiver :=
    calls_keep (P := fun kcp => Orderly W kcp.receiver) (fun _ _ hc h => h.call hW hc) hcalls
      (orderly_create conv hmin)
  have hsnd : InFlight (calls.foldl (call long) (create conv)).sender :=
    calls_keep (P := fun kcp => InFlight kcp.sender) (C := fun _ => True) (fun _ c _ h => h.call c)
      (fun _ _ => trivial) (inFlight_create conv)
  intro kcp
  have hbuf : kcp.sender.buf.length = kcp.sndBuf.length := List.length_map _
  have hrcvLen : kcp.rcvBuf.length ≤ W := hrcv.length_le
  have hsndLen : kcp.sender.buf.length ≤ 2 ^ 16 := hsnd.length_le
  have hqueueLen : kcp.rcvQueue.length ≤ W := hrcv.queue_le
  have hnrcvBuf : kcp.nrcvBuf = UInt32.ofNat kcp.rcvBuf.length := hrcv.nbuf
  have hnrcvQue : kcp.nrcvQue = UInt32.ofNat kcp.rcvQueue.length := hrcv.nque
  have hnsndBuf : kcp.nsndBuf = UInt32.ofNat kcp.sndBuf.length := hsnd.nbuf.trans (by rw [hbuf])
  refine ⟨⟨hrcvLen, hqueueLen, hbuf ▸ hsndLen⟩, ?_, ?_, ?_, ?_, ?_, hsnd.nque⟩
  · -- the offsets from `rcv_nxt` grow, so no number comes twice
    refine List.pairwise_map.mpr (hrcv.sorted.imp fun {a b} hlt heq => ?_)
    rw [Receiver.offset, Receiver.offset, heq] at hlt
    exact Nat.lt_irrefl _ hlt
  · have hmap : (kcp.sndBuf.map fun seg => seg.sn) = kcp.sender.buf.map IKCPSEG.sn := by
      show _ = (kcp.sndBuf.map SndSeg.fixed).map IKCPSEG.sn
      rw [List.map_map]
      rfl
    rw [hmap]
    refine List.pairwise_map.mpr (hsnd.sorted.imp fun {a b} hlt heq => ?_)
    rw [heq] at hlt
    exact Nat.lt_irrefl _ hlt
  · rw [hnrcvBuf, UInt32.toNat_ofNat']
    omega
  · rw [hnrcvQue, UInt32.toNat_ofNat']
    omega
  · rw [hnsndBuf, UInt32.toNat_ofNat', ← hbuf]
    omega

/-- Two of three segments come, the first and the last, and one is sent. -/
def twoOfThree : List Call :=
  [.nodelay 1 10 2 1, .wndsize 64 200,
    .input [1, 0, 0, 0, 81, 0, 200, 0, 0, 0, 0, 0, 2, 0, 0, 0, 0, 0, 0, 0, 1, 0, 0, 0, 9],
    .input [1, 0, 0, 0, 81, 0, 200, 0, 0, 0, 0, 0, 0, 0, 0, 0, 0, 0, 0, 0, 1, 0, 0, 0, 8],
    .send [7], .update 0]

theorem calls_stay_small_window :
    let kcp := twoOfThree.foldl (call .bits32) (create 1)
    (kcp.rcvBuf.map IKCPSEG.sn = [2] ∧ kcp.rcvQueue.map IKCPSEG.data = [[8]]
      ∧ kcp.sndBuf.map (fun seg => seg.data) = [[7]])
      ∧ (kcp.rcvBuf.length ≤ 200 ∧ kcp.rcvQueue.length ≤ 200 ∧ kcp.sndBuf.length ≤ 2 ^ 16) := by
  refine ⟨by decide +kernel,
    (calls_stay_small .bits32 1 (W := 200) (by norm_num) (by norm_num) ?_).1⟩
  intro c hc
  simp only [twoOfThree, List.mem_cons, List.not_mem_nil, or_false] at hc
  rcases hc with rfl | rfl | rfl | rfl | rfl | rfl
  · trivial
  · show (200 : Int32).toInt ≤ 200
    decide
  · trivial
  · trivial
  · trivial
  · trivial

/-! ### Where `long` has 64 bits -/

/-- Nothing has been sent and nothing has come. -/
structure Idle (kcp : IKCPCB) : Prop where
  rcvBuf : kcp.receiver.buf = []
  rcvQueue : kcp.receiver.queue = []
  acklist : kcp.receiver.acklist = []
  sndBuf : kcp.sender.buf = []

theorem pushed_bits64 (kcp : IKCPCB) (seg : IKCPSEG) : kcp.pushed .bits64 seg = kcp := by
  rw [pushed, if_neg (itimediff_bits64 _ _)]

theorem sender_moveToBuf_bits64 (wnd cwnd : UInt32) (kcp : IKCPCB) (fs : List (Fragment Byte)) :
    (moveToBuf .bits64 wnd cwnd kcp fs).sender.buf = kcp.sender.buf := by
  rcases fs with - | ⟨f, fs⟩
  · rfl
  · rw [moveToBuf, if_neg (itimediff_bits64 _ _)]
    rfl

theorem recv_of_empty (h : kcp.receiver.queue = []) (len : ℤ) :
    kcp.recv len = (kcp, .error (-1)) := by
  have hqueue : kcp.rcvQueue = [] := h
  rw [recv, if_pos (by rw [hqueue]; rfl)]

theorem buf_send (kcp : IKCPCB) (buffer : List Byte) :
    (kcp.send buffer).1.sender.buf = kcp.sender.buf := by
  have hfragments (k : IKCPCB) (rest : List Byte) :
      (k.sendFragments rest).1.sender.buf = k.sender.buf := by
    simp only [sendFragments]
    split <;> rfl
  have hfill : (kcp.fillLast buffer).1.sender.buf = kcp.sender.buf := by
    rw [fillLast]
    split
    · split <;> rfl
    · rfl
  simp only [send]
  split_ifs
  · exact hfill
  · exact (hfragments _ _).trans hfill
  · exact hfragments kcp buffer

theorem buf_answered_eq_nil (seg : IKCPSEG) (h : kcp.sender.buf = []) :
    (answered long kcp seg).sender.buf = [] := by
  have hbuf : kcp.sndBuf = [] := List.map_eq_nil_iff.mp h
  show (kcp.sndBuf.dropWhile fun s => decide (itimediff long seg.una s.sn > 0)).map SndSeg.fixed = []
  rw [hbuf]
  rfl

theorem buf_acked_eq_nil (seg : IKCPSEG) (h : kcp.sender.buf = []) :
    (kcp.acked long seg).sender.buf = [] := by
  have hbuf : kcp.sndBuf = [] := List.map_eq_nil_iff.mp h
  have hparse (k : IKCPCB) (hk : k.sndBuf = []) : (k.parseAck long seg.sn).sndBuf = [] := by
    rw [parseAck]
    split
    · exact hk
    · show (removeAcked long seg.sn k.sndBuf).getD k.sndBuf = []
      rw [hk]
      rfl
  refine List.map_eq_nil_iff.mpr ?_
  simp only [acked]
  split
  · exact hparse _ hbuf
  · exact hparse _ hbuf

theorem Idle.call (h : Idle kcp) (c : Call) : Idle (kcp.call .bits64 c) := by
  -- it has nothing to hand over or to put out
  let R : Receiver → Prop := fun r => r.buf = [] ∧ r.queue = [] ∧ r.acklist = []
  let S : Sender → Prop := fun s => s.buf = []
  have hR : R kcp.receiver := ⟨h.rcvBuf, h.rcvQueue, h.acklist⟩
  have hforget : ∀ r, R r → R { r with acklist := [] } := fun r hr => ⟨hr.1, hr.2.1, rfl⟩
  have hmove : ∀ (k : IKCPCB) (wnd cwnd : UInt32), cwnd.toNat ≤ k.rmtWnd.toNat → S k.sender →
      S (moveToBuf .bits64 wnd cwnd k k.sndQueue).sender :=
    fun k wnd cwnd _ hk => (sender_moveToBuf_bits64 wnd cwnd k _).trans hk
  suffices hboth : R (kcp.call .bits64 c).receiver ∧ S (kcp.call .bits64 c).sender from
    ⟨hboth.1.1, hboth.1.2.1, hboth.1.2.2, hboth.2⟩
  cases c with
  | send buffer =>
      refine ⟨(receiver_send kcp buffer).symm ▸ hR, ?_⟩
      show (kcp.send buffer).1.sender.buf = []
      rw [buf_send]
      exact h.sndBuf
  | recv len =>
      rw [IKCPCB.call, recv_of_empty h.rcvQueue]
      exact ⟨hR, h.sndBuf⟩
  | input data =>
      refine ⟨receiver_input (fun k seg hk => ?_) hR data,
        sender_input (fun k seg _ hk => ?_) (fun k seg hk => ?_) h.sndBuf data⟩
      · rw [pushed_bits64]
        exact hk
      · exact buf_answered_eq_nil seg hk
      · exact buf_acked_eq_nil seg hk
  | update current =>
      exact ⟨receiver_update hforget hR current, sender_update hmove h.sndBuf current⟩
  | flush => exact ⟨receiver_flush hforget hR, sender_flush hmove h.sndBuf⟩
  | setmtu mtu =>
      show R (kcp.setmtu mtu).1.receiver ∧ S (kcp.setmtu mtu).1.sender
      rw [IKCPCB.setmtu]
      split
      · exact ⟨hR, h.sndBuf⟩
      · exact ⟨hR, h.sndBuf⟩
  | interval interval => exact ⟨hR, h.sndBuf⟩
  | nodelay nodelay interval resend nc => exact ⟨hR, h.sndBuf⟩
  | wndsize sndwnd rcvwnd => exact ⟨hR, h.sndBuf⟩

/-- Then only probes are put out. -/
theorem Idle.emitted (h : Idle kcp) (c : Call) :
    ∀ d ∈ kcp.emitted .bits64 c, Writes (fun seg => seg.cmd = ikcpCmdWask ∨ seg.cmd = ikcpCmdWins) d := by
  have hflush (k : IKCPCB) (hk : Idle k) : ∀ d ∈ (k.flush .bits64).2,
      Writes (fun seg => seg.cmd = ikcpCmdWask ∨ seg.cmd = ikcpCmdWins) d := by
    intro d hd
    have hbuf := (hk.call .flush).sndBuf
    refine (made_flush .bits64 (fun seg hseg => ?_) d hd).1
    cases hseg with
    | @ack ack hack =>
        have hacks : k.acklist = [] := hk.acklist
        rw [hacks] at hack
        exact absurd hack List.not_mem_nil
    | ask ack => exact Or.inl rfl
    | tell ack => exact Or.inr rfl
    | @push seg hseg =>
        rw [show (k.flush .bits64).1.sender.buf = [] from hbuf] at hseg
        exact absurd hseg List.not_mem_nil
  cases c with
  | flush => exact hflush kcp h
  | update current =>
      obtain ⟨clocked, hsender, hreceiver, -, heq | ⟨-, heq⟩⟩ := update_cases .bits64 kcp current
      · intro d hd
        rw [emitted_update, heq] at hd
        exact absurd hd List.not_mem_nil
      · rw [emitted_update, heq]
        refine hflush clocked ⟨?_, ?_, ?_, ?_⟩
        · rw [hreceiver]
          exact h.rcvBuf
        · rw [hreceiver]
          exact h.rcvQueue
        · rw [hreceiver]
          exact h.acklist
        · rw [hsender]
          exact h.sndBuf
  | _ => exact fun d hd => absurd hd List.not_mem_nil

/-- **Where `long` has 64 bits, KCP carries nothing**: no number is before another, so that
whatever is called and whatever comes, `ikcp_recv` has no message, and only probes of windows
are put out. -/
theorem bits64_carries_nothing (conv : UInt32) (calls : List Call) :
    let kcp := calls.foldl (call .bits64) (create conv)
    (∀ later earlier, ¬ itimediff .bits64 later earlier < 0) ∧
      (∀ len, (kcp.recv len).2 = .error (-1)) ∧
      (∀ c, ∀ d ∈ kcp.emitted .bits64 c,
        Writes (fun seg => seg.cmd = ikcpCmdWask ∨ seg.cmd = ikcpCmdWins) d) ∧
      kcp.sndBuf = [] ∧ kcp.rcvBuf = [] := by
  have hidle : Idle (calls.foldl (call .bits64) (create conv)) :=
    calls_keep (P := Idle) (C := fun _ => True) (fun _ c _ h => Idle.call h c)
      (fun _ _ => trivial) ⟨rfl, rfl, rfl, rfl⟩
  refine ⟨itimediff_bits64, fun len => ?_, hidle.emitted, List.map_eq_nil_iff.mp hidle.sndBuf,
    hidle.rcvBuf⟩
  rw [recv_of_empty hidle.rcvQueue]

end IKCPCB

end PCGForUnity
