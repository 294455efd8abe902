/-
PCGForUnity/Network/Kcp/Datagrams.lean

Every datagram that a control block puts out is one that the other end takes: it is not
empty, it has no more than `mtu` bytes, and `ikcp_input` of any block of the conversation
reads it to its end (`datagrams_accepted`).  This holds of any calls and of any bytes that
come.

`ikcp_send` cuts what it is given by `mss`, which is `mtu` without a header.  So the data fits
as long as `ikcp_setmtu` makes `mtu` smaller only while nothing waits to be sent
(`Call.Grows`).

Design.  `Lawful` says of the sender that each fragment and each segment it has fits `mss`;
that a segment is written with members that fit their bytes is a matter of types but for the
command and the number of fragments, of which there are fewer than 128.  The rest is `Output`,
which takes a property of segments to the datagrams.
-/
import PCGForUnity.Lib.Run
import PCGForUnity.Network.Kcp.Calls
import PCGForUnity.Network.Kcp.Flush

namespace PCGForUnity

/-- A segment as the other end reads it: the window is told in 16 bits. -/
def IKCPSEG.told (seg : IKCPSEG) : IKCPSEG :=
  { seg with wnd := UInt32.ofNat (seg.wnd.toNat % 2 ^ 16) }

theorem IKCPSEG.encode_told (seg : IKCPSEG) : seg.told.encode = seg.encode := by
  have hwnd : encode16u (UInt32.ofNat (seg.wnd.toNat % 2 ^ 16)).toNat = encode16u seg.wnd.toNat := by
    have hlt : seg.wnd.toNat % 2 ^ 16 < 2 ^ 16 := Nat.mod_lt _ (Nat.two_pow_pos 16)
    rw [UInt32.toNat_ofNat', encode16u, encode16u]
    refine congrArg₂ (fun x y => [x, y]) ?_ ?_ <;> apply UInt8.toNat_inj.mp <;>
      rw [UInt8.toNat_ofNat', UInt8.toNat_ofNat'] <;> omega
  have htold : seg.told.toSegment
      = { seg.toSegment with wnd := (UInt32.ofNat (seg.wnd.toNat % 2 ^ 16)).toNat } := rfl
  rw [encode, encode, htold, Segment.encode, Segment.encode, hwnd]
  rfl

namespace IKCPCB

variable {long : LongWidth} {kcp : IKCPCB}

theorem mtu_update (kcp : IKCPCB) (current : UInt32) :
    (kcp.update long current).1.mtu = kcp.mtu := by
  obtain ⟨_, h⟩ := settings_update long kcp current
  exact congrArg Settings.mtu h

/-! ### What is sent fits -/

/-- A piece of data that fits a datagram. -/
def FitsIn (mtu frg : ℕ) (data : List Byte) : Prop := frg < 128 ∧ ikcpOverheadLen + data.length ≤ mtu

/-- The sender has only what fits. -/
structure Lawful (conv mtu : UInt32) (s : Sender) : Prop where
  conv_eq : s.conv = conv
  mtu_ge : 50 ≤ mtu.toNat
  mtu_lt : mtu.toNat < 2 ^ 31
  mss : s.mss.toNat + ikcpOverheadLen = mtu.toNat
  queue : ∀ f ∈ s.queue, FitsIn mtu.toNat f.frg f.data
  buf : ∀ seg ∈ s.buf, seg.conv = conv ∧ seg.cmd = ikcpCmdPush ∧ FitsIn mtu.toNat seg.frg seg.data

variable {conv mtu : UInt32}

theorem Lawful.requeue {s : Sender} (h : Lawful conv mtu s) {queue : List (Fragment Byte)}
    (hqueue : ∀ f ∈ queue, FitsIn mtu.toNat f.frg f.data) (nque : UInt32) :
    Lawful conv mtu { s with queue, nque } := ⟨h.conv_eq, h.mtu_ge, h.mtu_lt, h.mss, hqueue, h.buf⟩

theorem lawful_sendFragments (h : Lawful conv mtu kcp.sender) (buffer : List Byte) :
    Lawful conv mtu (kcp.sendFragments buffer).1.sender := by
  have hmss : kcp.mss.toNat + ikcpOverheadLen = mtu.toNat := h.mss
  simp only [sendFragments]
  split
  · exact h
  · refine h.requeue (fun f hf => ?_) _
    rcases List.mem_append.mp hf with hf | hf
    · exact h.queue f hf
    obtain ⟨piece, hpiece, rfl⟩ := List.mem_map.mp hf
    obtain ⟨hlen, hfrg⟩ := Fragment.length_data_of_mem_pieces hpiece
    have hcount : ¬ Fragment.count kcp.mss.toNat buffer.length ≥ 128 := ‹_›
    split
    · exact ⟨by omega, by omega⟩
    · exact ⟨Nat.zero_lt_succ _, by show ikcpOverheadLen + piece.data.length ≤ _; omega⟩

theorem lawful_fillLast (h : Lawful conv mtu kcp.sender) (buffer : List Byte) :
    Lawful conv mtu (kcp.fillLast buffer).1.sender := by
  have hmss : kcp.mss.toNat + ikcpOverheadLen = mtu.toNat := h.mss
  have hqueue : ∀ f ∈ kcp.sndQueue, FitsIn mtu.toNat f.frg f.data := h.queue
  rw [fillLast]
  split
  · split
    · refine h.requeue (fun f hf => ?_) _
      rcases List.mem_append.mp hf with hf | hf
      · exact hqueue f (List.dropLast_subset _ hf)
      · rw [List.mem_singleton.mp hf]
        refine ⟨Nat.zero_lt_succ _, ?_⟩
        rw [List.length_append, List.length_take]
        omega
    · exact h
  · exact h

theorem lawful_moveToBuf (wnd cwnd : UInt32) (fs : List (Fragment Byte)) (kcp : IKCPCB)
    (h : Lawful conv mtu { kcp.sender with queue := fs }) :
    Lawful conv mtu (moveToBuf long wnd cwnd kcp fs).sender := by
  induction fs generalizing kcp with
  | nil => exact h
  | cons f fs ih =>
      rw [moveToBuf]
      split
      · refine ih _ ⟨h.conv_eq, h.mtu_ge, h.mtu_lt, h.mss, fun g hg => h.queue g (List.mem_cons_of_mem _ hg),
          fun seg hseg => ?_⟩
        have hbuf : (kcp.sndBuf ++ [kcp.newSegment wnd f]).map SndSeg.fixed
            = kcp.sender.buf ++ [(kcp.newSegment wnd f).fixed] := List.map_append
        have hseg' : seg ∈ kcp.sender.buf ++ [(kcp.newSegment wnd f).fixed] := hbuf ▸ hseg
        rcases List.mem_append.mp hseg' with hseg' | hseg'
        · exact h.buf seg hseg'
        · rw [List.mem_singleton.mp hseg']
          exact ⟨h.conv_eq, rfl, h.queue f List.mem_cons_self⟩
      · exact h

theorem Lawful.sublist {s : Sender} (h : Lawful conv mtu s) {una nbuf rmtWnd : UInt32}
    {buf : List IKCPSEG} (hbuf : ∀ seg ∈ buf, seg ∈ s.buf) :
    Lawful conv mtu { s with una, nbuf, rmtWnd, buf } :=
  ⟨h.conv_eq, h.mtu_ge, h.mtu_lt, h.mss, h.queue, fun seg hseg => h.buf seg (hbuf seg hseg)⟩

theorem lawful_answered (seg : IKCPSEG) (h : Lawful conv mtu kcp.sender) :
    Lawful conv mtu (answered long kcp seg).sender := by
  have hsuffix : (kcp.sndBuf.dropWhile fun s => decide (itimediff long seg.una s.sn > 0))
      <:+ kcp.sndBuf := List.dropWhile_suffix _
  exact h.sublist fun s hs => (hsuffix.sublist.map SndSeg.fixed).subset hs

theorem lawful_acked (seg : IKCPSEG) (h : Lawful conv mtu kcp.sender) :
    Lawful conv mtu (kcp.acked long seg).sender := by
  have hparse (k : IKCPCB) (hk : Lawful conv mtu k.sender) :
      Lawful conv mtu (k.parseAck long seg.sn).shrinkBuf.sender := by
    rw [parseAck]
    split
    · exact hk.sublist fun s hs => hs
    · refine hk.sublist fun s hs => ?_
      rcases hr : removeAcked long seg.sn k.sndBuf with - | rest
      · rw [hr] at hs
        exact hs
      · rw [hr] at hs
        exact ((removeAcked_sublist hr).1.map SndSeg.fixed).subset hs
  rw [acked]
  split
  · exact hparse _ h
  · exact hparse _ h

/-- `mtu` does not get smaller while something waits to be sent. -/
def Call.Grows (kcp : IKCPCB) : Call → Prop
  | .setmtu mtu =>
      kcp.mtu ≤ (kcp.setmtu mtu).1.mtu ∨ kcp.sndQueue = [] ∧ kcp.sndBuf = []
  | _ => True

instance (kcp : IKCPCB) (c : Call) : Decidable (c.Grows kcp) := by
  cases c <;> unfold Call.Grows <;> infer_instance

theorem lawful_setmtu (mtu : Int32) (h : Lawful conv kcp.mtu kcp.sender)
    (hgrows : (Call.setmtu mtu).Grows kcp) :
    Lawful conv (kcp.setmtu mtu).1.mtu (kcp.setmtu mtu).1.sender := by
  rw [Call.Grows] at hgrows
  rw [setmtu] at hgrows ⊢
  split
  · exact h
  · rename_i hbig
    rw [if_neg hbig] at hgrows
    have hge : ¬ mtu < 50 := fun hlt => hbig (Or.inl hlt)
    rw [Int32.lt_iff_toInt_lt] at hge
    have hfifty : (50 : Int32).toInt = 50 := rfl
    have hnat := Serial.toNat_toUInt32 (x := mtu) (by omega)
    have hlt : mtu.toInt < 2 ^ 31 := mtu.toInt_lt
    have hmss : (mtu.toUInt32 - UInt32.ofNat ikcpOverheadLen).toNat + ikcpOverheadLen
        = mtu.toUInt32.toNat := by
      rw [UInt32.toNat_sub_of_le _ _ (UInt32.le_iff_toNat_le.mpr ?_)]
      · show mtu.toUInt32.toNat - 24 + 24 = _
        omega
      · show 24 ≤ mtu.toUInt32.toNat
        omega
    -- what waits fits as before, or nothing waits
    have hfits (frg : ℕ) (data : List Byte) (hin : kcp.mtu ≤ mtu.toUInt32)
        (hdata : FitsIn kcp.mtu.toNat frg data) : FitsIn mtu.toUInt32.toNat frg data :=
      ⟨hdata.1, hdata.2.trans (UInt32.le_iff_toNat_le.mp hin)⟩
    refine ⟨h.conv_eq, by show 50 ≤ mtu.toUInt32.toNat; omega, by show mtu.toUInt32.toNat < 2 ^ 31; omega, hmss,
      fun f hf => ?_, fun seg hseg => ?_⟩
    · rcases hgrows with hle | ⟨hqueue, -⟩
      · exact hfits _ _ hle (h.queue f hf)
      · have hf' : f ∈ kcp.sndQueue := hf
        rw [hqueue] at hf'
        exact absurd hf' List.not_mem_nil
    · rcases hgrows with hle | ⟨-, hbuf⟩
      · obtain ⟨hconv, hcmd, hdata⟩ := h.buf seg hseg
        exact ⟨hconv, hcmd, hfits _ _ hle hdata⟩
      · have hseg' : seg ∈ kcp.sndBuf.map SndSeg.fixed := hseg
        rw [hbuf] at hseg'
        exact absurd hseg' List.not_mem_nil

theorem Lawful.call (h : Lawful conv kcp.mtu kcp.sender) {c : Call} (hc : c.Grows kcp) :
    Lawful conv (kcp.call long c).mtu (kcp.call long c).sender := by
  have hmove (m : UInt32) (k : IKCPCB) (wnd cwnd : UInt32) (_ : cwnd.toNat ≤ k.rmtWnd.toNat)
      (hk : Lawful conv m k.sender) : Lawful conv m (moveToBuf long wnd cwnd k k.sndQueue).sender :=
    lawful_moveToBuf wnd cwnd _ k hk
  cases c with
  | send buffer =>
      have hmtu : (kcp.send buffer).1.mtu = kcp.mtu := congrArg Settings.mtu (settings_send kcp buffer)
      show Lawful conv (kcp.send buffer).1.mtu (kcp.send buffer).1.sender
      rw [hmtu]
      simp only [send]
      split_ifs
      · exact lawful_fillLast h buffer
      · exact lawful_sendFragments (lawful_fillLast h buffer) _
      · exact lawful_sendFragments h buffer
  | recv len =>
      show Lawful conv (kcp.recv len).1.mtu (kcp.recv len).1.sender
      rw [show (kcp.recv len).1.mtu = kcp.mtu from congrArg Settings.mtu (settings_recv kcp len),
        sender_recv]
      exact h
  | input data =>
      show Lawful conv (kcp.input long data).1.mtu (kcp.input long data).1.sender
      rw [show (kcp.input long data).1.mtu = kcp.mtu from
        congrArg Settings.mtu (settings_input kcp data)]
      exact sender_input (fun k seg _ hk => lawful_answered seg hk)
        (fun k seg hk => lawful_acked seg hk) h data
  | update current =>
      show Lawful conv (kcp.update long current).1.mtu (kcp.update long current).1.sender
      rw [mtu_update]
      exact sender_update (hmove kcp.mtu) h current
  | flush =>
      show Lawful conv (kcp.flush long).1.mtu (kcp.flush long).1.sender
      rw [show (kcp.flush long).1.mtu = kcp.mtu from congrArg Settings.mtu (settings_flush long kcp)]
      exact sender_flush (hmove kcp.mtu) h
  | setmtu mtu => exact lawful_setmtu mtu h hc
  | interval interval => exact h
  | nodelay nodelay interval resend nc => exact h
  | wndsize sndwnd rcvwnd => exact h

theorem lawful_create (conv : UInt32) : Lawful conv (create conv).mtu (create conv).sender := by
  refine ⟨rfl, ?_, ?_, rfl, fun _ h => absurd h List.not_mem_nil,
    fun _ h => absurd h List.not_mem_nil⟩
  · show (50 : ℕ) ≤ 1400
    norm_num
  · show (1400 : ℕ) < 2 ^ 31
    norm_num

/-! ### What is put out is taken -/

/-- The segments of a lawful sender can be read. -/
theorem Lawful.put (h : Lawful conv kcp.mtu kcp.sender) {buf : List IKCPSEG}
    (hbuf : ∀ seg ∈ buf, seg.conv = conv ∧ seg.cmd = ikcpCmdPush ∧
      FitsIn kcp.mtu.toNat seg.frg seg.data) {seg : IKCPSEG} (hseg : Put kcp buf seg) :
    seg.conv = conv ∧ seg.told.Fits ∧ ikcpOverheadLen + seg.data.length ≤ kcp.mtu.toNat ∧
      (seg.cmd = ikcpCmdPush ∨ seg.cmd = ikcpCmdAck ∨ seg.cmd = ikcpCmdWask ∨
        seg.cmd = ikcpCmdWins) := by
  have hwnd (wnd : UInt32) : (UInt32.ofNat (wnd.toNat % 2 ^ 16)).toNat < 2 ^ 16 := by
    rw [UInt32.toNat_ofNat']
    exact (Nat.mod_le _ _).trans_lt (Nat.mod_lt _ (Nat.two_pow_pos 16))
  have hsame : kcp.conv = conv := h.conv_eq
  have hge := h.mtu_ge
  have hlt := h.mtu_lt
  -- a segment of the control has no data
  have hcontrol (cmd : ℕ) (hcmd : cmd < 2 ^ 8) (ack : UInt32 × UInt32) :
      (kcp.control cmd ack).told.Fits ∧
        ikcpOverheadLen + (kcp.control cmd ack).data.length ≤ kcp.mtu.toNat := by
    refine ⟨⟨hcmd, Nat.two_pow_pos 8, hwnd _, Nat.two_pow_pos 31⟩, ?_⟩
    show 24 + 0 ≤ kcp.mtu.toNat
    omega
  cases hseg with
  | ack _ =>
      have h := hcontrol ikcpCmdAck (by decide)
      exact ⟨hsame, (h _).1, (h _).2, Or.inr (Or.inl rfl)⟩
  | ask ack =>
      have h := hcontrol ikcpCmdWask (by decide)
      exact ⟨hsame, (h _).1, (h _).2, Or.inr (Or.inr (Or.inl rfl))⟩
  | tell ack =>
      have h := hcontrol ikcpCmdWins (by decide)
      exact ⟨hsame, (h _).1, (h _).2, Or.inr (Or.inr (Or.inr rfl))⟩
  | @push seg hseg =>
      obtain ⟨hconv, hcmd, hfrg, hdata⟩ := hbuf seg hseg
      have hcmdlt : seg.cmd < 2 ^ 8 := by
        rw [hcmd]
        decide
      exact ⟨hconv, ⟨hcmdlt, hfrg.trans (by norm_num), hwnd _,
        by show seg.data.length < 2 ^ 31; omega⟩, hdata, Or.inl hcmd⟩

/-- A datagram of such segments is read to its end. -/
theorem input_accepts {data : List Byte} (hne : data ≠ [])
    (hdata : Writes (fun seg => seg.conv = conv ∧ seg.told.Fits ∧
      (seg.cmd = ikcpCmdPush ∨ seg.cmd = ikcpCmdAck ∨ seg.cmd = ikcpCmdWask ∨
        seg.cmd = ikcpCmdWins)) data) (peer : IKCPCB) (hconv : peer.conv = conv) :
    (peer.input long data).2 = 0 := by
  obtain ⟨segs, rfl, hsegs⟩ := hdata
  have htold : segs.flatMap IKCPSEG.encode = (segs.map IKCPSEG.told).flatMap IKCPSEG.encode := by
    rw [List.flatMap_map]
    exact congrArg (segs.flatMap ·) (funext fun seg => (IKCPSEG.encode_told seg).symm)
  have hlen : ¬ (segs.flatMap IKCPSEG.encode).length < ikcpOverheadLen := by
    rcases segs with - | ⟨seg, segs⟩
    · exact absurd rfl hne
    · rw [List.flatMap_cons, List.length_append, IKCPSEG.length_encode]
      omega
  rw [input, if_neg hlen, htold]
  rw [loop_encode long (Nat.le_refl _) fun seg hseg => ?_]
  · rfl
  · obtain ⟨s, hs, rfl⟩ := List.mem_map.mp hseg
    obtain ⟨hsconv, hfits, hcmd⟩ := hsegs s hs
    exact ⟨hsconv.trans hconv.symm, hfits, hcmd⟩

theorem Lawful.flush (h : Lawful conv kcp.mtu kcp.sender) :
    ∀ d ∈ (kcp.flush long).2, d ≠ [] ∧ d.length ≤ kcp.mtu.toNat ∧
      ∀ (other : LongWidth) (peer : IKCPCB), peer.conv = conv → (peer.input other d).2 = 0 := by
  intro d hd
  have hflushed : Lawful conv (kcp.flush long).1.mtu (kcp.flush long).1.sender :=
    h.call (c := .flush) trivial
  rw [show (kcp.flush long).1.mtu = kcp.mtu from congrArg Settings.mtu (settings_flush long kcp)]
    at hflushed
  obtain ⟨hwrites, hne, hle⟩ := made_flush long (fun seg hseg => h.put hflushed.buf hseg) d hd
  refine ⟨hne, hle fun seg hseg => hseg.2.2.1, fun other peer hpeer => ?_⟩
  exact input_accepts hne (hwrites.mono fun seg hseg => ⟨hseg.1, hseg.2.1, hseg.2.2.2⟩) peer hpeer

/-- **Every datagram is one that the other end takes**: it is not empty, it has no more than
`mtu` bytes, and `ikcp_input` of any block of the conversation reads it to its end.  This holds
of any calls and any bytes that come, as long as `mtu` does not get smaller while something
waits to be sent. -/
theorem datagrams_accepted {long : LongWidth} {conv : UInt32} {calls : List Call}
    (hcalls : Run.EachStep (call long) (fun kcp c => c.Grows kcp) (create conv) calls) (c : Call) :
    let kcp := calls.foldl (call long) (create conv)
    ∀ d ∈ kcp.emitted long c, d ≠ [] ∧ d.length ≤ kcp.mtu.toNat ∧
      ∀ (other : LongWidth) (peer : IKCPCB), peer.conv = conv → (peer.input other d).2 = 0 := by
  have hrun : ∀ kcp, Lawful conv kcp.mtu kcp.sender →
      Run.EachStep (call long) (fun kcp c => c.Grows kcp) kcp calls →
        Lawful conv (calls.foldl (call long) kcp).mtu (calls.foldl (call long) kcp).sender := by
    clear hcalls
    induction calls with
    | nil => exact fun _ h _ => h
    | cons c' calls ih => exact fun kcp h hcalls => ih _ (h.call hcalls.1) hcalls.2
  have h := hrun _ (lawful_create conv) hcalls
  intro kcp
  cases c with
  | flush => exact h.flush
  | update current =>
      obtain ⟨clocked, hsender, -, ⟨_, hsettings⟩, heq | ⟨-, heq⟩⟩ := update_cases long kcp current
      all_goals have hmtu : clocked.mtu = kcp.mtu := congrArg Settings.mtu hsettings
      · intro d hd
        rw [emitted_update, heq] at hd
        exact absurd hd List.not_mem_nil
      · rw [emitted_update, heq, ← hmtu]
        exact Lawful.flush (by rw [hmtu, hsender]; exact h)
  | _ => exact fun d hd => absurd hd List.not_mem_nil

theorem datagrams_accepted_first :
    let calls : List Call := [.setmtu 600, .nodelay 1 10 2 1, .send [7, 8]]
    ∀ d ∈ (calls.foldl (call .bits32) (create 1)).emitted .bits32 (.update 0),
      ((create 1).input .bits64 d).2 = 0 := by
  intro calls d hd
  refine (@datagrams_accepted _ _ calls ?_ (.update 0) d hd).2.2 .bits64 (create 1) rfl
  have hqueue : (create 1).sndQueue = [] ∧ (create 1).sndBuf = [] := ⟨rfl, rfl⟩
  exact ⟨Or.inr hqueue, trivial, trivial, trivial⟩

end IKCPCB

end PCGForUnity
