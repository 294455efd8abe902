/-
PCGForUnity/Network/Kcp/Parts.lean

The two halves of a KCP control block, and which functions leave which of them.

`sender` has the members that say what has been sent, `receiver` those that say what has
come.  The rest (times, the congestion window, the probes) decides only when something is
sent, never what, and of that `settings` are the members that the program sets.

Design.  The invariants of a connection are about one half each.  Instead of a frame lemma
for every member and every function there is one for each half: `receiver_send` says that
`ikcp_send` leaves all of the receiver, and `receiver_flush` that a property of receivers
survives a flush if it survives the forgetting of acknowledgements.  A function that works
on a half has rules of this second kind, with the property as a parameter, so that an
invariant is checked only at the places where the half is really written.
-/
import PCGForUnity.Network.Kcp.Control

namespace PCGForUnity

/-- The members of a segment that stay as they are in `snd_buf`. -/
def SndSeg.fixed (seg : SndSeg) : IKCPSEG := { seg.toIKCPSEG with wnd := 0, ts := 0, una := 0 }

namespace IKCPCB

/-- What sending and acknowledgements change. -/
structure Sender where
  conv : UInt32
  mss : UInt32
  stream : Int32
  una : UInt32
  nxt : UInt32
  rmtWnd : UInt32
  queue : List (Fragment Byte)
  buf : List IKCPSEG
  nque : UInt32
  nbuf : UInt32

/-- What receiving changes. -/
structure Receiver where
  nxt : UInt32
  wnd : UInt32
  queue : List IKCPSEG
  buf : List IKCPSEG
  nque : UInt32
  nbuf : UInt32
  acklist : List (UInt32 × UInt32)

/-- The sending side of a block; of a segment in `snd_buf` only what is never changed. -/
def sender (kcp : IKCPCB) : Sender where
  conv := kcp.conv
  mss := kcp.mss
  stream := kcp.stream
  una := kcp.sndUna
  nxt := kcp.sndNxt
  rmtWnd := kcp.rmtWnd
  queue := kcp.sndQueue
  buf := kcp.sndBuf.map SndSeg.fixed
  nque := kcp.nsndQue
  nbuf := kcp.nsndBuf

/-- The receiving side of a block. -/
def receiver (kcp : IKCPCB) : Receiver where
  nxt := kcp.rcvNxt
  wnd := kcp.rcvWnd
  queue := kcp.rcvQueue
  buf := kcp.rcvBuf
  nque := kcp.nrcvQue
  nbuf := kcp.nrcvBuf
  acklist := kcp.acklist

/-- What the program sets, and the clock. -/
structure Settings where
  mtu : UInt32
  current : UInt32
  interval : UInt32
  updated : UInt32
  nodelay : UInt32
  fastresend : Int32
  nocwnd : Int32
  sndWnd : UInt32
  rxMinrto : Int32

/-- The settings of a block. -/
def settings (kcp : IKCPCB) : Settings where
  mtu := kcp.mtu
  current := kcp.current
  interval := kcp.interval
  updated := kcp.updated
  nodelay := kcp.nodelay
  fastresend := kcp.fastresend
  nocwnd := kcp.nocwnd
  sndWnd := kcp.sndWnd
  rxMinrto := kcp.rxMinrto

variable (kcp : IKCPCB)

/-! ### Functions that leave both -/

@[simp] theorem sender_updateAck (rtt : Int32) : (kcp.updateAck rtt).sender = kcp.sender := rfl

@[simp] theorem receiver_updateAck (rtt : Int32) :
    (kcp.updateAck rtt).receiver = kcp.receiver := rfl

@[simp] theorem sender_growCwnd : kcp.growCwnd.sender = kcp.sender := rfl

@[simp] theorem receiver_growCwnd : kcp.growCwnd.receiver = kcp.receiver := rfl

@[simp] theorem sender_updateProbe (long : LongWidth) :
    (kcp.updateProbe long).sender = kcp.sender := rfl

@[simp] theorem receiver_updateProbe (long : LongWidth) :
    (kcp.updateProbe long).receiver = kcp.receiver := rfl

@[simp] theorem sender_updateCwnd (cwnd resent : UInt32) (st : Flush) :
    (kcp.updateCwnd cwnd resent st).sender = kcp.sender := rfl

@[simp] theorem receiver_updateCwnd (cwnd resent : UInt32) (st : Flush) :
    (kcp.updateCwnd cwnd resent st).receiver = kcp.receiver := rfl

@[simp] theorem sender_setNodelay (nodelay interval resend nc : Int32) :
    (kcp.setNodelay nodelay interval resend nc).sender = kcp.sender := rfl

@[simp] theorem receiver_setNodelay (nodelay interval resend nc : Int32) :
    (kcp.setNodelay nodelay interval resend nc).receiver = kcp.receiver := rfl

/-- Counting acknowledgements leaves of a segment what stays. -/
theorem fixed_countFastack (long : LongWidth) (sn : UInt32) (segs : List SndSeg) :
    (countFastack long sn segs).map SndSeg.fixed = segs.map SndSeg.fixed := by
  induction segs with
  | nil => rfl
  | cons seg segs ih =>
      rw [countFastack]
      split
      · rfl
      · split
        · exact congrArg (seg.fixed :: ·) ih
        · exact congrArg (seg.fixed :: ·) ih

theorem parts_parseFastack (long : LongWidth) (sn : UInt32) :
    (kcp.parseFastack long sn).sender = kcp.sender ∧
      (kcp.parseFastack long sn).receiver = kcp.receiver := by
  rw [parseFastack]
  split
  · exact ⟨rfl, rfl⟩
  · refine ⟨?_, rfl⟩
    simp only [sender, fixed_countFastack]

theorem parts_finish (long : LongWidth) (i : Input) (una : UInt32) :
    (i.finish long una).sender = i.kcp.sender ∧ (i.finish long una).receiver = i.kcp.receiver := by
  have hfast := parts_parseFastack i.kcp long i.maxack
  rw [Input.finish]
  split_ifs
  · exact hfast
  · exact hfast
  · exact ⟨rfl, rfl⟩
  · exact ⟨rfl, rfl⟩

/-- The receive window is never too small for a message. -/
theorem toNat_wndsize {W : ℕ} (sndwnd : Int32) {rcvwnd : Int32}
    (hle : rcvwnd > 0 → rcvwnd.toInt ≤ W) (hge : 128 ≤ kcp.rcvWnd.toNat)
    (hbefore : kcp.rcvWnd.toNat ≤ W) :
    128 ≤ (kcp.wndsize sndwnd rcvwnd).rcvWnd.toNat ∧
      (kcp.wndsize sndwnd rcvwnd).rcvWnd.toNat ≤ W := by
  simp only [wndsize]
  split_ifs with hpos
  · have hnat := Serial.toNat_toUInt32 (x := rcvwnd) (Int32.lt_iff_toInt_lt.mp hpos).le
    have hmin : ikcpWndRcv.toNat = 128 := rfl
    have hle := hle hpos
    rw [imax]
    split_ifs with hbig
    · have := UInt32.le_iff_toNat_le.mp hbig
      omega
    · omega
  · exact ⟨hge, hbefore⟩

/-! ### Functions of the sender -/

@[simp] theorem receiver_fillLast (buffer : List Byte) :
    (kcp.fillLast buffer).1.receiver = kcp.receiver := by
  rw [fillLast]
  split
  · split <;> rfl
  · rfl

@[simp] theorem receiver_sendFragments (buffer : List Byte) :
    (kcp.sendFragments buffer).1.receiver = kcp.receiver := by
  rw [sendFragments]
  split <;> rfl

@[simp] theorem receiver_send (buffer : List Byte) :
    (kcp.send buffer).1.receiver = kcp.receiver := by
  simp only [send]
  split_ifs <;> simp

theorem sndUna_shrinkBuf_of_nil {kcp : IKCPCB} (h : kcp.sndBuf = []) :
    kcp.shrinkBuf.sndUna = kcp.sndNxt := by
  simp only [shrinkBuf, h]

theorem sndUna_shrinkBuf_of_cons {kcp : IKCPCB} {seg : SndSeg} {segs : List SndSeg}
    (h : kcp.sndBuf = seg :: segs) : kcp.shrinkBuf.sndUna = seg.sn := by
  simp only [shrinkBuf, h]

@[simp] theorem receiver_shrinkBuf : kcp.shrinkBuf.receiver = kcp.receiver := rfl

@[simp] theorem receiver_parseUna (long : LongWidth) (una : UInt32) :
    (kcp.parseUna long una).receiver = kcp.receiver := rfl

@[simp] theorem receiver_parseAck (long : LongWidth) (sn : UInt32) :
    (kcp.parseAck long sn).receiver = kcp.receiver := by
  rw [parseAck]
  split <;> rfl

@[simp] theorem receiver_moveToBuf (long : LongWidth) (wnd cwnd : UInt32)
    (fs : List (Fragment Byte)) : (moveToBuf long wnd cwnd kcp fs).receiver = kcp.receiver := by
  induction fs generalizing kcp with
  | nil => rfl
  | cons f fs ih =>
      rw [moveToBuf]
      split
      · exact ih _
      · rfl

/-! ### Functions of the receiver -/

@[simp] theorem sender_moveAvailable (segs : List IKCPSEG) :
    (kcp.moveAvailable segs).sender = kcp.sender := by
  induction segs generalizing kcp with
  | nil => rfl
  | cons seg segs ih =>
      rw [moveAvailable]
      split
      · exact ih _
      · rfl

@[simp] theorem acklist_moveAvailable (segs : List IKCPSEG) :
    (kcp.moveAvailable segs).acklist = kcp.acklist := by
  induction segs generalizing kcp with
  | nil => rfl
  | cons seg segs ih =>
      rw [moveAvailable]
      split
      · exact ih _
      · rfl

@[simp] theorem acklist_parseData (long : LongWidth) (seg : IKCPSEG) :
    (kcp.parseData long seg).acklist = kcp.acklist := by
  rw [parseData]
  split
  · rfl
  · refine (acklist_moveAvailable _ _).trans ?_
    split <;> rfl

@[simp] theorem sender_parseData (long : LongWidth) (seg : IKCPSEG) :
    (kcp.parseData long seg).sender = kcp.sender := by
  rw [parseData]
  split
  · rfl
  · refine (sender_moveAvailable _ _).trans ?_
    split <;> rfl

@[simp] theorem sender_ackPush (sn ts : UInt32) : (kcp.ackPush sn ts).sender = kcp.sender := rfl

@[simp] theorem sender_pushed (long : LongWidth) (seg : IKCPSEG) :
    (kcp.pushed long seg).sender = kcp.sender := by
  rw [pushed]
  split_ifs
  · exact sender_parseData _ long seg
  · rfl
  · rfl

@[simp] theorem sender_tellRoom (recover : Bool) : (kcp.tellRoom recover).sender = kcp.sender := rfl

@[simp] theorem receiver_tellRoom (recover : Bool) :
    (kcp.tellRoom recover).receiver = kcp.receiver := rfl

@[simp] theorem sender_deleteFirst : kcp.deleteFirst.sender = kcp.sender := rfl

@[simp] theorem sender_recv (len : ℤ) : (kcp.recv len).1.sender = kcp.sender := by
  rw [recv]
  split_ifs <;> simp

@[simp] theorem acklist_recv (len : ℤ) : (kcp.recv len).1.acklist = kcp.acklist := by
  rw [recv]
  split_ifs
  · rfl
  · rfl
  · rfl
  · exact acklist_moveAvailable _ _
  · exact acklist_moveAvailable _ _

/-- Acknowledgements are for the sender. -/
@[simp] theorem receiver_acked (long : LongWidth) (seg : IKCPSEG) :
    (kcp.acked long seg).receiver = kcp.receiver := by
  rw [acked]
  simp only [receiver_shrinkBuf, receiver_parseAck]
  split <;> rfl

/-! ### Functions that leave the settings -/

theorem settings_moveAvailable (segs : List IKCPSEG) :
    (kcp.moveAvailable segs).settings = kcp.settings := by
  induction segs generalizing kcp with
  | nil => rfl
  | cons seg segs ih =>
      rw [moveAvailable]
      split
      · exact ih _
      · rfl

theorem settings_recv (len : ℤ) : (kcp.recv len).1.settings = kcp.settings := by
  rw [recv]
  split_ifs
  · rfl
  · rfl
  · rfl
  · exact settings_moveAvailable _ _
  · exact settings_moveAvailable _ _

theorem settings_send (buffer : List Byte) : (kcp.send buffer).1.settings = kcp.settings := by
  have hfragments (k : IKCPCB) (rest : List Byte) :
      (k.sendFragments rest).1.settings = k.settings := by
    simp only [sendFragments]
    split <;> rfl
  have hfill : (kcp.fillLast buffer).1.settings = kcp.settings := by
    rw [fillLast]
    split
    · split <;> rfl
    · rfl
  simp only [send]
  split_ifs
  · exact hfill
  · exact (hfragments _ _).trans hfill
  · exact hfragments kcp buffer

theorem settings_pushed (long : LongWidth) (seg : IKCPSEG) :
    (kcp.pushed long seg).settings = kcp.settings := by
  have hparse (k : IKCPCB) : (k.parseData long seg).settings = k.settings := by
    rw [parseData]
    split
    · rfl
    · refine (settings_moveAvailable _ _).trans ?_
      split <;> rfl
  rw [pushed]
  split_ifs
  · exact hparse _
  · rfl
  · rfl

theorem settings_acked (long : LongWidth) (seg : IKCPSEG) :
    (kcp.acked long seg).settings = kcp.settings := by
  have hparse (k : IKCPCB) : (k.parseAck long seg.sn).settings = k.settings := by
    rw [parseAck]
    split <;> rfl
  simp only [acked]
  split
  · exact hparse _
  · exact hparse _

end IKCPCB

end PCGForUnity
