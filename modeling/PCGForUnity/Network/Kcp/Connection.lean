/-
PCGForUnity/Network/Kcp/Connection.lean

Two ends of a KCP conversation over a network that loses, repeats and reorders datagrams.

Whatever an end has put out stays on the wire and may be delivered at any time, any number
of times, in any order, or never, as long as it is not older than `lifetime` segments; strays
of other conversations may come as well, and the program may call the functions of either
end in any order and with any times.

Design.  The invariant (`Invariant`) has a link for each direction: the fragments that were
numbered, as natural numbers that never wrap, with what the receiver has of them
(`Lib/SelectiveRepeat`).  `AtEnd` ties an end to its two links and says of each datagram on
the wire that its segments were true of the links when they were written; as links only
grow, they are true still.  Words and numbers meet in `SerialNumber`, which needs them to be
close: this is what `lifetime` and the bound on receive windows are for.

Each call is a lemma on `AtEnd` for the end that makes it, with what it does to the links
(`Drives`), and one lemma says that the other end does not mind (`AtEnd.peer`).
`invariant_run` is over whole runs.
-/
import Mathlib.Logic.Function.Basic
import PCGForUnity.Lib.Run
import PCGForUnity.Network.Kcp.Input

namespace PCGForUnity

open IKCPCB

/-- The two ends. -/
inductive Side
  | one
  | two
deriving DecidableEq, Repr

/-- The end at the other side. -/
@[simp] def Side.other : Side → Side
  | .one => .two
  | .two => .one

@[simp] theorem Side.other_other (s : Side) : s.other.other = s := by
  cases s <;> rfl

theorem Side.other_ne (s : Side) : s.other ≠ s := by
  cases s <;> simp

/-- A datagram, with how many segments its writer and the other end had numbered when it
was put out. -/
structure WireDatagram where
  data : List Byte
  mine : ℕ
  other : ℕ
deriving DecidableEq, Repr

/-- An end: the messages that `ikcp_send` accepted and those that `ikcp_recv` handed over,
the segments numbered so far, and all that was put out. -/
structure KcpEnd where
  kcp : IKCPCB
  accepted : List (List Byte)
  received : List (List Byte)
  numbered : ℕ
  wire : List WireDatagram

namespace KcpEnd

/-- `ikcp_create` -/
def start (conv : UInt32) : KcpEnd where
  kcp := create conv
  accepted := []
  received := []
  numbered := 0
  wire := []

/-- `ikcp_send`; the message is accepted if the result says so. -/
def send (a : KcpEnd) (buffer : List Byte) : KcpEnd :=
  let r := a.kcp.send buffer
  { a with kcp := r.1, accepted := if r.2 = 0 then a.accepted ++ [buffer] else a.accepted }

/-- `ikcp_recv`; with a negative length it only looks at the message. -/
def recv (a : KcpEnd) (len : ℤ) : KcpEnd :=
  let r := a.kcp.recv len
  { a with
    kcp := r.1
    received := match r.2 with
      | .ok data => if len < 0 then a.received else a.received ++ [data]
      | .error _ => a.received }

/-- `ikcp_update`; `other` is how many segments the other end has numbered. -/
def update (long : LongWidth) (a : KcpEnd) (other : ℕ) (current : UInt32) : KcpEnd :=
  let r := a.kcp.update long current
  let numbered := a.numbered + (a.kcp.sndQueue.length - r.1.sndQueue.length)
  { a with kcp := r.1, numbered, wire := a.wire ++ r.2.map fun data => ⟨data, numbered, other⟩ }

/-- `ikcp_input` -/
def input (long : LongWidth) (a : KcpEnd) (data : List Byte) : KcpEnd :=
  { a with kcp := (a.kcp.input long data).1 }

end KcpEnd

/-- A connection. -/
abbrev Connection := Side → KcpEnd

namespace Connection

/-- The calls of the program, and what the network may do. -/
inductive Op
  | send (s : Side) (buffer : List Byte)
  | recv (s : Side) (len : ℤ)
  | update (s : Side) (current : UInt32)
  | deliver (s : Side) (d : WireDatagram)
  | stray (s : Side) (data : List Byte)
  | nodelay (s : Side) (nodelay interval resend nc : Int32)
  | setmtu (s : Side) (mtu : Int32)
  | wndsize (s : Side) (sndwnd rcvwnd : Int32)
deriving DecidableEq, Repr

/-- How old a datagram may be, in segments of either end: far less than half the range of
a number. -/
def lifetime : ℕ := 2 ^ 29

/-- Both ends are new. -/
def start (conv : UInt32) : Connection := fun _ => KcpEnd.start conv

/-- A call, or what the network does. -/
def step (long : LongWidth) (c : Connection) : Op → Connection
  | .send s buffer => Function.update c s ((c s).send buffer)
  | .recv s len => Function.update c s ((c s).recv len)
  | .update s current =>
      Function.update c s ((c s).update long (c s.other).numbered current)
  | .deliver s d => Function.update c s ((c s).input long d.data)
  | .stray s data => Function.update c s ((c s).input long data)
  | .nodelay s nodelay interval resend nc =>
      Function.update c s
        { c s with kcp := (c s).kcp.setNodelay nodelay interval resend nc }
  | .setmtu s mtu => Function.update c s { c s with kcp := ((c s).kcp.setmtu mtu).1 }
  | .wndsize s sndwnd rcvwnd =>
      Function.update c s { c s with kcp := (c s).kcp.wndsize sndwnd rcvwnd }

/-- What may happen: a datagram that was put out and is not too old, a datagram of another
conversation, a receive window that fits the 16 bits it is told in.

A window of `2 ^ 16` is told as `0`, and the other end would never send.  Nothing is asked of
`mtu`: a run in which it is set below a segment that was cut before writes past `buffer` in the
code (`Output`), and what is proved of it here says nothing about the code. -/
def Allowed (c : Connection) : Op → Prop
  | .deliver s d =>
      d ∈ (c s.other).wire ∧ (c s.other).numbered ≤ d.mine + lifetime ∧
        (c s).numbered ≤ d.other + lifetime
  | .stray s data =>
      data.length < ikcpOverheadLen ∨ (IKCPSEG.decode data).1.conv ≠ (c s).kcp.conv
  | .wndsize _ _ rcvwnd => rcvwnd < 2 ^ 16
  | _ => True

instance (c : Connection) (op : Op) : Decidable (c.Allowed op) := by
  cases op <;> unfold Allowed <;> infer_instance

end Connection

/-! ### The invariant -/

/-- An acknowledgement that is kept is for what has come, not long ago. -/
def Acked (inc : Link (Fragment Byte)) (mark : ℕ) (a : UInt32 × UInt32) : Prop :=
  ∃ i, a.1 = UInt32.ofNat i ∧ inc.Has i ∧ mark ≤ i + (2 ^ 29 + 2 ^ 16)

/-- A segment that was put out over the link `out`, with answers for the link `inc`, when
`mine` and `other` segments had been numbered. -/
structure Sent (conv : UInt32) (out inc : Link (Fragment Byte)) (mine other : ℕ)
    (seg : IKCPSEG) : Prop where
  conv : seg.conv = conv
  fits : seg.Fits
  cmd : seg.cmd = ikcpCmdPush ∨ seg.cmd = ikcpCmdAck ∨ seg.cmd = ikcpCmdWask ∨
    seg.cmd = ikcpCmdWins
  una : ∃ u, seg.una = UInt32.ofNat u ∧ u ≤ inc.next ∧ u ≤ other ∧ other ≤ u + 2 ^ 17
  ack : seg.cmd = ikcpCmdAck → ∃ i, seg.sn = UInt32.ofNat i ∧ inc.Has i ∧ i < other ∧
    other ≤ i + (2 ^ 29 + 2 ^ 17)
  push : seg.cmd = ikcpCmdPush → ∃ k, seg.sn = UInt32.ofNat k ∧
    out.sent[k]? = some seg.fragment ∧ mine ≤ k + 2 ^ 16

/-- A fragment that fits a segment. -/
def Small (f : Fragment Byte) : Prop := f.frg < 128 ∧ f.data.length < 2 ^ 31

/-- What holds at an end, over its two links.  Everything that the other end numbered from
`mark` on was numbered after the last flush here, so it is kept there. -/
structure AtEnd (a : KcpEnd) (conv : UInt32) (out inc : Link (Fragment Byte))
    (delivered : List (Fragment Byte)) (mark : ℕ) : Prop where
  conv_eq : a.kcp.conv = conv
  stream : a.kcp.stream = 0
  mss : 0 < a.kcp.mss.toNat ∧ a.kcp.mss.toNat < 2 ^ 31
  holds : End.Holds ⟨a.kcp, out, inc⟩ delivered
  numbered : a.numbered = out.sent.length
  chain : Fragment.Numbered (out.sent ++ a.kcp.sndQueue)
  complete : Fragment.Complete (out.sent ++ a.kcp.sndQueue)
  small : ∀ f ∈ out.sent ++ a.kcp.sndQueue, Small f
  accepted : Fragment.whole (out.sent ++ a.kcp.sndQueue) = a.accepted
  taken : Fragment.Complete delivered
  received : Fragment.whole delivered = a.received
  kept : inc.KeptFrom mark
  acks : ∀ ack ∈ a.kcp.acklist, Acked inc mark ack
  wire : ∀ d ∈ a.wire, d.mine ≤ a.numbered ∧ d.other ≤ mark ∧
    Writes (Sent conv out inc d.mine d.other) d.data

/-- The invariant of a connection: a link for each direction. -/
def Connection.Invariant (c : Connection) : Prop :=
  ∃ (conv : UInt32) (links : Side → Link (Fragment Byte))
    (delivered : Side → List (Fragment Byte)) (mark : Side → ℕ),
    ∀ s, AtEnd (c s) conv (links s) (links s.other) (delivered s) (mark s)

section

variable {conv : UInt32} {out out' inc inc' : Link (Fragment Byte)} {mine other mark : ℕ}

theorem Sent.le {seg : IKCPSEG} (h : Sent conv out inc mine other seg) (hout : out.Le out')
    (hinc : inc.Le inc') : Sent conv out' inc' mine other seg where
  conv := h.conv
  fits := h.fits
  cmd := h.cmd
  una := by
    obtain ⟨u, hu, hle, hrest⟩ := h.una
    exact ⟨u, hu, hle.trans hinc.next, hrest⟩
  ack := by
    intro hcmd
    obtain ⟨i, hi, hhas, hrest⟩ := h.ack hcmd
    exact ⟨i, hi, hinc.has i hhas, hrest⟩
  push := by
    intro hcmd
    obtain ⟨k, hk, hsent, hle⟩ := h.push hcmd
    refine ⟨k, hk, ?_, hle⟩
    obtain ⟨more, hmore⟩ := hout.sent
    rw [← hmore, List.getElem?_append_left (List.getElem?_eq_some_iff.mp hsent).1]
    exact hsent

theorem Acked.le {a : UInt32 × UInt32} (h : Acked inc mark a) (hinc : inc.Le inc') :
    Acked inc' mark a := by
  obtain ⟨i, hi, hhas, hle⟩ := h
  exact ⟨i, hi, hinc.has i hhas, hle⟩

end

section

variable {a b : KcpEnd} {conv : UInt32} {out out' inc inc' : Link (Fragment Byte)}
  {delivered delivered' : List (Fragment Byte)} {mark mark' : ℕ}

/-- What an end may do to its links: it sends over one and receives over the other, and gives
up nothing from `mark` on. -/
structure Drives (mark : ℕ) (out inc out' inc' : Link (Fragment Byte)) : Prop where
  inc_steps : Relation.ReflTransGen Link.Step inc inc'
  inc_sent : inc'.sent = inc.sent
  inc_pending : inc'.pending = inc.pending
  out_steps : Relation.ReflTransGen Link.Step out out'
  out_next : out'.next = out.next
  out_early : out'.early = out.early
  kept : out.KeptFrom mark → out'.KeptFrom mark

theorem Drives.refl : Drives mark out inc out inc :=
  ⟨Relation.ReflTransGen.refl, rfl, rfl, Relation.ReflTransGen.refl, rfl, rfl, id⟩

/-- What one end does to the links leaves the other end as it is. -/
theorem AtEnd.peer (h : AtEnd b conv inc out delivered mark)
    (hdrives : Drives mark out inc out' inc') (hwindow : out'.sent.length ≤ out'.una + 2 ^ 16) :
    AtEnd b conv inc' out' delivered mark := by
  have hholds := h.holds
  obtain ⟨hincWF, hincLe⟩ := hholds.out.steps hdrives.inc_steps
  obtain ⟨houtWF, houtLe⟩ := hholds.inc.steps hdrives.out_steps
  have hsent := hdrives.inc_sent
  have hrec := hholds.receives.extend hholds.inc houtLe.sent hdrives.out_next hdrives.out_early
  have hahead : out'.sent.length ≤ out'.next + 2 ^ 17 := by
    have := Link.Windowed.length_le ⟨hwindow, hrec.room⟩ houtWF
    omega
  refine ⟨h.conv_eq, h.stream, h.mss, ⟨hincWF, houtWF,
    hholds.sends.of_eq hsent hdrives.inc_pending, hrec, hholds.settled, hahead⟩, ?_, ?_, ?_, ?_, ?_,
    h.taken, h.received, hdrives.kept h.kept, ?_, ?_⟩
  · rw [hsent]
    exact h.numbered
  · rw [hsent]
    exact h.chain
  · rw [hsent]
    exact h.complete
  · rw [hsent]
    exact h.small
  · rw [hsent]
    exact h.accepted
  · exact fun ack hack => (h.acks ack hack).le houtLe
  · intro d hd
    obtain ⟨hmine, hother, hdata⟩ := h.wire d hd
    exact ⟨hmine, hother, hdata.mono fun seg hseg => hseg.le hincLe houtLe⟩

/-- An end's step, put into the connection. -/
theorem Connection.invariant_update {c : Connection} {links : Side → Link (Fragment Byte)}
    {delivered : Side → List (Fragment Byte)} {mark : Side → ℕ}
    (h : ∀ s, AtEnd (c s) conv (links s) (links s.other) (delivered s) (mark s)) (s : Side)
    (ha : AtEnd a conv out' inc' delivered' mark')
    (hdrives : Drives (mark s.other) (links s) (links s.other) out' inc') :
    Connection.Invariant (Function.update c s a) := by
  refine ⟨conv, Function.update (Function.update links s out') s.other inc',
    Function.update delivered s delivered', Function.update mark s mark', fun t => ?_⟩
  have hne := s.other_ne
  rcases (show t = s ∨ t = s.other by cases s <;> cases t <;> simp) with rfl | rfl
  · simp only [Function.update_self, Function.update_of_ne hne.symm]
    exact ha
  · have hpeer := h s.other
    rw [Side.other_other] at hpeer ⊢
    simp only [Function.update_self, Function.update_of_ne hne, Function.update_of_ne hne.symm]
    exact hpeer.peer hdrives ha.holds.sends.window

end

/-! ### The calls -/

section

variable {a : KcpEnd} {conv : UInt32} {out inc : Link (Fragment Byte)}
  {delivered : List (Fragment Byte)} {mark : ℕ}

/-- Calls that set something. -/
theorem AtEnd.set (h : AtEnd a conv out inc delivered mark) {kcp : IKCPCB} {mss wnd : UInt32}
    (hsender : kcp.sender = { a.kcp.sender with mss })
    (hreceiver : kcp.receiver = { a.kcp.receiver with wnd })
    (hmss : 0 < mss.toNat ∧ mss.toNat < 2 ^ 31) (hwnd : 128 ≤ wnd.toNat ∧ wnd.toNat < 2 ^ 16) :
    AtEnd { a with kcp } conv out inc delivered mark := by
  have hqueue : kcp.sndQueue = a.kcp.sndQueue := congrArg Sender.queue hsender
  have hacks : kcp.acklist = a.kcp.acklist := congrArg Receiver.acklist hreceiver
  have hs := h.holds.sends
  have hr := h.holds.receives
  refine ⟨(congrArg Sender.conv hsender).trans h.conv_eq,
    (congrArg Sender.stream hsender).trans h.stream, ?_, ⟨h.holds.out, h.holds.inc, ?_, ?_, ?_,
    h.holds.ahead⟩, h.numbered, ?_, ?_, ?_, ?_, h.taken, h.received, h.kept, ?_, h.wire⟩
  · have heq : kcp.mss = mss := congrArg Sender.mss hsender
    show 0 < kcp.mss.toNat ∧ kcp.mss.toNat < 2 ^ 31
    rw [heq]
    exact hmss
  · show Sends kcp.sender out
    rw [hsender]
    exact ⟨hs.nxt, hs.una, hs.buf, hs.window, hs.rmtWnd⟩
  · show Receives kcp.receiver inc delivered
    rw [hreceiver]
    exact ⟨hr.nxt, hr.buf, hr.queue, hr.nque, hwnd.1, hwnd.2, hr.length_lt, hr.room⟩
  · show Settled kcp.receiver
    rw [hreceiver]
    exact h.holds.settled
  all_goals simp only [hqueue, hacks]
  · exact h.chain
  · exact h.complete
  · exact h.small
  · exact h.accepted
  · exact h.acks

/-- Changes of members that neither half has. -/
theorem AtEnd.of_eq (h : AtEnd a conv out inc delivered mark) {kcp : IKCPCB}
    (hsender : kcp.sender = a.kcp.sender) (hreceiver : kcp.receiver = a.kcp.receiver) :
    AtEnd { a with kcp } conv out inc delivered mark :=
  h.set hsender hreceiver h.mss ⟨h.holds.receives.wnd_ge, h.holds.receives.wnd_lt⟩

theorem AtEnd.nodelay (h : AtEnd a conv out inc delivered mark)
    (nodelay interval resend nc : Int32) :
    AtEnd { a with kcp := a.kcp.setNodelay nodelay interval resend nc } conv out inc delivered
      mark := h.of_eq rfl rfl

theorem AtEnd.setmtu (h : AtEnd a conv out inc delivered mark) (mtu : Int32) :
    AtEnd { a with kcp := (a.kcp.setmtu mtu).1 } conv out inc delivered mark := by
  have hwnd := And.intro h.holds.receives.wnd_ge h.holds.receives.wnd_lt
  rw [IKCPCB.setmtu]
  split
  · exact h
  · have hge : ¬ mtu < 50 := fun hlt => ‹¬ (mtu < 50 ∨ _)› (Or.inl hlt)
    rw [Int32.lt_iff_toInt_lt] at hge
    have hfifty : (50 : Int32).toInt = 50 := rfl
    have hnat := Serial.toNat_toUInt32 (x := mtu) (by omega)
    have hlt : mtu.toInt < 2 ^ 31 := mtu.toInt_lt
    refine h.set rfl rfl ?_ hwnd
    rw [UInt32.toNat_sub_of_le _ _ (UInt32.le_iff_toNat_le.mpr ?_)]
    · show 0 < mtu.toUInt32.toNat - 24 ∧ mtu.toUInt32.toNat - 24 < 2 ^ 31
      omega
    · show 24 ≤ mtu.toUInt32.toNat
      omega

theorem AtEnd.wndsize (h : AtEnd a conv out inc delivered mark) (sndwnd : Int32) {rcvwnd : Int32}
    (hlt : rcvwnd < 2 ^ 16) :
    AtEnd { a with kcp := a.kcp.wndsize sndwnd rcvwnd } conv out inc delivered mark := by
  rw [Int32.lt_iff_toInt_lt] at hlt
  have hmax : ((2 : Int32) ^ 16).toInt = 65536 := rfl
  have hle : rcvwnd.toInt ≤ (2 ^ 16 - 1 : ℕ) := by
    rw [show (2 ^ 16 - 1 : ℕ) = 65535 by norm_num]
    omega
  have hwnd := toNat_wndsize (W := 2 ^ 16 - 1) a.kcp sndwnd (fun _ => hle) h.holds.receives.wnd_ge
    (Nat.le_sub_one_of_lt h.holds.receives.wnd_lt)
  exact h.set rfl rfl h.mss ⟨hwnd.1, Nat.lt_of_le_sub_one (Nat.two_pow_pos 16) hwnd.2⟩

/-- **`ikcp_send`**: what is accepted becomes a part of the stream. -/
theorem AtEnd.send (h : AtEnd a conv out inc delivered mark) (buffer : List Byte) :
    AtEnd (a.send buffer) conv out inc delivered mark := by
  rw [KcpEnd.send, send_eq h.stream]
  split
  · exact h.of_eq rfl rfl
  · have hcount : Fragment.count a.kcp.mss.toNat buffer.length < 128 := Nat.not_le.mp ‹_›
    have hsplit := Fragment.whole_split h.mss.1 buffer
    have hs := h.holds.sends
    have hqueue : out.sent ++ (a.kcp.sndQueue ++ Fragment.split a.kcp.mss.toNat buffer)
        = out.sent ++ a.kcp.sndQueue ++ Fragment.split a.kcp.mss.toNat buffer :=
      (List.append_assoc _ _ _).symm
    refine ⟨h.conv_eq, h.stream, h.mss, ⟨h.holds.out, h.holds.inc,
      ⟨hs.nxt, hs.una, hs.buf, hs.window, hs.rmtWnd⟩, h.holds.receives, h.holds.settled,
      h.holds.ahead⟩, h.numbered, ?_, ?_, ?_, ?_, h.taken, h.received, h.kept, h.acks, h.wire⟩
    all_goals simp only [hqueue, if_true]
    · exact h.chain.append h.complete (Fragment.numbered_pieces _ _ _)
    · exact h.complete.append (Fragment.complete_pieces _ _ _)
    · intro f hf
      rcases List.mem_append.mp hf with hf | hf
      · exact h.small f hf
      · obtain ⟨hlen, hfrg⟩ := Fragment.length_data_of_mem_pieces hf
        exact ⟨hfrg.trans hcount, hlen.trans_lt h.mss.2⟩
    · rw [Fragment.whole_append h.complete, hsplit, h.accepted]

/-- **`ikcp_recv`**: what is handed over is the next message of the stream. -/
theorem AtEnd.recv (h : AtEnd a conv out inc delivered mark) (hnum : Fragment.Numbered inc.sent)
    (hsmall : ∀ f ∈ inc.sent, Small f) (m : ℕ) (len : ℤ) :
    ∃ inc' delivered', AtEnd (a.recv len) conv out inc' delivered' mark ∧
      Drives m out inc out inc' := by
  have hfrg : ∀ f ∈ inc.sent, f.frg < 2 ^ 8 := fun f hf => (hsmall f hf).1.trans (by norm_num)
  rcases receives_recv (L := inc) h.holds.receives h.holds.inc hnum hfrg len with
    ⟨e, he⟩ | ⟨data, inc', msg, hdata, hsteps, hsent, hpending, hrec, hset, hmsg⟩
  · -- nothing is handed over
    refine ⟨inc, delivered, ?_, Drives.refl⟩
    rw [KcpEnd.recv, he]
    exact h
  have hinc := h.holds.inc.steps hsteps
  have hsender : (a.kcp.recv len).1.sender = a.kcp.sender := sender_recv a.kcp len
  have hqueue : (a.kcp.recv len).1.sndQueue = a.kcp.sndQueue := congrArg Sender.queue hsender
  have hacks : (a.kcp.recv len).1.acklist = a.kcp.acklist := acklist_recv a.kcp len
  refine ⟨inc', delivered ++ msg, ?_,
    ⟨hsteps, hsent, hpending, Relation.ReflTransGen.refl, rfl, rfl, id⟩⟩
  -- what the other end sends is as before
  have hkept : inc'.KeptFrom mark := by
    refine ⟨by rw [hsent]; exact h.kept.mark_le, fun k hk hlt => ?_⟩
    rw [hpending]
    exact h.kept.mem k hk (by rw [← hsent]; exact hlt)
  refine ⟨(congrArg Sender.conv hsender).trans h.conv_eq,
    (congrArg Sender.stream hsender).trans h.stream, ?_, ⟨h.holds.out, hinc.1, ?_, hrec, hset, ?_⟩,
    h.numbered, ?_, ?_, ?_, ?_, ?_, ?_, hkept, ?_, fun d hd => ?_⟩
  · show 0 < (a.kcp.recv len).1.mss.toNat ∧ (a.kcp.recv len).1.mss.toNat < 2 ^ 31
    rw [show (a.kcp.recv len).1.mss = a.kcp.mss from congrArg Sender.mss hsender]
    exact h.mss
  · show Sends (a.kcp.recv len).1.sender out
    rw [hsender]
    exact h.holds.sends
  · have hahead : inc.sent.length ≤ inc.next + 2 ^ 17 := h.holds.ahead
    have hnext : inc.next ≤ inc'.next := hinc.2.next
    show inc'.sent.length ≤ inc'.next + 2 ^ 17
    rw [hsent]
    omega
  · show Fragment.Numbered (out.sent ++ (a.kcp.recv len).1.sndQueue)
    rw [hqueue]
    exact h.chain
  · show Fragment.Complete (out.sent ++ (a.kcp.recv len).1.sndQueue)
    rw [hqueue]
    exact h.complete
  · show ∀ f ∈ out.sent ++ (a.kcp.recv len).1.sndQueue, Small f
    rw [hqueue]
    exact h.small
  · show Fragment.whole (out.sent ++ (a.kcp.recv len).1.sndQueue) = a.accepted
    rw [hqueue]
    exact h.accepted
  · rcases hmsg with ⟨-, rfl⟩ | ⟨-, hcomplete, -⟩
    · rw [List.append_nil]
      exact h.taken
    · exact h.taken.append hcomplete
  · simp only [KcpEnd.recv, hdata]
    rcases hmsg with ⟨hlen, rfl⟩ | ⟨hlen, -, hwhole⟩
    · rw [List.append_nil, if_pos hlen]
      exact h.received
    · rw [if_neg (Int.not_lt.mpr hlen), Fragment.whole_append h.taken, h.received, hwhole]
  · show ∀ ack ∈ (a.kcp.recv len).1.acklist, Acked inc' mark ack
    rw [hacks]
    exact fun ack hack => (h.acks ack hack).le hinc.2
  · obtain ⟨hmine, hother, hwrites⟩ := h.wire d hd
    exact ⟨hmine, hother, hwrites.mono fun seg hseg => hseg.le (Link.Le.refl _) hinc.2⟩

/-- What is written on the wire of the other end is true here, if it is not too old. -/
theorem Sent.arrives {b : KcpEnd} {d : WireDatagram} {m : ℕ} {seg : IKCPSEG}
    (h : AtEnd a conv out inc delivered mark) (hm : d.other ≤ m)
    (hb : b.numbered = inc.sent.length) (hmine : b.numbered ≤ d.mine + Connection.lifetime)
    (hother : a.numbered ≤ d.other + Connection.lifetime)
    (hseg : Sent conv inc out d.mine d.other seg) : Arrives ⟨a.kcp, out, inc⟩ m seg := by
  rw [hb, Connection.lifetime] at hmine
  rw [h.numbered, Connection.lifetime] at hother
  refine ⟨hseg.conv.trans h.conv_eq.symm, hseg.fits, hseg.cmd, ?_, fun hcmd => ?_, fun hcmd => ?_⟩
  · obtain ⟨u, hu, hnext, hle, hge⟩ := hseg.una
    refine ⟨u, hu, fun k hk => Or.inl (hk.trans_le hnext), hle.trans hm, ?_⟩
    show out.sent.length ≤ u + 2 ^ 31
    omega
  · obtain ⟨i, hi, hhas, hlt, hge⟩ := hseg.ack hcmd
    refine ⟨i, hi, hhas, hlt.trans_le hm, ?_⟩
    show out.sent.length ≤ i + 2 ^ 31
    omega
  · obtain ⟨k, hk, hsent, hge⟩ := hseg.push hcmd
    refine ⟨k, hk, hsent, ?_⟩
    show inc.sent.length ≤ k + (2 ^ 29 + 2 ^ 16)
    omega

/-- **`ikcp_input`** with a datagram of the other end. -/
theorem AtEnd.deliver (h : AtEnd a conv out inc delivered mark) {m : ℕ} (hm : out.KeptFrom m)
    {data : List Byte} (hdata : Writes (Arrives ⟨a.kcp, out, inc⟩ m) data) :
    ∃ out' inc', AtEnd (a.input .bits32 data) conv out' inc' delivered mark ∧
      Drives m out inc out' inc' := by
  obtain ⟨⟨kcp, out', inc'⟩, hkcp, hhears⟩ := hears_input h.holds hm.mark_le hdata
  have hkcp' : kcp = (a.kcp.input .bits32 data).1 := hkcp
  subst hkcp'
  obtain ⟨una, buf, nbuf, rmtWnd, hsender⟩ := hhears.sender
  have hout := h.holds.out.steps hhears.out
  have hinc := h.holds.inc.steps hhears.inc
  have houtSent : out'.sent = out.sent := hhears.out_sent
  have hincSent : inc'.sent = inc.sent := hhears.inc_sent
  have hincPending : inc'.pending = inc.pending := hhears.inc_pending
  have hqueue : (a.kcp.input .bits32 data).1.sndQueue = a.kcp.sndQueue :=
    congrArg Sender.queue hsender
  refine ⟨out', inc', ?_, ⟨hhears.inc, hincSent, hincPending, hhears.out, hhears.out_next,
    hhears.out_early, fun hkept => ?_⟩⟩
  · have hkept : inc'.KeptFrom mark := by
      refine ⟨by rw [hincSent]; exact h.kept.mark_le, fun k hk hlt => ?_⟩
      rw [hincPending]
      exact h.kept.mem k hk (by rw [← hincSent]; exact hlt)
    refine ⟨(congrArg Sender.conv hsender).trans h.conv_eq,
      (congrArg Sender.stream hsender).trans h.stream, ?_, hhears.holds, ?_, ?_, ?_, ?_, ?_,
      h.taken, h.received, hkept, fun ack hack => ?_, fun d hd => ?_⟩
    · show 0 < (a.kcp.input .bits32 data).1.mss.toNat ∧
        (a.kcp.input .bits32 data).1.mss.toNat < 2 ^ 31
      rw [show (a.kcp.input .bits32 data).1.mss = a.kcp.mss from congrArg Sender.mss hsender]
      exact h.mss
    · rw [houtSent]
      exact h.numbered
    -- the messages that wait are as before
    any_goals simp only [KcpEnd.input, hqueue, houtSent]
    · exact h.chain
    · exact h.complete
    · exact h.small
    · exact h.accepted
    · rcases hhears.acks ack hack with hold | ⟨k, hk, hhas, hle⟩
      · exact (h.acks ack hold).le hinc.2
      · exact ⟨k, hk, hhas, h.kept.mark_le.trans hle⟩
    · obtain ⟨hmine, hother, hwrites⟩ := h.wire d hd
      exact ⟨hmine, hother, hwrites.mono fun seg hseg => hseg.le hout.2 hinc.2⟩
  · refine ⟨by rw [houtSent]; exact hkept.mark_le, fun k hk hlt => ?_⟩
    exact hhears.kept k (hkept.mem k hk (by rw [← houtSent]; exact hlt)) hk

/-- **`ikcp_input`** with a datagram of another conversation. -/
theorem AtEnd.stray (h : AtEnd a conv out inc delivered mark) {data : List Byte}
    (hdata : data.length < ikcpOverheadLen ∨ (IKCPSEG.decode data).1.conv ≠ a.kcp.conv) :
    AtEnd (a.input .bits32 data) conv out inc delivered mark := by
  rw [KcpEnd.input, input_of_conv_ne .bits32 a.kcp hdata]
  exact h

/-- What a flush puts out is true of the links as they are then. -/
theorem AtEnd.sent_of_put (h : AtEnd a conv out inc delivered mark)
    (hwindow : inc.sent.length ≤ inc.una + 2 ^ 16) {clocked : IKCPCB}
    (hsender : clocked.sender = a.kcp.sender) (hreceiver : clocked.receiver = a.kcp.receiver)
    {s : Sender} {out' : Link (Fragment Byte)} (hsends : Sends s out') (hout : out'.WF)
    (hconv : s.conv = conv) (hsmall : ∀ f ∈ out'.sent, Small f) {seg : IKCPSEG}
    (hput : Put clocked s.buf seg) : Sent conv out' inc out'.sent.length inc.sent.length seg := by
  have hr := h.holds.receives
  have hnxt : clocked.rcvNxt = UInt32.ofNat inc.next :=
    (congrArg Receiver.nxt hreceiver).trans hr.nxt
  have hclockedConv : clocked.conv = conv := (congrArg Sender.conv hsender).trans h.conv_eq
  have hwnd : clocked.wndUnused.toNat < 2 ^ 16 := by
    have hrcv : clocked.rcvWnd.toNat < 2 ^ 16 := by
      rw [show clocked.rcvWnd = a.kcp.rcvWnd from congrArg Receiver.wnd hreceiver]
      exact hr.wnd_lt
    rw [wndUnused]
    split
    · have hlt := UInt32.lt_iff_toNat_lt.mp ‹clocked.nrcvQue < clocked.rcvWnd›
      rw [UInt32.toNat_sub_of_le _ _ (UInt32.le_iff_toNat_le.mpr hlt.le)]
      omega
    · exact Nat.two_pow_pos 16
  have hnext : inc.next ≤ inc.sent.length := h.holds.inc.next_le
  have hahead : inc.sent.length ≤ inc.next + 2 ^ 17 := h.holds.ahead
  have hfits (cmd : ℕ) (hcmd : cmd < 2 ^ 8) (ack : UInt32 × UInt32) :
      (clocked.control cmd ack).Fits := ⟨hcmd, Nat.two_pow_pos 8, hwnd, Nat.two_pow_pos 31⟩
  have huna : ∃ u, clocked.rcvNxt = UInt32.ofNat u ∧ u ≤ inc.next ∧ u ≤ inc.sent.length ∧
      inc.sent.length ≤ u + 2 ^ 17 := ⟨inc.next, hnxt, Nat.le_refl _, hnext, hahead⟩
  cases hput with
  | @ack ack hack =>
      refine ⟨hclockedConv, hfits _ (by decide) ack, Or.inr (Or.inl rfl), huna, fun _ => ?_,
        fun hcmd => absurd hcmd (by show ikcpCmdAck ≠ ikcpCmdPush; decide)⟩
      have hack' : ack ∈ a.kcp.acklist := by
        rw [← show clocked.acklist = a.kcp.acklist from congrArg Receiver.acklist hreceiver]
        exact hack
      -- nothing from `mark` on has been given up, so the acknowledgement is not old
      obtain ⟨i, hi, hhas, hle⟩ := h.acks ack hack'
      have hkept := h.kept.length_le h.holds.inc ⟨hwindow, hr.room⟩
      have hlt : i < inc.sent.length := by
        rcases hhas with hlt | hmem
        · exact hlt.trans_le hnext
        · exact (h.holds.inc.early_mem i hmem).2
      refine ⟨i, hi, hhas, hlt, ?_⟩
      omega
  | ask ack =>
      exact ⟨hclockedConv, hfits _ (by decide) ack, Or.inr (Or.inr (Or.inl rfl)), huna,
        fun hcmd => absurd hcmd (by show ikcpCmdWask ≠ ikcpCmdAck; decide),
        fun hcmd => absurd hcmd (by show ikcpCmdWask ≠ ikcpCmdPush; decide)⟩
  | tell ack =>
      exact ⟨hclockedConv, hfits _ (by decide) ack, Or.inr (Or.inr (Or.inr rfl)), huna,
        fun hcmd => absurd hcmd (by show ikcpCmdWins ≠ ikcpCmdAck; decide),
        fun hcmd => absurd hcmd (by show ikcpCmdWins ≠ ikcpCmdPush; decide)⟩
  | @push seg hseg =>
      rw [hsends.buf] at hseg
      obtain ⟨k, hk, rfl⟩ := List.mem_map.mp hseg
      obtain ⟨hlt, hnear⟩ := hsends.lt_of_mem hout hk
      have hget : out'.sent.getD k ⟨0, []⟩ = out'.sent[k] := by
        rw [List.getD_eq_getElem?_getD, List.getElem?_eq_getElem hlt, Option.getD_some]
      have hfragment := hsmall _ (List.getElem_mem hlt)
      rw [← hget] at hfragment
      refine ⟨hconv, ⟨?_, ?_, hwnd, hfragment.2⟩, Or.inl rfl, huna,
        fun hcmd => absurd hcmd (by show ikcpCmdPush ≠ ikcpCmdAck; decide), fun _ => ?_⟩
      · show ikcpCmdPush < 2 ^ 8
        decide
      · exact hfragment.1.trans (by norm_num)
      · refine ⟨k, rfl, ?_, hnear⟩
        rw [List.getElem?_eq_getElem hlt, ← hget]
        rfl

/-- What a flush does to a control block that sends over `out`: it numbers what the window
lets through, and tells the acknowledgements. -/
structure Flushed (kcp flushed : IKCPCB) (out out' : Link (Fragment Byte)) : Prop where
  steps : Relation.ReflTransGen Link.Step out out'
  next : out'.next = out.next
  early : out'.early = out.early
  kept : ∀ mark, out.KeptFrom mark → out'.KeptFrom mark
  sends : Sends flushed.sender out'
  queued : out'.sent ++ flushed.sndQueue = out.sent ++ kcp.sndQueue
  conv : flushed.conv = kcp.conv
  stream : flushed.stream = kcp.stream
  mss : flushed.mss = kcp.mss
  receiver : flushed.receiver = { kcp.receiver with acklist := [] }

theorem flushed_flush {kcp clocked : IKCPCB} (hsends : Sends kcp.sender out) (hout : out.WF)
    (hupdated : clocked.updated ≠ 0) (hsender : clocked.sender = kcp.sender)
    (hreceiver : clocked.receiver = kcp.receiver) :
    ∃ out', Flushed kcp (clocked.flush .bits32).1 out out' := by
  obtain ⟨probed, hprobed, -, hmoved, hforgot⟩ := flush_eq .bits32 hupdated
  have hboth : probed.sender = kcp.sender := hprobed.trans hsender
  rw [← hboth] at hsends
  have hcwnd : probed.sendWindow.toNat < 2 ^ 16 :=
    (sendWindow_le probed).trans_lt hsends.rmtWnd
  obtain ⟨out', hsteps, hnext, hearly, hsends', hqueued, hkept⟩ :=
    @sends_moveToBuf _ _ hsends hout clocked.wndUnused _ hcwnd probed.sndQueue
  rw [← hmoved] at hsends'
  have hqueue : probed.sndQueue = kcp.sndQueue := congrArg Sender.queue hboth
  have hqueue' : (clocked.flush .bits32).1.sndQueue
      = (moveToBuf .bits32 clocked.wndUnused probed.sendWindow probed probed.sndQueue).sndQueue :=
    congrArg Sender.queue hmoved
  rw [← hqueue', hqueue] at hqueued
  -- the moving changes the queue, the buffer and what counts them
  obtain ⟨_, _, _, _, _, heq⟩ := moveToBuf_eq .bits32 clocked.wndUnused probed.sendWindow probed
    probed.sndQueue
  rw [heq] at hmoved
  refine ⟨out', hsteps, hnext, hearly, hkept, hsends', hqueued, ?_, ?_, ?_, ?_⟩
  · exact (congrArg Sender.conv hmoved).trans (congrArg Sender.conv hboth)
  · exact (congrArg Sender.stream hmoved).trans (congrArg Sender.stream hboth)
  · exact (congrArg Sender.mss hmoved).trans (congrArg Sender.mss hboth)
  · rw [hforgot, hreceiver]

/-- As many segments get a number as leave the queue. -/
theorem AtEnd.numbered_flushed (h : AtEnd a conv out inc delivered mark) {flushed : IKCPCB}
    (hf : Flushed a.kcp flushed out out') :
    a.numbered + (a.kcp.sndQueue.length - flushed.sndQueue.length) = out'.sent.length := by
  have hlen := congrArg List.length hf.queued
  have hpart : out.sent.length ≤ out'.sent.length :=
    (h.holds.out.steps hf.steps).2.sent.length_le
  rw [List.length_append, List.length_append] at hlen
  have hn := h.numbered
  omega

/-- The block is the end of both links still. -/
theorem AtEnd.holds_flushed (h : AtEnd a conv out inc delivered mark) {flushed : IKCPCB}
    (hf : Flushed a.kcp flushed out out') : End.Holds ⟨flushed, out', inc⟩ delivered := by
  have hr := h.holds.receives
  refine ⟨(h.holds.out.steps hf.steps).1, h.holds.inc, hf.sends, ?_, ?_, h.holds.ahead⟩
  · show Receives flushed.receiver inc delivered
    rw [hf.receiver]
    exact ⟨hr.nxt, hr.buf, hr.queue, hr.nque, hr.wnd_ge, hr.wnd_lt, hr.length_lt, hr.room⟩
  · show Settled flushed.receiver
    rw [hf.receiver]
    exact h.holds.settled

/-- **A flush**: what is put out is true of the links, and the acknowledgements kept are told. -/
theorem AtEnd.flushed (h : AtEnd a conv out inc delivered mark) {flushed : IKCPCB}
    (hf : Flushed a.kcp flushed out out') {datagrams : List (List Byte)}
    (hput : ∀ data ∈ datagrams,
      Writes (Sent conv out' inc out'.sent.length inc.sent.length) data) :
    AtEnd
      { a with
        kcp := flushed
        numbered := out'.sent.length
        wire := a.wire ++ datagrams.map fun data => ⟨data, out'.sent.length, inc.sent.length⟩ }
      conv out' inc delivered inc.sent.length := by
  have hle : out.Le out' := (h.holds.out.steps hf.steps).2
  refine ⟨hf.conv.trans h.conv_eq, hf.stream.trans h.stream, ?_, h.holds_flushed hf, rfl, ?_, ?_,
    ?_, ?_, h.taken, h.received, Link.keptFrom_length inc, ?_, fun d hd => ?_⟩
  · show 0 < flushed.mss.toNat ∧ flushed.mss.toNat < 2 ^ 31
    rw [hf.mss]
    exact h.mss
  · show Fragment.Numbered (out'.sent ++ flushed.sndQueue)
    rw [hf.queued]
    exact h.chain
  · show Fragment.Complete (out'.sent ++ flushed.sndQueue)
    rw [hf.queued]
    exact h.complete
  · show ∀ f ∈ out'.sent ++ flushed.sndQueue, Small f
    rw [hf.queued]
    exact h.small
  · show Fragment.whole (out'.sent ++ flushed.sndQueue) = a.accepted
    rw [hf.queued]
    exact h.accepted
  · show ∀ ack ∈ flushed.acklist, Acked inc inc.sent.length ack
    rw [show flushed.acklist = [] from congrArg Receiver.acklist hf.receiver]
    exact fun _ hack => absurd hack List.not_mem_nil
  · -- a datagram from before, or one of this flush
    rcases List.mem_append.mp hd with hd | hd
    · obtain ⟨hmine, hother, hwrites⟩ := h.wire d hd
      refine ⟨hmine.trans ?_, hother.trans h.kept.mark_le,
        hwrites.mono fun seg hseg => hseg.le hle (Link.Le.refl _)⟩
      rw [h.numbered]
      exact hle.sent.length_le
    · obtain ⟨data, hdata, rfl⟩ := List.mem_map.mp hd
      exact ⟨Nat.le_refl _, Nat.le_refl _, hput data hdata⟩

/-- **`ikcp_update`** does nothing, or flushes. -/
theorem AtEnd.update (h : AtEnd a conv out inc delivered mark)
    (hwindow : inc.sent.length ≤ inc.una + 2 ^ 16) (m : ℕ) (current : UInt32) :
    ∃ out' mark', AtEnd (a.update .bits32 inc.sent.length current) conv out' inc delivered mark' ∧
      Drives m out inc out' inc := by
  obtain ⟨clocked, hsender, hreceiver, -, hsame | ⟨hupdated, hflush⟩⟩ :=
    update_cases .bits32 a.kcp current
  · -- it is not due
    refine ⟨out, mark, ?_, Drives.refl⟩
    have hqueue : clocked.sndQueue = a.kcp.sndQueue := congrArg Sender.queue hsender
    simp only [KcpEnd.update, hsame, hqueue, Nat.sub_self, Nat.add_zero, List.map_nil,
      List.append_nil]
    exact h.of_eq hsender hreceiver
  · obtain ⟨out', hf⟩ := flushed_flush h.holds.sends h.holds.out hupdated hsender hreceiver
    have hdrives : Drives m out inc out' inc :=
      ⟨Relation.ReflTransGen.refl, rfl, rfl, hf.steps, hf.next, hf.early, hf.kept m⟩
    refine ⟨out', inc.sent.length, ?_, hdrives⟩
    simp only [KcpEnd.update, hflush, h.numbered_flushed hf]
    apply h.flushed hf
    intro data hdata
    have hsmall : ∀ f ∈ out'.sent, Small f := by
      intro f hfrag
      apply h.small
      rw [← hf.queued]
      exact List.mem_append_left _ hfrag
    refine (made_flush .bits32 (fun seg hput => ?_) data hdata).1
    exact h.sent_of_put hwindow hsender hreceiver hf.sends (h.holds.out.steps hf.steps).1
      (hf.conv.trans h.conv_eq) hsmall hput

end

/-! ### Steps and runs -/

namespace Connection

theorem sends_create (conv : UInt32) : Sends (create conv).sender Link.empty := by
  refine ⟨rfl, rfl, rfl, Nat.zero_le _, ?_⟩
  show (128 : ℕ) < 2 ^ 16
  norm_num

theorem receives_create (conv : UInt32) : Receives (create conv).receiver Link.empty [] := by
  refine ⟨rfl, rfl, rfl, rfl, Nat.le_refl 128, ?_, Nat.two_pow_pos 16, fun _ hk => ?_⟩
  · show (128 : ℕ) < 2 ^ 16
    norm_num
  · exact absurd hk List.not_mem_nil

theorem invariant_start (conv : UInt32) : Invariant (start conv) := by
  refine ⟨conv, fun _ => Link.empty, fun _ => [], fun _ => 0, fun s => ?_⟩
  have hmss : 0 < (1376 : ℕ) ∧ (1376 : ℕ) < 2 ^ 31 := by norm_num
  refine ⟨rfl, rfl, hmss, ⟨Link.wf_empty, Link.wf_empty, sends_create conv, receives_create conv,
    ?_, Nat.zero_le _⟩, rfl, Fragment.numbered_nil, Fragment.complete_nil, ?_, rfl,
    Fragment.complete_nil, rfl, Link.keptFrom_length Link.empty, ?_, ?_⟩
  · intro seg hseg
    cases hseg
  · exact fun _ hf => absurd hf List.not_mem_nil
  · exact fun _ hack => absurd hack List.not_mem_nil
  · exact fun _ hd => absurd hd List.not_mem_nil

/-- **The invariant is kept** by whatever the program and the network do. -/
theorem Invariant.step {c : Connection} (h : c.Invariant) {op : Op} (hop : c.Allowed op) :
    Invariant (c.step .bits32 op) := by
  obtain ⟨conv, links, delivered, mark, h⟩ := h
  cases op with
  | send s buffer => exact invariant_update h s ((h s).send buffer) Drives.refl
  | recv s len =>
      have hpeer := h s.other
      have hnum : Fragment.Numbered (links s.other).sent :=
        List.IsChain.left_of_append hpeer.chain
      obtain ⟨inc', delivered', hrecv, hdrives⟩ := (h s).recv hnum
        (fun f hf => hpeer.small f (List.mem_append_left _ hf)) (mark s.other) len
      exact invariant_update h s hrecv hdrives
  | update s current =>
      have hpeer := h s.other
      obtain ⟨out', mark', hupdate, hdrives⟩ :=
        (h s).update hpeer.holds.sends.window (mark s.other) current
      rw [← hpeer.numbered] at hupdate
      exact invariant_update h s hupdate hdrives
  | deliver s d =>
      obtain ⟨hd, hmine, hother⟩ := hop
      have hpeer := h s.other
      rw [Side.other_other] at hpeer
      obtain ⟨-, hle, hwrites⟩ := hpeer.wire d hd
      obtain ⟨out', inc', hinput, hdrives⟩ := (h s).deliver hpeer.kept
        (hwrites.mono fun seg hseg => hseg.arrives (h s) hle hpeer.numbered hmine hother)
      exact invariant_update h s hinput hdrives
  | stray s data => exact invariant_update h s ((h s).stray hop) Drives.refl
  | nodelay s nodelay interval resend nc =>
      exact invariant_update h s ((h s).nodelay nodelay interval resend nc) Drives.refl
  | setmtu s mtu => exact invariant_update h s ((h s).setmtu mtu) Drives.refl
  | wndsize s sndwnd rcvwnd => exact invariant_update h s ((h s).wndsize sndwnd hop) Drives.refl

/-- **The invariant holds of whole runs.** -/
theorem invariant_run {c : Connection} (h : c.Invariant) {ops : List Op}
    (hops : Run.EachStep (step .bits32) Allowed c ops) : Invariant (ops.foldl (step .bits32) c) := by
  induction ops generalizing c with
  | nil => exact h
  | cons op ops ih => exact ih (h.step hops.1) hops.2

end Connection

end PCGForUnity
