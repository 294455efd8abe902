/-
PCGForUnity/Network/Kcp/Progress.lean

A KCP connection does not get stuck: from every state that a run leads to, calls of
`ikcp_update` and `ikcp_recv` and datagrams that arrive can bring it about that all that was
accepted has been received, at both ends (`can_finish`).

Design.  What counts is how many segments are not acknowledged yet (`left`).  No call but
`ikcp_send` adds to them.  When `snd_buf` has one, its first is sent again, acknowledged and
given up (`exists_less`); when `snd_buf` is empty, the window is opened for the next, by a
probe if need be (`exists_open`).  The induction is on their number, and each turn of it is a
run of a few calls that `Recovery` has as single steps.

The calls that are added are `Quiet`: they send nothing new and change no setting, so what was
accepted stays what it was.  They are `Allowed` as well, which needs that no datagram of the
new calls is old; and windows set by the program are at least what KCP raises them to.
-/
import Mathlib.Algebra.Order.BigOperators.Group.List
import PCGForUnity.Network.Kcp.Delivery
import PCGForUnity.Network.Kcp.Recovery

namespace PCGForUnity

open IKCPCB

/-- How many segments have been accepted and are not acknowledged. -/
def KcpEnd.left (a : KcpEnd) : ℕ := a.kcp.sndBuf.length + a.kcp.sndQueue.length

namespace Connection

/-- The steps that take part: an end's clock, a program that receives, and a network that
delivers. -/
def Op.Quiet : Op → Prop
  | .recv _ len => 0 ≤ len
  | .update _ _ => True
  | .deliver _ _ => True
  | _ => False

/-- One of these steps. -/
def Follows (c c' : Connection) : Prop :=
  ∃ op : Op, op.Quiet ∧ c.Allowed op ∧ c' = c.step .bits32 op

/-- Some of these steps. -/
abbrev Leads : Connection → Connection → Prop := Relation.ReflTransGen Follows

/-! ### The send window is never closed by the program -/

/-- No call makes `snd_wnd` zero. -/
theorem sndWnd_step {c : Connection} (h : ∀ s, (c s).kcp.sndWnd ≠ 0) (op : Op) (s : Side) :
    (c.step .bits32 op s).kcp.sndWnd ≠ 0 := by
  -- only the end that is called can change
  have hput {r : Side} {a : KcpEnd} (ha : a.kcp.sndWnd ≠ 0) :
      (Function.update c r a s).kcp.sndWnd ≠ 0 := by
    by_cases hs : s = r
    · rw [hs, Function.update_self]
      exact ha
    · rw [Function.update_of_ne hs]
      exact h s
  have hsame {r : Side} {a : KcpEnd} (ha : a.kcp.settings = (c r).kcp.settings) :
      (Function.update c r a s).kcp.sndWnd ≠ 0 :=
    hput (by rw [show a.kcp.sndWnd = (c r).kcp.sndWnd from congrArg Settings.sndWnd ha]; exact h r)
  cases op with
  | send r buffer => exact hsame (settings_send _ _)
  | recv r len => exact hsame (settings_recv _ _)
  | update r current =>
      obtain ⟨updated, hsettings⟩ := settings_update .bits32 (c r).kcp current
      refine hput ?_
      rw [show ((c r).update .bits32 (c r.other).numbered current).kcp.sndWnd = (c r).kcp.sndWnd
        from congrArg Settings.sndWnd hsettings]
      exact h r
  | deliver r d => exact hsame (settings_input _ _)
  | stray r data => exact hsame (settings_input _ _)
  | nodelay r nodelay interval resend nc => exact hput (h r)
  | setmtu r mtu =>
      refine hput ?_
      rw [IKCPCB.setmtu]
      split
      · exact h r
      · exact h r
  | wndsize r sndwnd rcvwnd =>
      refine hput ?_
      show (if sndwnd > 0 then sndwnd.toUInt32 else (c r).kcp.sndWnd) ≠ 0
      split
      · rename_i hpos
        intro hzero
        have hnat := Serial.toNat_toUInt32 (x := sndwnd) (Int32.lt_iff_toInt_lt.mp hpos).le
        have hlt := Int32.lt_iff_toInt_lt.mp hpos
        rw [hzero] at hnat
        have hz : (0 : Int32).toInt = 0 := rfl
        have hz' : (0 : UInt32).toNat = 0 := rfl
        omega
      · exact h r

/-! ### What is left -/

theorem left_eq_sender (a : KcpEnd) :
    a.left = a.kcp.sender.buf.length + a.kcp.sender.queue.length := by
  show _ = (a.kcp.sndBuf.map SndSeg.fixed).length + a.kcp.sndQueue.length
  rw [List.length_map]
  rfl

theorem length_moveToBuf (long : LongWidth) (wnd cwnd : UInt32) (kcp : IKCPCB)
    (fs : List (Fragment Byte)) :
    (moveToBuf long wnd cwnd kcp fs).sndBuf.length + (moveToBuf long wnd cwnd kcp fs).sndQueue.length
      = kcp.sndBuf.length + fs.length := by
  induction fs generalizing kcp with
  | nil => rfl
  | cons f fs ih =>
      rw [moveToBuf]
      split
      · rw [ih]
        simp only [List.length_append, List.length_cons, List.length_nil]
        omega
      · rfl

/-- An update only moves segments. -/
theorem left_update (a : KcpEnd) (other : ℕ) (current : UInt32) :
    (a.update .bits32 other current).left = a.left := by
  obtain ⟨clocked, hsender, -, -, heq | ⟨hupdated, heq⟩⟩ := update_cases .bits32 a.kcp current
  · have hkcp : (a.update .bits32 other current).kcp = clocked := congrArg Prod.fst heq
    rw [left_eq_sender, left_eq_sender, hkcp, hsender]
  · have hkcp : (a.update .bits32 other current).kcp = (clocked.flush .bits32).1 :=
      congrArg Prod.fst heq
    obtain ⟨probed, hprobed, -, hmoved, -⟩ := flush_eq .bits32 hupdated
    have hlen := length_moveToBuf .bits32 clocked.wndUnused probed.sendWindow probed probed.sndQueue
    rw [left_eq_sender, left_eq_sender, hkcp, hmoved, ← hsender, ← hprobed]
    simp only [sender, List.length_map]
    exact hlen

/-! ### Datagrams -/

/-- The datagram has these segments, and may come to `s`. -/
structure Carries (c : Connection) (s : Side) (d : WireDatagram) (group : List IKCPSEG) : Prop where
  data : d.data = group.flatMap IKCPSEG.encode
  fits : ∀ seg ∈ group, seg.Fits
  allowed : c.Allowed (.deliver s d)

/-- How a datagram that may come meets the end that it comes to. -/
theorem Invariant.writes {c : Connection} (h : c.Invariant) {s : Side} {d : WireDatagram}
    (hd : c.Allowed (.deliver s d)) :
    ∃ (e : End) (mark : ℕ) (delivered : List (Fragment Byte)), e.kcp = (c s).kcp ∧
      e.Holds delivered ∧ mark ≤ e.out.sent.length ∧ Writes (Arrives e mark) d.data ∧
      Sends (c s.other).kcp.sender e.inc := by
  obtain ⟨conv, links, delivered, mark, h⟩ := h
  obtain ⟨hmem, hmine, hother⟩ := hd
  have hpeer := h s.other
  rw [Side.other_other] at hpeer
  obtain ⟨-, hle, hwrites⟩ := hpeer.wire d hmem
  exact ⟨⟨(c s).kcp, links s, links s.other⟩, mark s.other, delivered s, rfl, (h s).holds,
    hpeer.kept.mark_le,
    hwrites.mono fun seg hseg => hseg.arrives (h s) hle hpeer.numbered hmine hother,
    hpeer.holds.sends⟩

theorem Carries.arrives {c : Connection} {s : Side} {d : WireDatagram} {group : List IKCPSEG}
    (hd : c.Carries s d group) (h : c.Invariant) :
    ∃ (e : End) (mark : ℕ) (delivered : List (Fragment Byte)), e.kcp = (c s).kcp ∧
      e.Holds delivered ∧ mark ≤ e.out.sent.length ∧ (∀ seg ∈ group, Arrives e mark seg) ∧
      Sends (c s.other).kcp.sender e.inc := by
  obtain ⟨e, mark, delivered, hkcp, hholds, hmark, ⟨segs, hdata, hsegs⟩, hsends⟩ := h.writes hd.allowed
  have heq : group = segs := by
    refine IKCPSEG.flatMap_encode_inj (hd.data.symm.trans hdata) hd.fits fun seg hseg => ?_
    exact (hsegs seg hseg).fits
  rw [heq]
  exact ⟨e, mark, delivered, hkcp, hholds, hmark, hsegs, hsends⟩

theorem length_pending {kcp : IKCPCB} {L : Link (Fragment Byte)} (h : Sends kcp.sender L) :
    kcp.sndBuf.length = L.pending.length := by
  have hlen := congrArg List.length h.buf
  rw [List.length_map] at hlen
  rw [← hlen]
  exact (List.length_map SndSeg.fixed).symm

/-- What comes only takes segments off. -/
theorem Hears.left_le {mark : ℕ} {delivered : List (Fragment Byte)} {e e' : End}
    (h : e.Holds delivered) (hhears : Hears mark delivered e e') :
    e'.kcp.sndBuf.length + e'.kcp.sndQueue.length ≤ e.kcp.sndBuf.length + e.kcp.sndQueue.length := by
  obtain ⟨_, _, _, _, hsender⟩ := hhears.sender
  have hqueue : e'.kcp.sndQueue = e.kcp.sndQueue := congrArg Sender.queue hsender
  have hsub := (Link.pending_sublist hhears.out hhears.out_sent).length_le
  rw [length_pending hhears.holds.sends, length_pending h.sends, hqueue]
  omega

theorem left_input {c : Connection} (h : c.Invariant) {s : Side} {d : WireDatagram}
    (hd : c.Allowed (.deliver s d)) : ((c s).input .bits32 d.data).left ≤ (c s).left := by
  obtain ⟨e, mark, delivered, hkcp, hholds, hmark, hwrites, -⟩ := h.writes hd
  obtain ⟨e', he', hhears⟩ := hears_input hholds hmark hwrites
  have hle := Hears.left_le hholds hhears
  rw [he', hkcp] at hle
  exact hle

/-! ### Quiet steps -/

/-- What holds from the start on. -/
structure Live (c : Connection) : Prop where
  invariant : c.Invariant
  sndWnd : ∀ s, (c s).kcp.sndWnd ≠ 0

/-- **Quiet steps accept nothing and add nothing.** -/
theorem Follows.keeps {c c' : Connection} (hf : c.Follows c') (h : c.Live) :
    c'.Live ∧ ∀ s, (c' s).accepted = (c s).accepted ∧ (c' s).left ≤ (c s).left := by
  obtain ⟨op, hquiet, hallowed, rfl⟩ := hf
  refine ⟨⟨h.invariant.step hallowed, sndWnd_step h.sndWnd op⟩, fun s => ?_⟩
  have hput {r : Side} {a : KcpEnd} (ha : a.accepted = (c r).accepted ∧ a.left ≤ (c r).left) :
      (Function.update c r a s).accepted = (c s).accepted ∧
        (Function.update c r a s).left ≤ (c s).left := by
    by_cases hs : s = r
    · rw [hs, Function.update_self]
      exact ha
    · rw [Function.update_of_ne hs]
      exact ⟨rfl, Nat.le_refl _⟩
  cases op with
  | recv r len =>
      refine hput ⟨rfl, ?_⟩
      rw [left_eq_sender, left_eq_sender]
      show ((c r).kcp.recv len).1.sender.buf.length + ((c r).kcp.recv len).1.sender.queue.length ≤ _
      rw [sender_recv]
  | update r current => exact hput ⟨rfl, (left_update _ _ _).le⟩
  | deliver r d => exact hput ⟨rfl, left_input h.invariant hallowed⟩
  | send r buffer => exact absurd hquiet id
  | stray r data => exact absurd hquiet id
  | nodelay r nodelay interval resend nc => exact absurd hquiet id
  | setmtu r mtu => exact absurd hquiet id
  | wndsize r sndwnd rcvwnd => exact absurd hquiet id

theorem Leads.keeps {c c' : Connection} (hl : c.Leads c') (h : c.Live) :
    c'.Live ∧ ∀ s, (c' s).accepted = (c s).accepted ∧ (c' s).left ≤ (c s).left := by
  induction hl with
  | refl => exact ⟨h, fun s => ⟨rfl, Nat.le_refl _⟩⟩
  | tail _ hf ih =>
      obtain ⟨hlive, hkept⟩ := hf.keeps ih.1
      refine ⟨hlive, fun s => ⟨(hkept s).1.trans (ih.2 s).1, (hkept s).2.trans (ih.2 s).2⟩⟩

/-! ### Receiving until there is room -/

theorem length_moveAvailable (kcp : IKCPCB) (segs : List IKCPSEG) :
    (kcp.moveAvailable segs).rcvQueue.length + (kcp.moveAvailable segs).rcvBuf.length
      = kcp.rcvQueue.length + segs.length := by
  induction segs generalizing kcp with
  | nil => rfl
  | cons seg segs ih =>
      rw [moveAvailable]
      split
      · rw [ih]
        simp only [List.length_append, List.length_cons, List.length_nil]
        omega
      · rfl

theorem length_merge_lt {segs : List IKCPSEG} (h : segs ≠ []) :
    (merge segs).2.length < segs.length := by
  induction segs with
  | nil => exact absurd rfl h
  | cons seg segs ih =>
      rw [merge]
      split
      · exact Nat.lt_succ_self _
      · rcases segs with - | ⟨seg', segs⟩
        · exact Nat.succ_pos _
        · exact (ih (List.cons_ne_nil _ _)).trans (Nat.lt_succ_self _)

/-- A message handed over leaves fewer segments. -/
theorem length_recv {kcp : IKCPCB} {len : ℕ} {data : List Byte} (h : (kcp.recv len).2 = .ok data) :
    (kcp.recv len).1.rcvQueue.length + (kcp.recv len).1.rcvBuf.length
      < kcp.rcvQueue.length + kcp.rcvBuf.length := by
  rw [IKCPCB.recv] at h ⊢
  split_ifs at h ⊢ with hempty hpeek hbig hlen
  · exact absurd (Int.natCast_nonneg len) (Int.not_le.mpr hlen)
  · have hne : kcp.rcvQueue ≠ [] := fun hnil => hempty (by rw [hnil]; rfl)
    have hmoved := length_moveAvailable kcp.deleteFirst kcp.deleteFirst.rcvBuf
    have hless := length_merge_lt hne
    have hrest : kcp.deleteFirst.rcvQueue = (merge kcp.rcvQueue).2 := rfl
    have hbuf : kcp.deleteFirst.rcvBuf = kcp.rcvBuf := rfl
    rw [hrest, hbuf] at hmoved
    show ((kcp.deleteFirst.moveAvailable kcp.deleteFirst.rcvBuf).rcvQueue).length
      + ((kcp.deleteFirst.moveAvailable kcp.deleteFirst.rcvBuf).rcvBuf).length < _
    rw [hbuf]
    omega

/-- **`rcv_queue` can be emptied so far that there is room**, and nothing that was asked is
forgotten over it. -/
theorem exists_room {c : Connection} (h : c.Live) (s : Side) :
    ∃ c', c.Leads c' ∧ c' s.other = c s.other ∧ (c' s).kcp.rcvQueue.length < 128 ∧
      ∀ ask, (c s).kcp.Asks ask → (c' s).kcp.Asks ask := by
  induction hn : (c s).kcp.rcvQueue.length + (c s).kcp.rcvBuf.length using Nat.strong_induction_on
    generalizing c with
  | h n ih =>
  by_cases hroom : (c s).kcp.rcvQueue.length < 128
  · exact ⟨c, Relation.ReflTransGen.refl, rfl, hroom, fun _ => id⟩
  obtain ⟨conv, links, delivered, mark, hinv⟩ := h.invariant
  have hr := (hinv s).holds.receives
  have hpeer := hinv s.other
  rw [Side.other_other] at hpeer
  -- 128 segments are more than one message
  rcases hqueue : (c s).kcp.rcvQueue with - | ⟨seg, segs⟩
  · rw [hqueue] at hroom
    exact absurd (Nat.succ_pos 127) hroom
  have hstream : delivered s ++ (c s).kcp.rcvQueue.map IKCPSEG.fragment
      = (links s.other).sent.take (links s.other).next := hr.queue
  have hsmall : seg.frg < 128 := by
    have hmem : seg.fragment ∈ (links s.other).sent := by
      refine List.mem_of_mem_take (i := (links s.other).next) ?_
      rw [← hstream, hqueue]
      exact List.mem_append_right _ List.mem_cons_self
    exact (hpeer.small _ (List.mem_append_left _ hmem)).1
  have hfrg : seg.frg < (seg :: segs).length := by
    rw [← hqueue]
    omega
  set len := (merge (c s).kcp.rcvQueue).1.length with hlen
  have hok := recv_whole hr.nque hr.length_lt hqueue hfrg (le_abs_self (len : ℤ))
  have hfollows : c.Follows (c.step .bits32 (.recv s len)) :=
    ⟨.recv s len, Int.natCast_nonneg len, trivial, rfl⟩
  have hless := length_recv hok
  rw [hn] at hless
  have hself : c.step .bits32 (.recv s len) s = (c s).recv len := by
    simp only [Connection.step, Function.update_self]
  have hother : c.step .bits32 (.recv s len) s.other = c s.other :=
    Function.update_of_ne s.other_ne _ _
  have hkcp : (c.step .bits32 (.recv s len) s).kcp = ((c s).kcp.recv len).1 := by
    rw [hself]
    rfl
  obtain ⟨c', hleads, hsame, hroom', hasks⟩ := ih _ (by rw [hkcp]; exact hless) (hfollows.keeps h).1 rfl
  refine ⟨c', Relation.ReflTransGen.head hfollows hleads, hsame.trans hother, hroom', ?_⟩
  intro ask hask
  refine hasks ask ?_
  rw [hkcp]
  exact hask.recv len

/-! ### A flush of one end -/

/-- A step in which `s` flushes; `clocked` is its block when it does. -/
structure Flushed (c : Connection) (s : Side) (clocked : IKCPCB) (c' : Connection) : Prop where
  follows : c.Follows c'
  kcp : (c' s).kcp = (clocked.flush .bits32).1
  other : c' s.other = c s.other
  updated : clocked.updated ≠ 0
  eq : ∃ current updated tsFlush, clocked = { (c s).kcp with current, updated, tsFlush }
  puts : ∀ seg ∈ clocked.puts .bits32, ∃ d group, c'.Carries s.other d group ∧ seg ∈ group ∧
    ∀ g ∈ group, g ∈ clocked.puts .bits32

/-- What is put out fits the wire. -/
theorem Invariant.fits_put {c : Connection} (h : c.Invariant) (s : Side) {clocked : IKCPCB}
    (hwnd : clocked.rcvWnd.toNat < 2 ^ 16) {seg : IKCPSEG}
    (hput : Put clocked (c s).kcp.sender.buf seg) : seg.Fits := by
  have hunused : clocked.wndUnused.toNat < 2 ^ 16 := by
    rw [wndUnused]
    split
    · have hlt := UInt32.lt_iff_toNat_lt.mp ‹clocked.nrcvQue < clocked.rcvWnd›
      rw [UInt32.toNat_sub_of_le _ _ (UInt32.le_iff_toNat_le.mpr hlt.le)]
      omega
    · exact Nat.two_pow_pos 16
  have hcontrol (cmd : ℕ) (hcmd : cmd < 2 ^ 8) (ack : UInt32 × UInt32) :
      (clocked.control cmd ack).Fits := ⟨hcmd, Nat.two_pow_pos 8, hunused, Nat.two_pow_pos 31⟩
  cases hput with
  | ack hack => exact hcontrol _ (by decide) _
  | ask ack => exact hcontrol _ (by decide) _
  | tell ack => exact hcontrol _ (by decide) _
  | @push seg hseg =>
      obtain ⟨conv, links, delivered, mark, hinv⟩ := h
      have hs := (hinv s).holds.sends
      rw [hs.buf] at hseg
      obtain ⟨k, hk, rfl⟩ := List.mem_map.mp hseg
      obtain ⟨hlt, -⟩ := hs.lt_of_mem (hinv s).holds.out hk
      have hget : (links s).sent.getD k ⟨0, []⟩ = (links s).sent[k] := by
        rw [List.getD_eq_getElem?_getD, List.getElem?_eq_getElem hlt, Option.getD_some]
      have hsmall := (hinv s).small _ (List.mem_append_left _ (List.getElem_mem hlt))
      rw [← hget] at hsmall
      refine ⟨?_, hsmall.1.trans (by norm_num), hunused, hsmall.2⟩
      show ikcpCmdPush < 2 ^ 8
      decide

/-- **An end can flush at a time that is not before `t`**, and what it puts out can come. -/
theorem exists_flushed {c : Connection} (h : c.Invariant) (s : Side) (t : UInt32) :
    ∃ clocked c', c.Flushed s clocked c' ∧ itimediff .bits32 clocked.current t ≥ 0 := by
  obtain ⟨current, updated, tsFlush, hupdated, htime, hflush⟩ := exists_flush (c s).kcp t
  set clocked : IKCPCB := { (c s).kcp with current, updated, tsFlush } with hclocked
  set a := (c s).update .bits32 (c s.other).numbered current with ha
  have hself : c.step .bits32 (.update s current) s = a := by
    simp only [Connection.step, Function.update_self, ha]
  have hother : c.step .bits32 (.update s current) s.other = c s.other :=
    Function.update_of_ne s.other_ne _ _
  have hkcp : (c.step .bits32 (.update s current) s).kcp = (clocked.flush .bits32).1 := by
    rw [hself, ← hflush]
    rfl
  have hinv : Invariant (c.step .bits32 (.update s current)) := h.step trivial
  have hwnd : clocked.rcvWnd.toNat < 2 ^ 16 := by
    obtain ⟨conv, links, delivered, mark, hinv⟩ := h
    exact (hinv s).holds.receives.wnd_lt
  refine ⟨clocked, c.step .bits32 (.update s current),
    ⟨⟨.update s current, trivial, trivial, rfl⟩, hkcp, hother, hupdated, ⟨_, _, _, rfl⟩, fun seg hseg => ?_⟩, htime⟩
  obtain ⟨group, hgroup, hmem, hputs⟩ := exists_datagram hupdated hseg
  refine ⟨⟨group.flatMap IKCPSEG.encode, a.numbered, (c s.other).numbered⟩, group,
    ⟨rfl, fun g hg => ?_, ?_, ?_, ?_⟩, hmem, hputs⟩
  · have hput := (put_of_mem_puts hupdated (hputs g hg)).1
    rw [← hkcp] at hput
    exact hinv.fits_put s hwnd hput
  · rw [Side.other_other, hself]
    rw [← hflush] at hgroup
    exact List.mem_append_right _ (List.mem_map.mpr ⟨_, hgroup, rfl⟩)
  · rw [Side.other_other, hself]
    exact Nat.le_add_right _ _
  · rw [hother]
    exact Nat.le_add_right _ _

theorem Flushed.rmtWnd {c c' : Connection} {s : Side} {clocked : IKCPCB}
    (h : c.Flushed s clocked c') : (c' s).kcp.rmtWnd = (c s).kcp.rmtWnd := by
  have hsender := congrArg Sender.rmtWnd (@sender_flush_eq .bits32 _ h.updated)
  obtain ⟨_, _, _, _, _, hmoved⟩ := moved_eq .bits32 clocked
  rw [hmoved] at hsender
  obtain ⟨_, _, _, heq⟩ := h.eq
  rw [h.kcp]
  refine hsender.trans ?_
  rw [heq]
  rfl

/-- A datagram that may come, comes. -/
theorem Carries.follows {c : Connection} {s : Side} {d : WireDatagram} {group : List IKCPSEG}
    (h : c.Carries s d group) :
    ∃ c', c.Follows c' ∧ c' s.other = c s.other ∧
      (c' s).kcp = ((c s).kcp.input .bits32 (group.flatMap IKCPSEG.encode)).1 := by
  refine ⟨c.step .bits32 (.deliver s d), ⟨.deliver s d, trivial, h.allowed, rfl⟩,
    Function.update_of_ne s.other_ne _ _, ?_⟩
  simp only [Connection.step, Function.update_self, KcpEnd.input, h.data]

/-! ### A segment is given up -/

/-- The first segment of `snd_buf` has the first number that the link keeps. -/
theorem pending_of_head {kcp : IKCPCB} {L : Link (Fragment Byte)} (h : Sends kcp.sender L)
    {seg : IKCPSEG} {segs : List IKCPSEG} (hbuf : kcp.sender.buf = seg :: segs) :
    ∃ k ks, L.pending = k :: ks ∧ seg.sn = UInt32.ofNat k ∧ seg.cmd = ikcpCmdPush := by
  have hmap := h.buf
  rw [hbuf] at hmap
  rcases hpending : L.pending with - | ⟨k, ks⟩
  · rw [hpending] at hmap
    cases hmap
  · rw [hpending] at hmap
    have hseg := (List.cons.inj hmap).1
    exact ⟨k, ks, rfl, congrArg IKCPSEG.sn hseg, congrArg IKCPSEG.cmd hseg⟩

theorem length_lt_of_sublist {l l' : List ℕ} (h : l'.Sublist l) {k : ℕ} (hk : k ∈ l)
    (hnot : k ∉ l') : l'.length < l.length := by
  refine Nat.lt_of_le_of_ne h.length_le fun heq => hnot ?_
  rw [h.eq_of_length heq]
  exact hk

/-- **The first segment of `snd_buf` can be given up**: it is sent, acknowledged and the
acknowledgement heard. -/
theorem exists_less {c : Connection} (h : c.Live) (s : Side) (hbuf : (c s).kcp.sndBuf ≠ []) :
    ∃ c', c.Leads c' ∧ (c' s).left < (c s).left := by
  -- the other end makes room
  obtain ⟨c₀, hroom, hsame₀, hqueue, -⟩ := exists_room h s.other
  rw [Side.other_other] at hsame₀
  have hlive₀ := (hroom.keeps h).1
  rw [← hsame₀] at hbuf
  rcases hhead : (c₀ s).kcp.sndBuf with - | ⟨seg, segs⟩
  · exact absurd hhead hbuf
  -- the segment is sent
  obtain ⟨clocked, c₁, hsend, htime⟩ := exists_flushed hlive₀.invariant s seg.resendts
  have hlive₁ := (hsend.follows.keeps hlive₀).1
  have hclocked : clocked.sndBuf = seg :: segs := by
    obtain ⟨_, _, _, heq⟩ := hsend.eq
    rw [heq]
    exact hhead
  obtain ⟨put, hput, hcmd, hsn⟩ := @head_mem_puts .bits32 _ _ _ hclocked htime
  obtain ⟨rest, hbuf₁⟩ : ∃ rest, (c₁ s).kcp.sender.buf = seg.fixed :: rest := by
    have hpart := sndBuf_moved .bits32 clocked
    rw [hclocked] at hpart
    obtain ⟨more, hmore⟩ := hpart
    rw [hsend.kcp, sender_flush_eq hsend.updated]
    show ∃ rest, (moved .bits32 clocked).sndBuf.map SndSeg.fixed = _
    rw [← hmore]
    exact ⟨(segs ++ more).map SndSeg.fixed, rfl⟩
  obtain ⟨d, group, hcarries, hmem, -⟩ := hsend.puts put hput
  -- it comes, and is acknowledged
  obtain ⟨e, mark, delivered, hkcp, hholds, hmark, harrives, hsends⟩ := hcarries.arrives hlive₁.invariant
  rw [Side.other_other] at hsends
  obtain ⟨k, ks, hpending, hk, hpush⟩ := pending_of_head hsends hbuf₁
  have huna : e.inc.una = k := by rw [Link.una, hpending]; rfl
  have hnext : k ≤ e.inc.next := by
    by_contra hlt
    have hhas := hholds.inc.has_of_lt_una (i := e.inc.next) (by rw [huna]; omega)
    have hfull := full_of_has_next hholds.receives hholds.settled hholds.inc hhas
    rw [hkcp, hsend.other] at hfull
    omega
  have hnear : e.inc.sent.length ≤ k + 2 ^ 16 := by
    rw [← huna]
    exact hsends.window
  have hack := acks_input hholds hmark harrives hmem (hcmd.trans hpush) (hsn.trans hk) hnext hnear
  obtain ⟨c₂, hcome, hsame₂, hkcp₂⟩ := hcarries.follows
  rw [Side.other_other] at hsame₂
  have hlive₂ := (hcome.keeps hlive₁).1
  have hleads₂ : c₀.Leads c₂ := (Relation.ReflTransGen.single hsend.follows).tail hcome
  rw [hkcp, ← hkcp₂] at hack
  -- the acknowledgement is sent
  obtain ⟨clocked', c₃, htell, -⟩ := exists_flushed hlive₂.invariant s.other 0
  have hlive₃ := (htell.follows.keeps hlive₂).1
  have hsame₃ : c₃ s = c₁ s := by
    have hother := htell.other
    rw [Side.other_other] at hother
    exact hother.trans hsame₂
  have hack' : (put.sn, put.ts) ∈ clocked'.acklist := by
    obtain ⟨_, _, _, heq⟩ := htell.eq
    rw [heq]
    exact hack
  obtain ⟨d', group', hcarries', hmem', -⟩ := htell.puts _ (ack_mem_puts hack')
  rw [Side.other_other] at hcarries'
  -- it comes, and the segment is given up
  obtain ⟨e', mark', delivered', hkcp', hholds', hmark', harrives', -⟩ :=
    hcarries'.arrives hlive₃.invariant
  obtain ⟨e'', hkcp'', hhears, hgone⟩ := hears_input_ack hholds' hmark' harrives' hmem' rfl
  obtain ⟨c₄, hcome', -, hkcp₄⟩ := hcarries'.follows
  refine ⟨c₄, hroom.trans ((hleads₂.tail htell.follows).tail hcome'), ?_⟩
  have hsends' : Sends e'.kcp.sender e'.out := hholds'.sends
  have hbuf₃ : e'.kcp.sender.buf = seg.fixed :: rest := by
    rw [hkcp', hsame₃]
    exact hbuf₁
  obtain ⟨k', ks', hpending', hk', -⟩ := pending_of_head hsends' hbuf₃
  have hless := length_lt_of_sublist (Link.pending_sublist hhears.out hhears.out_sent)
    (by rw [hpending']; exact List.mem_cons_self) fun hmem => hgone k' hmem (hsn.trans hk')
  have hless' : (c₄ s).left < (c₃ s).left := by
    obtain ⟨_, _, _, _, hsender⟩ := hhears.sender
    have hqueue' : e''.kcp.sndQueue = e'.kcp.sndQueue := congrArg Sender.queue hsender
    rw [← length_pending hhears.holds.sends, ← length_pending hsends'] at hless
    rw [KcpEnd.left, KcpEnd.left, hkcp₄, ← hkcp', ← hkcp'', hqueue']
    omega
  have hleft := ((hleads₂.keeps hlive₀).2 s).2
  have hleft₀ := ((hroom.keeps h).2 s).2
  rw [hsame₃, ← hsame₂] at hless'
  omega

/-! ### The window is opened -/

/-- **A closed window can be asked for.** -/
theorem exists_ask {c : Connection} (h : c.Live) (s : Side) (hrmt : (c s).kcp.rmtWnd = 0) :
    ∃ c' d group, c.Leads c' ∧ c'.Carries s.other d group ∧ ∃ seg ∈ group, seg.cmd = ikcpCmdWask := by
  have hask {c : Connection} (h : c.Live) (hrmt : (c s).kcp.rmtWnd = 0)
      (hwait : (c s).kcp.probeWait ≠ 0) : ∃ c' d group, c.Leads c' ∧ c'.Carries s.other d group ∧
        ∃ seg ∈ group, seg.cmd = ikcpCmdWask := by
    obtain ⟨clocked, c', hflush, htime⟩ := exists_flushed h.invariant s (c s).kcp.tsProbe
    obtain ⟨_, _, _, heq⟩ := hflush.eq
    have hput := @ask_mem_puts .bits32 clocked (by rw [heq]; exact hrmt)
      (by rw [heq]; exact hwait) (by rw [show clocked.tsProbe = (c s).kcp.tsProbe by rw [heq]]; exact htime)
    obtain ⟨seg, hseg, hcmd⟩ := hput
    obtain ⟨d, group, hcarries, hmem, -⟩ := hflush.puts seg hseg
    exact ⟨c', d, group, Relation.ReflTransGen.single hflush.follows, hcarries, seg, hmem, hcmd⟩
  by_cases hwait : (c s).kcp.probeWait = 0
  · -- the first flush only sets the time for the probe
    obtain ⟨clocked, c₁, hflush, -⟩ := exists_flushed h.invariant s 0
    obtain ⟨_, _, _, heq⟩ := hflush.eq
    have hwait₁ : (c₁ s).kcp.probeWait ≠ 0 := by
      rw [hflush.kcp]
      exact probeWait_flush hflush.updated (by rw [heq]; exact hrmt) (by rw [heq]; exact hwait)
    have hrmt₁ : (c₁ s).kcp.rmtWnd = 0 := by
      rw [hflush.rmtWnd]
      exact hrmt
    obtain ⟨c', d, group, hleads, hrest⟩ := hask (hflush.follows.keeps h).1 hrmt₁ hwait₁
    exact ⟨c', d, group, Relation.ReflTransGen.head hflush.follows hleads, hrest⟩
  · exact hask h hrmt hwait

/-- **A closed window can be opened**: the other end makes room and is asked. -/
theorem exists_open {c : Connection} (h : c.Live) (s : Side) :
    ∃ c', c.Leads c' ∧ (c' s).kcp.rmtWnd ≠ 0 := by
  by_cases hrmt : (c s).kcp.rmtWnd = 0
  · obtain ⟨c₁, d, group, hleads₁, hcarries, seg, hseg, hcmd⟩ := exists_ask h s hrmt
    have hlive₁ := (hleads₁.keeps h).1
    obtain ⟨e, mark, delivered, hkcp, -, -, harrives, -⟩ := hcarries.arrives hlive₁.invariant
    obtain ⟨c₂, hcome, -, hkcp₂⟩ := hcarries.follows
    have hasks := @asks_input .bits32 _ _ _ (fun g hg => (harrives g hg).legal) hseg hcmd
    rw [hkcp, ← hkcp₂] at hasks
    obtain ⟨c₃, hroom, -, hqueue, hkept⟩ := exists_room (hcome.keeps hlive₁).1 s.other
    have hlive₃ := (hroom.keeps (hcome.keeps hlive₁).1).1
    -- the answer
    obtain ⟨clocked, c₄, hflush, -⟩ := exists_flushed hlive₃.invariant s.other 0
    have hlive₄ := (hflush.follows.keeps hlive₃).1
    obtain ⟨_, _, _, heq⟩ := hflush.eq
    obtain ⟨put, hput⟩ := @tell_mem_puts .bits32 clocked (by
      rw [heq]
      exact hkept _ hasks)
    obtain ⟨d', group', hcarries', hmem', hputs⟩ := hflush.puts put hput
    rw [Side.other_other] at hcarries'
    obtain ⟨e', mark', delivered', hkcp', -, -, harrives', -⟩ := hcarries'.arrives hlive₄.invariant
    obtain ⟨c₅, hcome', -, hkcp₅⟩ := hcarries'.follows
    have hopen := @rmtWnd_input .bits32 _ _ _ (List.ne_nil_of_mem hmem')
      (fun g hg => (harrives' g hg).legal) fun g hg => (put_of_mem_puts hflush.updated (hputs g hg)).2
    rw [hkcp', ← hkcp₅] at hopen
    refine ⟨c₅, ((hleads₁.tail hcome).trans hroom).tail hflush.follows |>.tail hcome', ?_⟩
    rw [hopen]
    -- there is room
    obtain ⟨conv, links, delivered, mark, hinv⟩ := hlive₃.invariant
    have hr := (hinv s.other).holds.receives
    have hge : 128 ≤ clocked.rcvWnd.toNat := by
      rw [heq]
      exact hr.wnd_ge
    have hlt : clocked.nrcvQue < clocked.rcvWnd := by
      rw [UInt32.lt_iff_toNat_lt]
      have hnque : clocked.nrcvQue = UInt32.ofNat (c₃ s.other).kcp.rcvQueue.length := by
        rw [heq]
        exact hr.nque
      rw [hnque, UInt32.toNat_ofNat']
      omega
    rw [wndUnused, if_pos hlt]
    intro hzero
    rw [UInt32.lt_iff_toNat_lt] at hlt
    have hsub := UInt32.toNat_sub_of_le _ _ (UInt32.le_iff_toNat_le.mpr hlt.le)
    rw [hzero] at hsub
    have hz : (0 : UInt32).toNat = 0 := rfl
    omega
  · exact ⟨c, Relation.ReflTransGen.refl, hrmt⟩

/-- **While something is left, less can be left.** -/
theorem exists_progress {c : Connection} (h : c.Live) (s : Side) (hleft : (c s).left ≠ 0) :
    ∃ c', c.Leads c' ∧ (c' s).left < (c s).left := by
  obtain ⟨c₁, hopen, hrmt₁⟩ := exists_open h s
  have hlive₁ := (hopen.keeps h).1
  have hle₁ := ((hopen.keeps h).2 s).2
  -- a flush opens the congestion window
  obtain ⟨clocked, c₂, hflush, -⟩ := exists_flushed hlive₁.invariant s 0
  have hlive₂ := (hflush.follows.keeps hlive₁).1
  have hle₂ := ((hflush.follows.keeps hlive₁).2 s).2
  have hleads₂ := hopen.tail hflush.follows
  rcases Nat.lt_or_ge (c₂ s).left (c s).left with hlt | hge
  · exact ⟨c₂, hleads₂, hlt⟩
  by_cases hbuf : (c₂ s).kcp.sndBuf = []
  · have hqueue : (c₂ s).kcp.sndQueue ≠ [] := by
      intro hnil
      rw [KcpEnd.left, hbuf, hnil] at hge
      exact hleft (Nat.le_zero.mp hge)
    have hwindow : (c₂ s).kcp.sendWindow ≠ 0 := by
      refine sendWindow_ne_zero (hlive₂.sndWnd s) ?_ ?_
      · rw [hflush.rmtWnd]
        exact hrmt₁
      · rw [hflush.kcp]
        exact cwnd_flush hflush.updated
    -- and the next one lets the next segment through
    obtain ⟨clocked', c₃, hflush', -⟩ := exists_flushed hlive₂.invariant s 0
    have hlive₃ := (hflush'.follows.keeps hlive₂).1
    have hle₃ := ((hflush'.follows.keeps hlive₂).2 s).2
    have hbuf₃ : (c₃ s).kcp.sndBuf ≠ [] := by
      obtain ⟨conv, links, delivered, mark, hinv⟩ := hlive₂.invariant
      have hs := (hinv s).holds.sends
      obtain ⟨_, _, _, heq⟩ := hflush'.eq
      rw [hflush'.kcp]
      refine sndBuf_flush_ne_nil (L := links s) hflush'.updated ?_ ?_ ?_
      · rw [heq]
        exact hs
      · rw [heq]
        exact hqueue
      · rw [heq]
        exact hwindow
    obtain ⟨c₄, hleads, hless⟩ := exists_less hlive₃ s hbuf₃
    refine ⟨c₄, (hleads₂.tail hflush'.follows).trans hleads, ?_⟩
    omega
  · obtain ⟨c₃, hleads, hless⟩ := exists_less hlive₂ s hbuf
    refine ⟨c₃, hleads₂.trans hleads, ?_⟩
    omega

/-- **Nothing need be left.** -/
theorem exists_nothing_left {c : Connection} (h : c.Live) :
    ∃ c', c.Leads c' ∧ ∀ s, (c' s).left = 0 := by
  induction hn : (c .one).left + (c .two).left using Nat.strong_induction_on generalizing c with
  | h n ih =>
  by_cases hdone : ∀ s, (c s).left = 0
  · exact ⟨c, Relation.ReflTransGen.refl, hdone⟩
  obtain ⟨s, hs⟩ := not_forall.mp hdone
  obtain ⟨c₁, hleads, hless⟩ := exists_progress h s hs
  obtain ⟨hlive, hkept⟩ := hleads.keeps h
  have hsum : (c₁ .one).left + (c₁ .two).left < n := by
    have hone := (hkept .one).2
    have htwo := (hkept .two).2
    cases s <;> omega
  obtain ⟨c', hleads', hall⟩ := ih _ hsum hlive rfl
  exact ⟨c', hleads.trans hleads', hall⟩

/-! ### Runs -/

/-- Some quiet steps are a run of them. -/
theorem Leads.exists_ops {c c' : Connection} (h : c.Leads c') :
    ∃ ops : List Op, (∀ op ∈ ops, op.Quiet) ∧ Run.EachStep (Connection.step .bits32) Allowed c ops ∧
      c' = ops.foldl (Connection.step .bits32) c := by
  induction h using Relation.ReflTransGen.head_induction_on with
  | refl => exact ⟨[], fun _ hop => absurd hop List.not_mem_nil, trivial, rfl⟩
  | head hf _ ih =>
      obtain ⟨op, hquiet, hallowed, rfl⟩ := hf
      obtain ⟨ops, hops, heach, heq⟩ := ih
      refine ⟨op :: ops, fun o ho => ?_, ⟨hallowed, heach⟩, heq⟩
      rcases List.mem_cons.mp ho with rfl | ho
      · exact hquiet
      · exact hops o ho

theorem live_start (conv : UInt32) : Live (start conv) where
  invariant := invariant_start conv
  sndWnd := fun _ => by
    show ikcpWndSnd ≠ 0
    decide

theorem Live.run {c : Connection} (h : c.Live) {ops : List Op}
    (hops : Run.EachStep (Connection.step .bits32) Allowed c ops) :
    Live (ops.foldl (Connection.step .bits32) c) := by
  induction ops generalizing c with
  | nil => exact h
  | cons op ops ih => exact ih ⟨h.invariant.step hops.1, sndWnd_step h.sndWnd op⟩ hops.2

theorem leads_replicate (c : Connection) (s : Side) (len n : ℕ) :
    let c' := (List.replicate n (Op.recv s len)).foldl (Connection.step .bits32) c
    c.Leads c' ∧ c' s.other = c s.other ∧ (c' s).left = (c s).left := by
  induction n generalizing c with
  | zero => exact ⟨Relation.ReflTransGen.refl, rfl, rfl⟩
  | succ n ih =>
      have hfollows : c.Follows (c.step .bits32 (.recv s len)) :=
        ⟨.recv s len, Int.natCast_nonneg len, trivial, rfl⟩
      have hleft : (c.step .bits32 (.recv s len) s).left = (c s).left := by
        simp only [Connection.step, Function.update_self, left_eq_sender, KcpEnd.recv, sender_recv]
      obtain ⟨hleads, hother, hrest⟩ := ih (c.step .bits32 (.recv s len))
      refine ⟨Relation.ReflTransGen.head hfollows hleads, hother.trans ?_, hrest.trans hleft⟩
      exact Function.update_of_ne s.other_ne _ _

/-- Where nothing is left at an end, the other end can receive all of it. -/
theorem exists_received {c : Connection} (h : c.Live) (s : Side) (hleft : (c s).left = 0) :
    ∃ c', c.Leads c' ∧ c' s = c s ∧ (c' s.other).received = (c s).accepted ∧
      (c' s.other).left = (c s.other).left := by
  obtain ⟨hbuf, hqueue⟩ := Nat.add_eq_zero_iff.mp hleft
  have hroom : ∀ msg ∈ (c s).accepted,
      (msg.length : ℤ) ≤ (((c s).accepted.map List.length).sum : ℕ) := fun msg hmsg =>
    Int.ofNat_le.mpr (List.le_sum_of_mem (List.mem_map_of_mem hmsg))
  obtain ⟨n, hn⟩ := h.invariant.drain s (List.length_eq_zero_iff.mp hbuf)
    (List.length_eq_zero_iff.mp hqueue) hroom
  obtain ⟨hleads, hsame, hrest⟩ := leads_replicate c s.other
    ((c s).accepted.map List.length).sum n
  rw [Side.other_other] at hsame
  exact ⟨_, hleads, hsame, hn, hrest⟩

/-- **A connection can always finish**: from every state that a run leads to, clocks,
programs that receive and a network that delivers can bring it about that either end has
received all that the other has accepted. -/
theorem can_finish {conv : UInt32} {ops : List Op}
    (hops : Run.EachStep (Connection.step .bits32) Allowed (start conv) ops) :
    let c := ops.foldl (Connection.step .bits32) (start conv)
    ∃ more : List Op, (∀ op ∈ more, op.Quiet) ∧
      Run.EachStep (Connection.step .bits32) Allowed (start conv) (ops ++ more) ∧
      ∀ s, ((ops ++ more).foldl (Connection.step .bits32) (start conv) s.other).received
        = (c s).accepted := by
  intro c
  have hlive : c.Live := (live_start conv).run hops
  obtain ⟨c₁, hleads₁, hnothing⟩ := exists_nothing_left hlive
  obtain ⟨hlive₁, hkept₁⟩ := hleads₁.keeps hlive
  obtain ⟨c₂, hleads₂, hsame₂, hreceived₂, hleft₂⟩ := exists_received hlive₁ .one (hnothing .one)
  obtain ⟨hlive₂, hkept₂⟩ := hleads₂.keeps hlive₁
  obtain ⟨c₃, hleads₃, hsame₃, hreceived₃, -⟩ :=
    exists_received hlive₂ .two (hleft₂.trans (hnothing .two))
  obtain ⟨more, hquiet, heach, hend⟩ := Leads.exists_ops ((hleads₁.trans hleads₂).trans hleads₃)
  refine ⟨more, hquiet, Run.eachStep_append.mpr ⟨hops, heach⟩, fun s => ?_⟩
  rw [List.foldl_append, ← hend]
  cases s with
  | one =>
      show (c₃ .two).received = (c .one).accepted
      rw [hsame₃]
      exact hreceived₂.trans (hkept₁ .one).1
  | two =>
      show (c₃ .one).received = (c .two).accepted
      exact hreceived₃.trans (((hkept₂ .two).1).trans (hkept₁ .two).1)

/-- Both ends have something to send, and what the one has put out is lost. -/
theorem can_finish_lost :
    let ops : List Op :=
      [.nodelay .one 1 5 1 1, .send .one [7], .update .one 0, .send .two [8, 9], .send .two []]
    ∃ more : List Op,
      ((ops ++ more).foldl (Connection.step .bits32) (start 1) .two).received = [[7]] ∧
        ((ops ++ more).foldl (Connection.step .bits32) (start 1) .one).received = [[8, 9], []] := by
  intro ops
  have hops : Run.EachStep (Connection.step .bits32) Allowed (start 1) ops := by
    simp only [ops, Run.eachStep_cons, Run.eachStep_nil]
    decide +kernel
  obtain ⟨more, -, -, hmore⟩ := can_finish hops
  refine ⟨more, (hmore .one).trans ?_, (hmore .two).trans ?_⟩
  · decide +kernel
  · decide +kernel

end Connection

end PCGForUnity
