/-
PCGForUnity/Network/Kcp/Ready.lean

The receive side of a control block is a queue of messages.

`ready` are the messages that have come whole and in order.  In every state that a run of a
connection leads to,

    ikcp_peeksize  looks at the first of them
    ikcp_recv      takes the first of them, if there is room for it
    ikcp_input     adds messages behind them, and none for a stray datagram
    ikcp_update    and  ikcp_send  leave them

so that the control block is an `Ikcpcb`, the queue that the sessions are modelled over
(`toIkcpcb_refines`).

Design.  A message may be in `rcv_queue` in part only, and its other fragments may still be
in `rcv_buf` or not have come.  So `ready` is defined on the fragments that have come in
order, by `Fragment.whole`, and `Hands` says of a list of messages that `ikcp_recv` hands
over the first; that this is so rests on the fragments being numbered down to zero.
-/
import PCGForUnity.Network.Ikcp
import PCGForUnity.Network.Kcp.Calls
import PCGForUnity.Network.Kcp.Delivery

namespace PCGForUnity

open IKCPCB

namespace IKCPCB

/-- What is in order at the head of `rcv_buf`. -/
def inOrder (nxt : UInt32) : List IKCPSEG → List IKCPSEG
  | [] => []
  | seg :: segs => if seg.sn = nxt then seg :: inOrder (nxt + 1) segs else []

namespace Receiver

/-- The fragments that have come in order. -/
def arrived (r : Receiver) : List (Fragment Byte) :=
  (r.queue ++ inOrder r.nxt r.buf).map IKCPSEG.fragment

/-- The messages that have come whole. -/
def ready (r : Receiver) : List (List Byte) := Fragment.whole r.arrived

end Receiver

variable {kcp : IKCPCB} {L : Link (Fragment Byte)} {delivered : List (Fragment Byte)}

/-- Moving to `rcv_queue` what is in order does not change what is. -/
theorem arrived_moveAvailable (kcp : IKCPCB) (segs : List IKCPSEG) :
    (kcp.moveAvailable segs).receiver.arrived
      = (kcp.rcvQueue ++ inOrder kcp.rcvNxt segs).map IKCPSEG.fragment := by
  induction segs generalizing kcp with
  | nil => rfl
  | cons seg segs ih =>
      rw [moveAvailable]
      split
      · rename_i hmove
        rw [ih, inOrder, if_pos hmove.1, ← List.append_cons]
      · rfl

theorem map_inOrder {sent : List (Fragment Byte)} {n : ℕ} {ks : List ℕ} {segs : List IKCPSEG}
    (h : segs.map IKCPSEG.entry = ks.map (entryOf sent)) (hsorted : ks.Pairwise (· < ·))
    (hnear : ∀ k ∈ ks, n ≤ k ∧ k < n + 2 ^ 31 ∧ k < sent.length) :
    sent.take n ++ (inOrder (UInt32.ofNat n) segs).map IKCPSEG.fragment
      = sent.take (Link.runFrom n ks) := by
  induction ks generalizing n segs with
  | nil =>
      rw [List.map_nil, List.map_eq_nil_iff] at h
      rw [h, inOrder, Link.runFrom, List.map_nil, List.append_nil]
  | cons k ks ih =>
      rcases segs with - | ⟨seg, segs⟩
      · cases h
      obtain ⟨hseg, hsegs⟩ := List.cons.inj h
      obtain ⟨hle, hlt, hlen⟩ := hnear k List.mem_cons_self
      obtain ⟨hhead, htail⟩ := List.pairwise_cons.mp hsorted
      have hsn : seg.sn = UInt32.ofNat k := congrArg Prod.fst hseg
      have hfragment : seg.fragment = sent.getD k ⟨0, []⟩ := congrArg Prod.snd hseg
      have hiff : seg.sn = UInt32.ofNat n ↔ k = n := by
        rw [hsn]
        exact Serial.ofNat_inj (by omega) (by omega)
      rw [inOrder, Link.runFrom]
      by_cases hk : k = n
      · -- the next one is there, so it is moved
        subst hk
        rw [if_pos (hiff.mpr rfl), if_pos rfl, ← Serial.ofNat_succ, ← ih hsegs htail, List.take_add_one,
          List.getElem?_eq_getElem hlen, List.map_cons, hfragment, List.getD_eq_getElem?_getD,
          List.getElem?_eq_getElem hlen, Option.getD_some, Option.toList_some, List.append_assoc]
        · rfl
        · intro j hj
          have := hhead j hj
          have := hnear j (List.mem_cons_of_mem _ hj)
          omega
      · rw [if_neg (mt hiff.mp hk), if_neg hk, List.map_nil, List.append_nil]

/-- What has been given up and what has come in order are what was sent up to the first that
has not arrived. -/
theorem Receives.stream {r : Receiver} (h : Receives r L delivered) (hL : L.WF) :
    delivered ++ r.arrived = L.sent.take L.front := by
  rw [Receiver.arrived, List.map_append, ← List.append_assoc, h.queue, h.nxt]
  refine map_inOrder h.buf hL.early_sorted fun k hk => ?_
  have := hL.early_mem k hk
  have := h.room k hk
  omega

/-! ### `ikcp_recv` and `ikcp_peeksize` -/

/-- Where `rcv_queue` has room, all that is in order is in it. -/
theorem inOrder_eq_nil (hsettled : Settled kcp.receiver) (hlen : kcp.rcvQueue.length < 128) :
    inOrder kcp.rcvNxt kcp.rcvBuf = [] := by
  rcases hbuf : kcp.rcvBuf with - | ⟨seg, segs⟩
  · rfl
  · rw [inOrder, if_neg]
    intro hsn
    have hmem : seg ∈ kcp.receiver.buf.head? := by
      show seg ∈ kcp.rcvBuf.head?
      rw [hbuf]
      rfl
    exact absurd (hsettled seg hmem hsn) (Nat.not_le.mpr hlen)

/-- What `ikcp_peeksize` and `ikcp_recv` do, as far as the messages tell. -/
inductive Hands (kcp : IKCPCB) : List (List Byte) → Prop
  | none (hpeek : kcp.peeksize = -1) (hrecv : ∀ len, ∃ e, kcp.recv len = (kcp, .error e)) :
      Hands kcp []
  | some (data : List Byte) (rest : List (List Byte)) (hpeek : kcp.peeksize = data.length)
      (hsmall : ∀ len : ℕ, len < data.length → kcp.recv len = (kcp, .error (-3)))
      (hroom : ∀ len : ℕ, data.length ≤ len → (kcp.recv len).2 = .ok data ∧
        (kcp.recv len).1.receiver.ready = rest) : Hands kcp (data :: rest)

section

variable {queue : List (List Byte)} {q : Ikcpcb}

/-- A queue of the same messages tells the same size. -/
theorem Hands.peeksize_eq (h : Hands kcp queue) (hq : q.rcvQueue = queue) :
    kcp.peeksize = q.peeksize := by
  rw [Ikcpcb.peeksize, hq]
  cases h with
  | none hpeek _ => exact hpeek
  | some data rest hpeek _ _ => exact hpeek

/-- It hands over the same message, or none. -/
theorem Hands.recv_eq (h : Hands kcp queue) (hq : q.rcvQueue = queue)
    (hready : kcp.receiver.ready = queue) (len : ℕ) :
    (kcp.recv len).2.toOption = (q.recv len).2.toOption ∧
      (q.recv len).1 = { q with rcvQueue := (kcp.recv len).1.receiver.ready } := by
  rw [Ikcpcb.recv, hq]
  cases h with
  | none hpeek hrecv =>
      obtain ⟨e, he⟩ := hrecv len
      rw [he]
      refine ⟨rfl, ?_⟩
      show q = { q with rcvQueue := kcp.receiver.ready }
      rw [hready, ← hq]
  | some data rest hpeek hsmall hroom =>
      dsimp only
      by_cases hlen : data.length > len
      · rw [hsmall len hlen, if_pos hlen]
        refine ⟨rfl, ?_⟩
        show q = { q with rcvQueue := kcp.receiver.ready }
        rw [hready, ← hq]
      · obtain ⟨hdata, hrest⟩ := hroom len (Nat.not_lt.mp hlen)
        rw [if_neg hlen, hdata, hrest]
        exact ⟨rfl, rfl⟩

end

/-- **`ikcp_recv` hands over the first message that is ready.** -/
theorem hands_ready (h : Receives kcp.receiver L delivered) (hsettled : Settled kcp.receiver)
    (hL : L.WF) (hnum : Fragment.Numbered L.sent) (hfrg : ∀ f ∈ L.sent, f.frg < 128) :
    Hands kcp kcp.receiver.ready := by
  have hstream := h.stream hL
  have hnque : kcp.nrcvQue = UInt32.ofNat kcp.rcvQueue.length := h.nque
  have hlen : kcp.rcvQueue.length < 2 ^ 16 := h.length_lt
  have harrived : kcp.receiver.arrived = kcp.rcvQueue.map IKCPSEG.fragment
      ++ (inOrder kcp.rcvNxt kcp.rcvBuf).map IKCPSEG.fragment := List.map_append
  rcases hqueue : kcp.rcvQueue with - | ⟨seg, segs⟩
  · have hready : kcp.receiver.ready = [] := by
      rw [Receiver.ready, harrived, inOrder_eq_nil hsettled (by rw [hqueue]; simp), hqueue]
      rfl
    rw [hready]
    refine Hands.none ?_ fun len => ⟨-1, ?_⟩
    · rw [peeksize, hqueue]
    · rw [recv, hqueue]
      rfl
  have hmem : seg.fragment ∈ L.sent := by
    refine List.mem_of_mem_take (i := L.front) ?_
    rw [← hstream, harrived, hqueue]
    exact List.mem_append_right _ (List.mem_append_left _ List.mem_cons_self)
  have hnumbered : Fragment.Numbered ((seg :: segs).map IKCPSEG.fragment) := by
    have hall : Fragment.Numbered (delivered ++ kcp.receiver.arrived) := by
      rw [hstream]
      exact List.IsChain.take hnum _
    have hright := List.IsChain.right_of_append hall
    rw [harrived, hqueue] at hright
    exact List.IsChain.left_of_append hright
  by_cases hwhole : seg.frg < (seg :: segs).length
  · -- the first message is in `rcv_queue`
    obtain ⟨hdata, hrest, -⟩ := merge_eq_first (seg :: segs)
    obtain ⟨msg, hmsg, -, hcomplete, hone⟩ := Fragment.first_eq hnumbered
      (by rw [← List.map_cons, List.length_map]; exact hwhole)
    have hpeek := peeksize_eq hnque hlen hqueue hwhole
    have hready : kcp.receiver.ready = (merge (seg :: segs)).1 :: Fragment.whole
        ((merge (seg :: segs)).2.map IKCPSEG.fragment
          ++ (inOrder kcp.rcvNxt kcp.rcvBuf).map IKCPSEG.fragment) := by
      rw [Receiver.ready, harrived, hqueue, List.map_cons, hmsg, List.append_assoc,
        Fragment.whole_append hcomplete, hone, hdata, hrest]
      rfl
    rw [hready]
    rw [hqueue] at hpeek
    have hneg (len : ℕ) : ¬ (len : ℤ) < 0 := Int.not_lt.mpr (Int.natCast_nonneg len)
    refine Hands.some _ _ hpeek (fun len hlt => ?_) fun len hle => ?_
    · rw [recv, if_neg (by rw [hqueue]; simp), hpeek, if_neg (by omega),
        if_pos (by rw [abs_of_nonneg (Int.natCast_nonneg len)]; omega)]
    · have hrecv : kcp.recv len =
          ((kcp.deleteFirst.moveAvailable kcp.deleteFirst.rcvBuf).tellRoom
            (kcp.nrcvQue ≥ kcp.rcvWnd), .ok (merge kcp.rcvQueue).1) := by
        rw [recv, if_neg (by rw [hqueue]; simp), hpeek, if_neg (by omega),
          if_neg (by rw [abs_of_nonneg (Int.natCast_nonneg len)]; omega)]
        simp only [if_neg (hneg len)]
      rw [hrecv, hqueue]
      refine ⟨rfl, ?_⟩
      rw [receiver_tellRoom, Receiver.ready, arrived_moveAvailable, List.map_append]
      show Fragment.whole ((merge kcp.rcvQueue).2.map IKCPSEG.fragment
        ++ (inOrder kcp.rcvNxt kcp.rcvBuf).map IKCPSEG.fragment) = _
      rw [hqueue]
  · -- its message has not come whole
    have hle : (seg :: segs).length ≤ seg.frg := Nat.not_lt.mp hwhole
    have hshort : kcp.rcvQueue.length < 128 := by
      rw [hqueue]
      exact hle.trans_lt (hfrg _ hmem)
    have hready : kcp.receiver.ready = [] := by
      rw [Receiver.ready, harrived, inOrder_eq_nil hsettled hshort, hqueue, List.map_nil,
        List.append_nil]
      refine Fragment.whole_eq_nil hnumbered ?_
      rw [← List.map_cons, List.length_map]
      exact hle
    have hpeek : kcp.peeksize = -1 := by
      rw [hqueue] at hnque hlen
      have hzero : seg.frg ≠ 0 := by
        intro hzero
        rw [hzero] at hle
        exact absurd hle (Nat.not_succ_le_zero _)
      have hlt : kcp.nrcvQue < UInt32.ofNat (seg.frg + 1) := by
        have := hfrg _ hmem
        have hfrag : seg.fragment.frg = seg.frg := rfl
        rw [hnque, UInt32.lt_iff_toNat_lt, UInt32.toNat_ofNat', UInt32.toNat_ofNat']
        omega
      rw [peeksize, hqueue]
      simp only [if_neg hzero, if_pos hlt]
    rw [hready]
    refine Hands.none hpeek fun len => ⟨-2, ?_⟩
    rw [recv, if_neg (by rw [hqueue]; simp), hpeek, if_pos (by omega)]

/-- The control block as the sessions see it; `updates` are the times it was updated with. -/
def toIkcpcb (kcp : IKCPCB) (updates : List ℕ) : Ikcpcb where
  conv := kcp.conv
  current := kcp.current.toNat
  interval := kcp.interval.toNat
  rcvQueue := kcp.receiver.ready
  updates

/-- Blocks that look the same. -/
theorem toIkcpcb_eq {kcp' : IKCPCB} (hconv : kcp'.conv = kcp.conv) (hsettings : kcp'.settings = kcp.settings) (updates : List ℕ) :
    kcp'.toIkcpcb updates = { kcp.toIkcpcb updates with rcvQueue := kcp'.receiver.ready } := by
  have hcurrent : kcp'.current = kcp.current := congrArg Settings.current hsettings
  have hinterval : kcp'.interval = kcp.interval := congrArg Settings.interval hsettings
  rw [toIkcpcb, hconv, hcurrent, hinterval]
  rfl

end IKCPCB

namespace Connection

variable {c : Connection}

theorem Invariant.hands (h : c.Invariant) (s : Side) : Hands (c s).kcp (c s).kcp.receiver.ready := by
  obtain ⟨conv, links, delivered, mark, h⟩ := h
  have hpeer := h s.other
  rw [Side.other_other] at hpeer
  have hold := (h s).holds
  exact hands_ready hold.receives hold.settled hold.inc (List.IsChain.left_of_append hpeer.chain)
    fun f hf => (hpeer.small f (List.mem_append_left _ hf)).1

/-- **A datagram of the other end only adds messages.** -/
theorem Invariant.ready_input (h : c.Invariant) {s : Side} {d : WireDatagram}
    (hd : c.Allowed (.deliver s d)) :
    (c s).kcp.receiver.ready <+: ((c s).kcp.input .bits32 d.data).1.receiver.ready := by
  obtain ⟨conv, links, delivered, mark, h⟩ := h
  obtain ⟨hmem, hmine, hother⟩ := hd
  have hpeer := h s.other
  rw [Side.other_other] at hpeer
  obtain ⟨-, hle, hwrites⟩ := hpeer.wire d hmem
  obtain ⟨out', inc', hinput, hdrives⟩ := (h s).deliver hpeer.kept
    (hwrites.mono fun seg hseg => hseg.arrives (h s) hle hpeer.numbered hmine hother)
  have hstream := (h s).holds.receives.stream (h s).holds.inc
  have hstream' := hinput.holds.receives.stream hinput.holds.inc
  have hfront := Link.WF.front_le hinput.holds.inc ((h s).holds.inc.steps hdrives.inc_steps).2
  have hsent : inc'.sent = (links s.other).sent := hdrives.inc_sent
  refine Fragment.whole_prefix ((List.prefix_append_right_inj (delivered s)).mp ?_)
  show delivered s ++ (c s).kcp.receiver.arrived
    <+: delivered s ++ ((c s).kcp.input .bits32 d.data).1.receiver.arrived
  have htake : (links s.other).sent.take (links s.other).front
      <+: inc'.sent.take inc'.front := by
    rw [hsent]
    exact List.take_prefix_take_left hfront
  exact hstream ▸ hstream' ▸ htake

variable {conv : UInt32} {ops : List Op}

/-- **The control block is the queue of messages that the sessions rely on**, in every state
that a run leads to: each function does to it what the function of the same name does to the
queue.  Only the numbers of errors of `ikcp_recv` are left out. -/
theorem toIkcpcb_refines
    (hops : Run.EachStep (Connection.step .bits32) Allowed (start conv) ops) (s : Side)
    (updates : List ℕ) :
    let c := ops.foldl (Connection.step .bits32) (start conv)
    let kcp := (c s).kcp
    kcp.peeksize = (kcp.toIkcpcb updates).peeksize ∧
      (∀ len : ℕ,
        (kcp.recv len).1.toIkcpcb updates = ((kcp.toIkcpcb updates).recv len).1 ∧
          (kcp.recv len).2.toOption = ((kcp.toIkcpcb updates).recv len).2.toOption) ∧
      (∀ d, c.Allowed (.deliver s d) → ∃ completes,
        (kcp.input .bits32 d.data).1.toIkcpcb updates
          = (kcp.toIkcpcb updates).input ⟨kcp.conv, completes⟩) ∧
      (∀ data, c.Allowed (.stray s data) →
        (kcp.input .bits32 data).1.toIkcpcb updates
          = (kcp.toIkcpcb updates).input ⟨(IKCPSEG.decode data).1.conv, []⟩) ∧
      (∀ current, (kcp.update .bits32 current).1.toIkcpcb (updates ++ [current.toNat])
        = (kcp.toIkcpcb updates).update current.toNat) ∧
      ∀ buffer, (kcp.send buffer).1.toIkcpcb updates = kcp.toIkcpcb updates := by
  intro c kcp
  have h : c.Invariant := invariant_run (invariant_start conv) hops
  have hhands := h.hands s
  refine ⟨?_, fun len => ?_, fun d hd => ?_, fun data hdata => ?_, fun current => ?_,
    fun buffer => ?_⟩
  · -- `ikcp_peeksize`
    exact hhands.peeksize_eq rfl
  · -- `ikcp_recv`
    obtain ⟨hmsg, hqueue⟩ := hhands.recv_eq (q := kcp.toIkcpcb updates) rfl rfl len
    refine ⟨?_, hmsg⟩
    rw [hqueue]
    exact toIkcpcb_eq (@conv_call .bits32 kcp (.recv len)) (settings_recv kcp len) updates
  · -- `ikcp_input`: the messages that the datagram completes
    obtain ⟨completes, hcompletes⟩ := h.ready_input hd
    refine ⟨completes, ?_⟩
    have hinput := Ikcpcb.input_of_conv (kcp.toIkcpcb updates) completes
    refine Eq.trans ?_ hinput.symm
    refine (toIkcpcb_eq (@conv_call .bits32 kcp (.input d.data))
      (settings_input kcp d.data) updates).trans ?_
    show { kcp.toIkcpcb updates with
      rcvQueue := (kcp.input .bits32 d.data).1.receiver.ready } = _
    rw [← hcompletes]
    rfl
  · -- `ikcp_input`, and no message for a datagram of another conversation
    rw [input_of_conv_ne .bits32 kcp hdata, Ikcpcb.input_nil]
  · -- `ikcp_update`
    obtain ⟨updated, hsettings⟩ := settings_update .bits32 kcp current
    have hconv := @conv_call .bits32 kcp (.update current)
    have hready : (kcp.update .bits32 current).1.receiver.ready = kcp.receiver.ready :=
      receiver_update (R := fun r => r.ready = kcp.receiver.ready) (fun _ hr => hr) rfl current
    have hcurrent : (kcp.update .bits32 current).1.current = current :=
      congrArg Settings.current hsettings
    have hinterval : (kcp.update .bits32 current).1.interval = kcp.interval :=
      congrArg Settings.interval hsettings
    rw [toIkcpcb, hready, hcurrent, hinterval]
    exact congrArg (fun conv => (⟨conv, _, _, _, _⟩ : Ikcpcb)) hconv
  · -- `ikcp_send`
    refine (toIkcpcb_eq (@conv_call .bits32 kcp (.send buffer)) (settings_send kcp buffer)
      updates).trans ?_
    show { kcp.toIkcpcb updates with rcvQueue := (kcp.send buffer).1.receiver.ready } = _
    rw [receiver_send]
    rfl

theorem toIkcpcb_refines_acknowledged :
    let kcp := (acknowledged.foldl (Connection.step .bits32) (start 1) .two).kcp
    (kcp.toIkcpcb [0]).rcvQueue = [[7]] ∧ kcp.peeksize = (kcp.toIkcpcb [0]).peeksize := by
  refine ⟨by decide +kernel, (toIkcpcb_refines ?_ .two [0]).1⟩
  simp only [acknowledged, Run.eachStep_cons, Run.eachStep_nil]
  decide +kernel

end Connection

end PCGForUnity
