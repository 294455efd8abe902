/-
PCGForUnity/Network/Kcp/Delivery.lean

What a KCP connection promises, where `long` has 32 bits:

* `received_prefix_accepted`: `ikcp_recv` hands over the messages that `ikcp_send` accepted
  at the other end, in their order, each once and whole;
* `received_all_of_drained`: when an end keeps nothing more to send, calls of `ikcp_recv`
  at the other end hand over all that was accepted.

Design.  The network is any interleaving of the steps of `Connection`: it loses, repeats,
delays and reorders datagrams, and brings strays.  Both results are read off the invariant
of a connection.  A message is accepted as fragments and handed over as a concatenation of
fragments, so the first is about a first part of a list of fragments that ends with a
whole message, and `Fragments` gives the rest.  The second needs no network at all: what
was acknowledged is at the other end, in `rcv_queue` or about to move there.
-/
import PCGForUnity.Network.Kcp.Connection

namespace PCGForUnity

open IKCPCB

namespace Connection

/-- **In order, each once, nothing else**: whatever the network does. -/
theorem Invariant.received_part {c : Connection} (h : c.Invariant) (s : Side) :
    (c s.other).received <+: (c s).accepted := by
  obtain ⟨conv, links, delivered, mark, h⟩ := h
  have hpeer := h s.other
  rw [Side.other_other] at hpeer
  have hqueue : delivered s.other ++ (c s.other).kcp.rcvQueue.map IKCPSEG.fragment
      = (links s).sent.take (links s).next := hpeer.holds.receives.queue
  have hdelivered : delivered s.other <+: (links s).sent ++ (c s).kcp.sndQueue := by
    refine (List.prefix_append _ ((c s.other).kcp.rcvQueue.map IKCPSEG.fragment)).trans ?_
    rw [hqueue]
    exact (List.take_prefix _ _).trans (List.prefix_append _ _)
  rw [← hpeer.received, ← (h s).accepted]
  exact Fragment.whole_prefix hdelivered

end Connection

/-! ### Nothing is lost -/

namespace IKCPCB

variable {kcp : IKCPCB} {L : Link (Fragment Byte)} {delivered : List (Fragment Byte)}

/-- `ikcp_peeksize` of a message that is whole. -/
theorem peeksize_eq (hnque : kcp.nrcvQue = UInt32.ofNat kcp.rcvQueue.length)
    (hlen : kcp.rcvQueue.length < 2 ^ 16) {seg : IKCPSEG} {segs : List IKCPSEG}
    (hqueue : kcp.rcvQueue = seg :: segs) (hfrg : seg.frg < (seg :: segs).length) :
    kcp.peeksize = (merge kcp.rcvQueue).1.length := by
  rw [hqueue] at hnque hlen
  rw [peeksize, hqueue]
  by_cases hzero : seg.frg = 0
  · simp only [if_pos hzero, merge]
  · have hge : ¬ kcp.nrcvQue < UInt32.ofNat (seg.frg + 1) := by
      rw [hnque, UInt32.lt_iff_toNat_lt, UInt32.toNat_ofNat', UInt32.toNat_ofNat']
      omega
    simp only [if_neg hzero, if_neg hge]

/-- What has come in order waits in `rcv_buf` only while `rcv_queue` is full. -/
theorem full_of_has_next (h : Receives kcp.receiver L delivered) (hsettled : Settled kcp.receiver)
    (hL : L.WF) (hhas : L.Has L.next) : 128 ≤ kcp.rcvQueue.length := by
  have hbuf : kcp.rcvBuf.map IKCPSEG.entry = L.early.map (entryOf L.sent) := h.buf
  have hmem : L.next ∈ L.early := hhas.resolve_left (Nat.lt_irrefl _)
  rcases hearly : L.early with - | ⟨k, ks⟩
  · rw [hearly] at hmem
    exact absurd hmem List.not_mem_nil
  have hsorted := hL.early_sorted
  rw [hearly] at hsorted hmem hbuf
  have hk : k = L.next := by
    rcases List.mem_cons.mp hmem with hk | hk
    · exact hk.symm
    · have hlt := (List.pairwise_cons.mp hsorted).1 _ hk
      have hge := (hL.early_mem k (by rw [hearly]; exact List.mem_cons_self)).1
      omega
  rcases hb : kcp.rcvBuf with - | ⟨seg, segs⟩
  · rw [hb] at hbuf
    cases hbuf
  rw [hb] at hbuf
  have hsn : seg.sn = UInt32.ofNat k := congrArg Prod.fst (List.cons.inj hbuf).1
  refine hsettled seg ?_ ?_
  · show seg ∈ kcp.rcvBuf.head?
    rw [hb]
    rfl
  · rw [hsn, hk]
    exact h.nxt.symm

/-- Where everything has come, `ikcp_recv` finds the next message whole. -/
theorem exists_whole (h : Receives kcp.receiver L delivered) (hsettled : Settled kcp.receiver)
    (hL : L.WF) (hnum : Fragment.Numbered L.sent) (hend : Fragment.Complete L.sent)
    (hsmall : ∀ f ∈ L.sent, f.frg < 128) (hall : ∀ i < L.sent.length, L.Has i)
    (hne : delivered ≠ L.sent) :
    ∃ seg segs, kcp.rcvQueue = seg :: segs ∧ seg.frg < (seg :: segs).length := by
  have hqueue : delivered ++ kcp.rcvQueue.map IKCPSEG.fragment = L.sent.take L.next := h.queue
  -- either all of it is in `rcv_queue`, or this is full
  have hfull : L.next = L.sent.length ∨ 128 ≤ kcp.rcvQueue.length := by
    rcases Nat.lt_or_eq_of_le hL.next_le with hlt | heq
    · exact Or.inr (full_of_has_next h hsettled hL (hall _ hlt))
    · exact Or.inl heq
  rcases hq : kcp.rcvQueue with - | ⟨seg, segs⟩
  · rw [hq] at hqueue hfull
    rcases hfull with heq | hge
    · rw [heq, List.take_length, List.map_nil, List.append_nil] at hqueue
      exact absurd hqueue hne
    · exact absurd hge (by simp)
  · refine ⟨seg, segs, rfl, ?_⟩
    rw [hq] at hqueue hfull
    have hmem : seg.fragment ∈ L.sent := by
      refine List.mem_of_mem_take (i := L.next) ?_
      rw [← hqueue]
      exact List.mem_append_right _ List.mem_cons_self
    rcases hfull with heq | hge
    · rw [heq, List.take_length] at hqueue
      have hnum' : Fragment.Numbered ((seg :: segs).map IKCPSEG.fragment) :=
        List.IsChain.right_of_append (by rw [hqueue]; exact hnum)
      have hend' : Fragment.Complete ((seg :: segs).map IKCPSEG.fragment) := by
        intro f hf
        apply hend f
        rw [← hqueue, List.getLast?_append, hf]
        rfl
      have hlt := Fragment.Complete.frg_lt hend' hnum'
      rw [← List.map_cons, List.length_map] at hlt
      exact hlt
    · exact (hsmall _ hmem).trans_le hge

/-- Then `ikcp_recv` with room for it hands it over. -/
theorem recv_whole (hnque : kcp.nrcvQue = UInt32.ofNat kcp.rcvQueue.length)
    (hlen : kcp.rcvQueue.length < 2 ^ 16) {seg : IKCPSEG} {segs : List IKCPSEG}
    (hqueue : kcp.rcvQueue = seg :: segs) (hfrg : seg.frg < (seg :: segs).length) {len : ℤ}
    (hroom : ((merge kcp.rcvQueue).1.length : ℤ) ≤ |len|) :
    (kcp.recv len).2 = .ok (merge kcp.rcvQueue).1 := by
  have hpeek := peeksize_eq hnque hlen hqueue hfrg
  rw [recv, if_neg (by rw [hqueue]; simp), hpeek, if_neg (by omega), if_neg (by omega)]

end IKCPCB

namespace Connection

/-- Where an end keeps nothing, the next call of `ikcp_recv` at the other end hands over
the next message. -/
theorem Invariant.recv_grows {c : Connection} (h : c.Invariant) (s : Side)
    (hbuf : (c s).kcp.sndBuf = []) (hqueue : (c s).kcp.sndQueue = [])
    (hne : (c s.other).received ≠ (c s).accepted) {len : ℤ}
    (hlen : ∀ msg ∈ (c s).accepted, (msg.length : ℤ) ≤ len) :
    ∃ data, ((c s.other).recv len).received = (c s.other).received ++ [data] := by
  obtain ⟨conv, links, delivered, mark, h⟩ := h
  have hend := h s
  have hpeer := h s.other
  rw [Side.other_other] at hpeer
  have hr := hpeer.holds.receives
  have haccepted := hend.accepted
  have hchain := hend.chain
  have hcomplete := hend.complete
  have hsmall := hend.small
  rw [hqueue, List.append_nil] at haccepted hchain hcomplete hsmall
  -- nothing is kept, so everything has come
  have hpending : (links s).pending = [] := by
    have hmap := hend.holds.sends.buf
    rw [show (c s).kcp.sender.buf = [] from congrArg (List.map SndSeg.fixed) hbuf] at hmap
    exact List.map_eq_nil_iff.mp hmap.symm
  have hall : ∀ i < (links s).sent.length, (links s).Has i := fun i hi =>
    hend.holds.out.has_of_pending_nil hpending hi
  have hsent : delivered s.other ≠ (links s).sent := by
    intro heq
    rw [← hpeer.received, ← haccepted, heq] at hne
    exact hne rfl
  obtain ⟨seg, segs, hq, hfrg⟩ := exists_whole hr hpeer.holds.settled hpeer.holds.inc hchain
    hcomplete (fun f hf => (hsmall f hf).1) hall hsent
  -- what is handed over is one of the messages accepted, so it has room
  have hstream : delivered s.other ++ (seg :: segs).map IKCPSEG.fragment
      = (links s).sent.take (links s).next := by
    rw [← hq]
    exact hr.queue
  have hnumbered : Fragment.Numbered ((seg :: segs).map IKCPSEG.fragment) := by
    have hpart : Fragment.Numbered (delivered s.other ++ (seg :: segs).map IKCPSEG.fragment) := by
      rw [hstream]
      exact List.IsChain.take hchain _
    exact List.IsChain.right_of_append hpart
  obtain ⟨msg, hmsg, -, -, hwhole⟩ := Fragment.first_eq hnumbered
    (by rw [← List.map_cons, List.length_map]; exact hfrg)
  obtain ⟨hdata, -, -⟩ := merge_eq_first (seg :: segs)
  have hmem : (merge (c s.other).kcp.rcvQueue).1 ∈ (c s).accepted := by
    rw [← haccepted]
    have hpart : delivered s.other ++ msg <+: (links s).sent := by
      refine List.IsPrefix.trans ?_ (List.take_prefix (links s).next _)
      rw [← hstream, List.map_cons, hmsg, ← List.append_assoc]
      exact List.prefix_append _ _
    refine (Fragment.whole_prefix hpart).subset ?_
    rw [Fragment.whole_append hpeer.taken, hwhole, hq, hdata]
    exact List.mem_append_right _ (List.mem_singleton_self _)
  have hroom := hlen _ hmem
  have hnonneg : 0 ≤ len := by omega
  have hok := recv_whole hr.nque hr.length_lt hq hfrg (hroom.trans (le_abs_self len))
  refine ⟨(merge (c s.other).kcp.rcvQueue).1, ?_⟩
  simp only [KcpEnd.recv, hok, if_neg (Int.not_lt.mpr hnonneg)]

/-- **Nothing is lost**: where an end keeps nothing, what it accepted has been received or is
received by calls of `ikcp_recv`, without the network. -/
theorem Invariant.drain {c : Connection} (h : c.Invariant) (s : Side)
    (hbuf : (c s).kcp.sndBuf = []) (hqueue : (c s).kcp.sndQueue = []) {len : ℤ}
    (hlen : ∀ msg ∈ (c s).accepted, (msg.length : ℤ) ≤ len) :
    ∃ n, ((List.replicate n (Op.recv s.other len)).foldl (Connection.step .bits32) c s.other).received
      = (c s).accepted := by
  obtain ⟨more, hmore⟩ := h.received_part s
  induction more generalizing c with
  | nil => exact ⟨0, by rw [← hmore, List.append_nil]; rfl⟩
  | cons msg more ih =>
      have hne : (c s.other).received ≠ (c s).accepted := by
        rw [← hmore]
        simp
      obtain ⟨data, hdata⟩ := h.recv_grows s hbuf hqueue hne hlen
      have hsame : c.step .bits32 (.recv s.other len) s = c s :=
        Function.update_of_ne s.other_ne.symm _ _
      have hgrown : (c.step .bits32 (.recv s.other len) s.other).received
          = (c s.other).received ++ [data] := by
        rw [← hdata]
        exact congrArg KcpEnd.received (Function.update_self _ _ _)
      have hinv : Invariant (c.step .bits32 (.recv s.other len)) := h.step trivial
      -- it is the next of the messages accepted
      have hnext : (c s.other).received ++ [data] <+: (c s).accepted := by
        have hpart := hinv.received_part s
        rw [hsame, hgrown] at hpart
        exact hpart
      rw [← hmore, List.prefix_append_right_inj] at hnext
      have heq : data = msg := (List.cons_prefix_cons.mp hnext).1
      obtain ⟨n, hn⟩ := ih hinv (by rw [hsame]; exact hbuf) (by rw [hsame]; exact hqueue)
        (by rw [hsame]; exact hlen)
        (by rw [hsame, hgrown, heq, List.append_assoc]; exact hmore)
      rw [hsame] at hn
      exact ⟨n + 1, by rw [List.replicate_succ, List.foldl_cons]; exact hn⟩

/-! ### Runs -/

variable {conv : UInt32} {ops : List Op}

/-- **In order, each once, nothing else**: in every run, what `ikcp_recv` has handed over at an
end is a first part of what `ikcp_send` has accepted at the other. -/
theorem received_prefix_accepted
    (hops : Run.EachStep (Connection.step .bits32) Allowed (start conv) ops) (s : Side) :
    let c := ops.foldl (Connection.step .bits32) (start conv)
    (c s.other).received <+: (c s).accepted :=
  (invariant_run (invariant_start conv) hops).received_part s

/-- A message is sent, and its datagram comes twice. -/
def exchange : List Op :=
  let d : WireDatagram :=
    ⟨[1, 0, 0, 0, 81, 0, 128, 0, 0, 0, 0, 0, 0, 0, 0, 0, 0, 0, 0, 0, 1, 0, 0, 0, 7], 1, 0⟩
  [.nodelay .one 1 5 1 1, .send .one [7], .update .one 0, .deliver .two d, .recv .two 100,
    .deliver .two d, .recv .two 100]

theorem received_prefix_accepted_exchange :
    let c := exchange.foldl (Connection.step .bits32) (start 1)
    (c .two).received = [[7]] ∧ (c .two).received <+: (c .one).accepted := by
  refine ⟨by decide +kernel, received_prefix_accepted ?_ .one⟩
  simp only [exchange, Run.eachStep_cons, Run.eachStep_nil]
  decide +kernel

/-- **Nothing is lost**: in every run, when an end has nothing left in `snd_buf` and
`snd_queue`, calls of `ikcp_recv` at the other end hand over all that was accepted. -/
theorem received_all_of_drained
    (hops : Run.EachStep (Connection.step .bits32) Allowed (start conv) ops) (s : Side) {len : ℤ}
    (hbuf : (ops.foldl (Connection.step .bits32) (start conv) s).kcp.sndBuf = [])
    (hqueue : (ops.foldl (Connection.step .bits32) (start conv) s).kcp.sndQueue = [])
    (hlen : ∀ msg ∈ (ops.foldl (Connection.step .bits32) (start conv) s).accepted,
      (msg.length : ℤ) ≤ len) :
    ∃ n, ((ops ++ List.replicate n (Op.recv s.other len)).foldl (Connection.step .bits32)
      (start conv) s.other).received
        = (ops.foldl (Connection.step .bits32) (start conv) s).accepted := by
  obtain ⟨n, hn⟩ := (invariant_run (invariant_start conv) hops).drain s hbuf hqueue hlen
  refine ⟨n, ?_⟩
  rw [List.foldl_append]
  exact hn

/-- The acknowledgement comes before the message is asked for. -/
def acknowledged : List Op :=
  let d : WireDatagram :=
    ⟨[1, 0, 0, 0, 81, 0, 128, 0, 0, 0, 0, 0, 0, 0, 0, 0, 0, 0, 0, 0, 1, 0, 0, 0, 7], 1, 0⟩
  let ack : WireDatagram :=
    ⟨[1, 0, 0, 0, 82, 0, 127, 0, 0, 0, 0, 0, 0, 0, 0, 0, 1, 0, 0, 0, 0, 0, 0, 0], 0, 1⟩
  [.nodelay .one 1 5 1 1, .send .one [7], .update .one 0, .deliver .two d, .update .two 0,
    .deliver .one ack]

theorem received_all_of_drained_acknowledged :
    ∃ n, ((acknowledged ++ List.replicate n (Op.recv .two 1)).foldl (Connection.step .bits32)
      (start 1) .two).received = [[7]] := by
  have hops : Run.EachStep (Connection.step .bits32) Allowed (start 1) acknowledged := by
    simp only [acknowledged, Run.eachStep_cons, Run.eachStep_nil]
    decide +kernel
  have haccepted : (acknowledged.foldl (Connection.step .bits32) (start 1) .one).accepted = [[7]] := by
    decide +kernel
  obtain ⟨n, hn⟩ := @received_all_of_drained _ _ hops .one 1 (by decide +kernel)
    (by decide +kernel) (by decide +kernel)
  exact ⟨n, hn.trans haccepted⟩

end Connection

end PCGForUnity
