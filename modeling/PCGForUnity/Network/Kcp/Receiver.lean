/-
PCGForUnity/Network/Kcp/Receiver.lean

The receiving half of a control block follows a link: `rcv_nxt` is the word of its next
number, `rcv_buf` has what has come ahead of that, and the fragments given up by `ikcp_recv`
are with those in `rcv_queue` all that the sender numbered before (`Receives`).

* `receives_parseData`: a segment is taken in at its place, in whatever order it comes,
  unless it is there already;
* `receives_moveAvailable`: what has come in order is moved to `rcv_queue`, as far as that
  has room;
* `receives_recv`: `ikcp_recv` hands over the next message of the sender's stream, or leaves
  everything as it is.

Design.  The half is a `Receiver` (`Parts`), so nothing is said of the members that these
functions do not touch.  What `rcv_buf` holds is given by the numbers of the link that have
come early, in order, and so is what inserting into it must give.
-/
import PCGForUnity.Network.Kcp.Sender

namespace PCGForUnity

/-- A segment's number and fragment. -/
def IKCPSEG.entry (seg : IKCPSEG) : UInt32 × Fragment Byte := (seg.sn, seg.fragment)

namespace IKCPCB

/-- The number `k` with what was sent under it. -/
def entryOf (sent : List (Fragment Byte)) (k : ℕ) : UInt32 × Fragment Byte :=
  (UInt32.ofNat k, sent.getD k ⟨0, []⟩)

/-- The receiver is that of the link, `delivered` having been given up. -/
structure Receives (r : Receiver) (L : Link (Fragment Byte)) (delivered : List (Fragment Byte)) :
    Prop where
  nxt : r.nxt = UInt32.ofNat L.next
  buf : r.buf.map IKCPSEG.entry = L.early.map (entryOf L.sent)
  queue : delivered ++ r.queue.map IKCPSEG.fragment = L.sent.take L.next
  nque : r.nque = UInt32.ofNat r.queue.length
  wnd_ge : 128 ≤ r.wnd.toNat
  wnd_lt : r.wnd.toNat < 2 ^ 16
  length_lt : r.queue.length < 2 ^ 16
  room : ∀ k ∈ L.early, k < L.next + 2 ^ 16

/-- Nothing in `rcv_buf` waits for `rcv_queue` but for room. -/
def Settled (r : Receiver) : Prop :=
  ∀ seg ∈ r.buf.head?, seg.sn = r.nxt → 128 ≤ r.queue.length

variable {kcp : IKCPCB} {L : Link (Fragment Byte)} {delivered : List (Fragment Byte)}

theorem entryOf_eq {sent : List (Fragment Byte)} {k : ℕ} {f : Fragment Byte}
    (h : sent[k]? = some f) : entryOf sent k = (UInt32.ofNat k, f) := by
  rw [entryOf, List.getD_eq_getElem?_getD, h, Option.getD_some]

theorem entryOf_append {sent more : List (Fragment Byte)} {k : ℕ} (hk : k < sent.length) :
    entryOf (sent ++ more) k = entryOf sent k := by
  simp only [entryOf, List.getD_eq_getElem?_getD, List.getElem?_append_left hk]

/-- The receiver does not mind what the sender numbers or gives up. -/
theorem Receives.extend {r : Receiver} {L' : Link (Fragment Byte)} (h : Receives r L delivered)
    (hL : L.WF) (hsent : L.sent <+: L'.sent) (hnext : L'.next = L.next)
    (hearly : L'.early = L.early) : Receives r L' delivered := by
  obtain ⟨more, hmore⟩ := hsent
  refine ⟨?_, ?_, ?_, h.nque, h.wnd_ge, h.wnd_lt, h.length_lt, ?_⟩
  · rw [hnext]
    exact h.nxt
  · rw [hearly, ← hmore, h.buf]
    refine List.map_congr_left fun k hk => ?_
    exact (entryOf_append (hL.early_mem k hk).2).symm
  · rw [hnext, ← hmore, h.queue]
    exact (List.take_append_of_le_length hL.next_le).symm
  · rw [hearly, hnext]
    exact h.room

/-- The first in `rcv_buf` is the next one by its word only if it is by its number. -/
theorem Receives.sn_eq_iff {r : Receiver} (h : Receives r L delivered) (hL : L.WF) {k : ℕ}
    (hk : k ∈ L.early) : UInt32.ofNat k = r.nxt ↔ k = L.next := by
  have hlt := h.room k hk
  have hle := (hL.early_mem k hk).1
  rw [h.nxt]
  exact Serial.ofNat_inj (by omega) (by omega)

/-- **What has come in order is moved to `rcv_queue`**, as far as it has room. -/
theorem receives_moveAvailable (kcp : IKCPCB) (segs : List IKCPSEG)
    (h : Receives { kcp.receiver with buf := segs } L delivered) (hL : L.WF) :
    ∃ L', Relation.ReflTransGen Link.Step L L' ∧ L'.sent = L.sent ∧ L'.pending = L.pending ∧
      Receives (kcp.moveAvailable segs).receiver L' delivered ∧
      Settled (kcp.moveAvailable segs).receiver := by
  induction segs generalizing kcp L with
  | nil =>
      exact ⟨L, Relation.ReflTransGen.refl, rfl, rfl, h, fun seg hseg => by cases hseg⟩
  | cons seg segs ih =>
      have hbuf := h.buf
      rcases hearly : L.early with - | ⟨k, ks⟩
      · rw [hearly] at hbuf
        cases hbuf
      rw [hearly] at hbuf
      obtain ⟨hseg, hsegs⟩ := List.cons.inj hbuf
      have hsn : seg.sn = UInt32.ofNat k := congrArg Prod.fst hseg
      have hfragment : seg.fragment = L.sent.getD k ⟨0, []⟩ := congrArg Prod.snd hseg
      have hmem : k ∈ L.early := by
        rw [hearly]
        exact List.mem_cons_self
      have hiff := h.sn_eq_iff hL hmem
      rw [moveAvailable]
      by_cases hmove : seg.sn = kcp.rcvNxt ∧ kcp.nrcvQue < kcp.rcvWnd
      · rw [if_pos hmove]
        have hk : k = L.next := hiff.mp (hsn.symm.trans hmove.1)
        subst hk
        have hstep := Link.Step.advance L ks hearly
        have hlt := (hL.early_mem _ hmem).2
        have hroom : kcp.rcvQueue.length < kcp.rcvWnd.toNat := by
          have hlen := h.length_lt
          have hnque : kcp.nrcvQue = UInt32.ofNat kcp.rcvQueue.length := h.nque
          have := UInt32.lt_iff_toNat_lt.mp hmove.2
          rw [hnque, UInt32.toNat_ofNat'] at this
          have hlen' : kcp.rcvQueue.length < 2 ^ 16 := hlen
          omega
        have hwnd : kcp.rcvWnd.toNat < 2 ^ 16 := h.wnd_lt
        set moved : IKCPCB := { kcp with
          nrcvBuf := kcp.nrcvBuf - 1
          rcvQueue := kcp.rcvQueue ++ [seg]
          nrcvQue := kcp.nrcvQue + 1
          rcvNxt := kcp.rcvNxt + 1 }
        have hmoved : Receives { moved.receiver with buf := segs }
            { L with next := L.next + 1, early := ks } delivered := by
          refine ⟨?_, hsegs, ?_, ?_, h.wnd_ge, h.wnd_lt, ?_, fun j hj => ?_⟩
          · rw [Serial.ofNat_succ]
            exact congrArg (· + 1) h.nxt
          · show delivered ++ (kcp.rcvQueue ++ [seg]).map IKCPSEG.fragment = _
            have hqueue : delivered ++ kcp.rcvQueue.map IKCPSEG.fragment = L.sent.take L.next :=
              h.queue
            rw [List.map_append, ← List.append_assoc, hqueue, List.take_add_one,
              List.getElem?_eq_getElem hlt]
            refine congrArg (L.sent.take L.next ++ ·) ?_
            rw [List.map_singleton, hfragment, List.getD_eq_getElem?_getD,
              List.getElem?_eq_getElem hlt]
            rfl
          · show kcp.nrcvQue + 1 = UInt32.ofNat (kcp.rcvQueue ++ [seg]).length
            rw [List.length_append, List.length_singleton, Serial.ofNat_succ]
            exact congrArg (· + 1) h.nque
          · show (kcp.rcvQueue ++ [seg]).length < 2 ^ 16
            rw [List.length_append, List.length_singleton]
            omega
          · have := h.room j (by rw [hearly]; exact List.mem_cons_of_mem _ hj)
            show j < L.next + 1 + 2 ^ 16
            omega
        obtain ⟨L', hL', hsent, hpending, hrec, hsettled⟩ := ih moved hmoved (hL.step hstep)
        exact ⟨L', Relation.ReflTransGen.head hstep hL', hsent, hpending, hrec, hsettled⟩
      · rw [if_neg hmove]
        refine ⟨L, Relation.ReflTransGen.refl, rfl, rfl, h, fun s hs hnext => ?_⟩
        -- the next one is there, so `rcv_queue` is full
        have hs' : seg = s := Option.some.inj hs
        have hfull : ¬ kcp.nrcvQue < kcp.rcvWnd := fun hlt => hmove ⟨by rw [hs']; exact hnext, hlt⟩
        have hnque : kcp.nrcvQue = UInt32.ofNat kcp.rcvQueue.length := h.nque
        have hle := Nat.not_lt.mp (mt UInt32.lt_iff_toNat_lt.mpr hfull)
        rw [hnque, UInt32.toNat_ofNat'] at hle
        have hlen : kcp.rcvQueue.length < 2 ^ 16 := h.length_lt
        have hge : 128 ≤ kcp.rcvWnd.toNat := h.wnd_ge
        show 128 ≤ kcp.rcvQueue.length
        omega

/-- The search of `ikcp_parse_data` from the end of `rcv_buf`: the number is there already,
or the segment comes to its place. -/
theorem entry_insertBack {seg : IKCPSEG} {sent : List (Fragment Byte)} {k : ℕ}
    (hseg : seg.entry = entryOf sent k) {prev : List IKCPSEG} {ds : List ℕ}
    (hprev : prev.map IKCPSEG.entry = ds.map (entryOf sent)) (hsorted : ds.Pairwise (· > ·))
    (hnear : ∀ d ∈ ds, d < k + 2 ^ 31 ∧ k < d + 2 ^ 31) :
    (insertBack .bits32 seg prev = none ∧ k ∈ ds) ∨
      ∃ result above below, insertBack .bits32 seg prev = some result ∧ ds = above ++ below ∧
        (∀ d ∈ above, k < d) ∧ (∀ d ∈ below, d < k) ∧
        result.map IKCPSEG.entry = (above ++ k :: below).map (entryOf sent) := by
  induction ds generalizing prev with
  | nil =>
      rw [List.map_nil, List.map_eq_nil_iff] at hprev
      subst hprev
      refine Or.inr ⟨[seg], [], [], rfl, rfl, fun _ h => ?_, fun _ h => ?_, ?_⟩
      · cases h
      · cases h
      · exact congrArg (fun e => [e]) hseg
  | cons d ds ih =>
      rcases prev with - | ⟨last, prev⟩
      · cases hprev
      obtain ⟨hlast, hprev'⟩ := List.cons.inj hprev
      have hlastsn : last.sn = UInt32.ofNat d := congrArg Prod.fst hlast
      have hsn : seg.sn = UInt32.ofNat k := congrArg Prod.fst hseg
      obtain ⟨hdk, hkd⟩ := hnear d List.mem_cons_self
      obtain ⟨hhead, htail⟩ := List.pairwise_cons.mp hsorted
      rw [insertBack, hlastsn, hsn]
      by_cases heq : d = k
      · subst heq
        -- it has come before
        exact Or.inl ⟨if_pos rfl, List.mem_cons_self⟩
      have hne : UInt32.ofNat d ≠ UInt32.ofNat k := fun h =>
        heq ((Serial.ofNat_inj (by omega) (by omega)).mp h)
      rw [if_neg hne, itimediff_ofNat hkd (by omega)]
      by_cases hlt : d < k
      · -- behind the first smaller one
        rw [if_pos (by omega)]
        refine Or.inr ⟨_, [], d :: ds, rfl, rfl, fun _ h => ?_, fun e he => ?_, ?_⟩
        · cases h
        · rcases List.mem_cons.mp he with rfl | he
          · exact hlt
          · exact (hhead e he).trans hlt
        · exact congrArg₂ List.cons hseg hprev
      · -- the search goes on
        rw [if_neg (by omega)]
        rcases ih hprev' htail fun e he => hnear e (List.mem_cons_of_mem _ he) with
          ⟨hnone, hmem⟩ | ⟨result, above, below, hsome, hds, habove, hbelow, hresult⟩
        · rw [hnone]
          exact Or.inl ⟨rfl, List.mem_cons_of_mem _ hmem⟩
        · rw [hsome]
          refine Or.inr ⟨_, d :: above, below, rfl, ?_, fun e he => ?_, hbelow, ?_⟩
          · rw [hds]
            rfl
          · rcases List.mem_cons.mp he with rfl | he
            · omega
            · exact habove e he
          · exact congrArg₂ List.cons hlast hresult

/-- **A segment is taken in at its place**, unless it is there already. -/
theorem receives_parseData (h : Receives kcp.receiver L delivered) (hL : L.WF) {seg : IKCPSEG}
    {k : ℕ} (hsn : seg.sn = UInt32.ofNat k) (hseg : L.sent[k]? = some seg.fragment)
    (hle : L.next ≤ k) (hlt : k < L.next + kcp.rcvWnd.toNat) :
    ∃ L', Relation.ReflTransGen Link.Step L L' ∧ L'.sent = L.sent ∧ L'.pending = L.pending ∧
      Receives (kcp.parseData .bits32 seg).receiver L' delivered ∧
      Settled (kcp.parseData .bits32 seg).receiver ∧ L'.Has k := by
  have hwnd : kcp.rcvWnd.toNat < 2 ^ 16 := h.wnd_lt
  have hnxt : kcp.rcvNxt = UInt32.ofNat L.next := h.nxt
  have hk : k < L.sent.length := (List.getElem?_eq_some_iff.mp hseg).1
  have hentry : seg.entry = entryOf L.sent k := by
    rw [entryOf_eq hseg, ← hsn]
    rfl
  -- in the window, so it is not dropped
  have hwindow : ¬ (itimediff .bits32 seg.sn (kcp.rcvNxt + kcp.rcvWnd) ≥ 0 ∨
      itimediff .bits32 seg.sn kcp.rcvNxt < 0) := by
    rw [hsn, hnxt, Serial.ofNat_add_word, itimediff_ofNat (by omega) (by omega),
      itimediff_ofNat (by omega) (by omega)]
    omega
  have hback : kcp.rcvBuf.reverse.map IKCPSEG.entry = L.early.reverse.map (entryOf L.sent) := by
    rw [List.map_reverse, List.map_reverse]
    exact congrArg List.reverse h.buf
  -- near enough for the numbers to be compared
  have hnear : ∀ d ∈ L.early.reverse, d < k + 2 ^ 31 ∧ k < d + 2 ^ 31 := by
    intro d hd
    have hd' := List.mem_reverse.mp hd
    have hroom := h.room d hd'
    have hmem := (hL.early_mem d hd').1
    omega
  rw [parseData, if_neg hwindow]
  rcases entry_insertBack hentry hback (List.pairwise_reverse.mpr hL.early_sorted) hnear with
    ⟨hnone, hmem⟩ | ⟨result, above, below, hsome, hearly, habove, hbelow, hresult⟩
  · -- it has come before
    rw [hnone]
    obtain ⟨L', hsteps, hsent, hpending, hrec, hsettled⟩ := receives_moveAvailable kcp kcp.rcvBuf h hL
    refine ⟨L', hsteps, hsent, hpending, hrec, hsettled, ?_⟩
    exact (hL.steps hsteps).2.has k (Or.inr (List.mem_reverse.mp hmem))
  · rw [hsome]
    have hearly' : L.early = below.reverse ++ above.reverse := by
      rw [← List.reverse_append, ← hearly, List.reverse_reverse]
    have hstep := Link.Step.arrive L k below.reverse above.reverse hearly'
      (fun d hd => hbelow d (List.mem_reverse.mp hd)) (fun d hd => habove d (List.mem_reverse.mp hd))
      hle hk
    set inserted : IKCPCB := { kcp with rcvBuf := result.reverse, nrcvBuf := kcp.nrcvBuf + 1 }
    have hinserted : Receives { inserted.receiver with buf := result.reverse }
        { L with early := below.reverse ++ k :: above.reverse } delivered := by
      refine ⟨h.nxt, ?_, h.queue, h.nque, h.wnd_ge, h.wnd_lt, h.length_lt, fun d hd => ?_⟩
      · show result.reverse.map IKCPSEG.entry = _
        rw [List.map_reverse, hresult, ← List.map_reverse]
        simp
      · rcases List.mem_append.mp hd with hd | hd
        · exact h.room d (by rw [hearly']; exact List.mem_append_left _ hd)
        · rcases List.mem_cons.mp hd with rfl | hd
          · show d < L.next + 2 ^ 16
            omega
          · exact h.room d (by rw [hearly']; exact List.mem_append_right _ hd)
    obtain ⟨L', hsteps, hsent, hpending, hrec, hsettled⟩ :=
      receives_moveAvailable inserted _ hinserted (hL.step hstep)
    refine ⟨L', Relation.ReflTransGen.head hstep hsteps, hsent, hpending, hrec, hsettled, ?_⟩
    refine ((hL.step hstep).steps hsteps).2.has k (Or.inr ?_)
    exact List.mem_append_right _ List.mem_cons_self

/-- **A segment of `IKCP_CMD_PUSH`**: it is acknowledged only if it has come. -/
theorem receives_pushed (h : Receives kcp.receiver L delivered) (hsettled : Settled kcp.receiver)
    (hL : L.WF) {seg : IKCPSEG} {k : ℕ} (hsn : seg.sn = UInt32.ofNat k)
    (hseg : L.sent[k]? = some seg.fragment) (hnear : k < L.next + 2 ^ 30 ∧ L.next < k + 2 ^ 30) :
    ∃ L', Relation.ReflTransGen Link.Step L L' ∧ L'.sent = L.sent ∧ L'.pending = L.pending ∧
      Receives (kcp.pushed .bits32 seg).receiver L' delivered ∧
      Settled (kcp.pushed .bits32 seg).receiver ∧
      ((kcp.pushed .bits32 seg).acklist = kcp.acklist ∨
        (kcp.pushed .bits32 seg).acklist = kcp.acklist ++ [(seg.sn, seg.ts)] ∧ L'.Has k) := by
  have hwnd : kcp.rcvWnd.toNat < 2 ^ 16 := h.wnd_lt
  have hnxt : kcp.rcvNxt = UInt32.ofNat L.next := h.nxt
  have hahead : itimediff .bits32 seg.sn (kcp.rcvNxt + kcp.rcvWnd)
      = (k : ℤ) - (L.next + kcp.rcvWnd.toNat : ℕ) := by
    rw [hsn, hnxt, Serial.ofNat_add_word]
    exact itimediff_ofNat (by omega) (by omega)
  have hbehind : itimediff .bits32 seg.sn kcp.rcvNxt = (k : ℤ) - L.next := by
    rw [hsn, hnxt]
    exact itimediff_ofNat (by omega) (by omega)
  rw [pushed, hahead, hbehind]
  by_cases hroom : k < L.next + kcp.rcvWnd.toNat
  · rw [if_pos (by omega)]
    have hpush : Receives (kcp.ackPush seg.sn seg.ts).receiver L delivered :=
      ⟨h.nxt, h.buf, h.queue, h.nque, h.wnd_ge, h.wnd_lt, h.length_lt, h.room⟩
    by_cases hle : L.next ≤ k
    · rw [if_pos (by omega)]
      obtain ⟨L', hsteps, hsent, hpending, hrec, hset, hhas⟩ :=
        receives_parseData hpush hL hsn hseg hle hroom
      refine ⟨L', hsteps, hsent, hpending, hrec, hset, Or.inr ⟨?_, hhas⟩⟩
      exact acklist_parseData _ _ _
    · rw [if_neg (by omega)]
      exact ⟨L, Relation.ReflTransGen.refl, rfl, rfl, hpush, hsettled,
        Or.inr ⟨rfl, Or.inl (Nat.not_le.mp hle)⟩⟩
  · rw [if_neg (by omega)]
    exact ⟨L, Relation.ReflTransGen.refl, rfl, rfl, h, hsettled, Or.inl rfl⟩

/-! ### Handing over -/

/-- The loop of `ikcp_recv` takes the first message of the stream. -/
theorem merge_eq_first (segs : List IKCPSEG) :
    (merge segs).1 = (Fragment.first (segs.map IKCPSEG.fragment)).1 ∧
      (merge segs).2.map IKCPSEG.fragment = (Fragment.first (segs.map IKCPSEG.fragment)).2 ∧
      (merge segs).2 <:+ segs := by
  induction segs with
  | nil => exact ⟨rfl, rfl, List.suffix_rfl⟩
  | cons seg segs ih =>
      obtain ⟨hdata, hrest, hsuffix⟩ := ih
      rw [List.map_cons, merge, Fragment.first]
      by_cases hfrg : seg.frg = 0
      · rw [if_pos hfrg, if_pos (show seg.fragment.frg = 0 from hfrg)]
        exact ⟨rfl, rfl, List.suffix_cons _ _⟩
      · rw [if_neg hfrg, if_neg (show seg.fragment.frg ≠ 0 from hfrg)]
        exact ⟨congrArg (seg.data ++ ·) hdata, hrest, hsuffix.trans (List.suffix_cons _ _)⟩

/-- `ikcp_peeksize` finds a message only if all of it is in `rcv_queue`. -/
theorem frg_lt_of_peeksize (h : Receives kcp.receiver L delivered) {seg : IKCPSEG}
    {segs : List IKCPSEG} (hqueue : kcp.rcvQueue = seg :: segs) (hfrg : seg.frg < 2 ^ 8)
    (hpeek : 0 ≤ kcp.peeksize) : seg.frg < (seg :: segs).length := by
  have hnque : kcp.nrcvQue = UInt32.ofNat kcp.rcvQueue.length := h.nque
  have hlen : kcp.rcvQueue.length < 2 ^ 16 := h.length_lt
  rw [peeksize, hqueue] at hpeek
  rw [hqueue] at hnque hlen
  by_cases hzero : seg.frg = 0
  · rw [hzero]
    exact Nat.succ_pos _
  · by_contra hge
    have hlt : kcp.nrcvQue < UInt32.ofNat (seg.frg + 1) := by
      rw [hnque, UInt32.lt_iff_toNat_lt, UInt32.toNat_ofNat', UInt32.toNat_ofNat']
      omega
    simp only [if_neg hzero, if_pos hlt] at hpeek
    omega

/-- **`ikcp_recv` hands over the next message of the sender's stream**, or looks at it, or
leaves everything as it is. -/
theorem receives_recv (h : Receives kcp.receiver L delivered) (hL : L.WF)
    (hnum : Fragment.Numbered L.sent) (hfrg : ∀ f ∈ L.sent, f.frg < 2 ^ 8) (len : ℤ) :
    (∃ e, kcp.recv len = (kcp, .error e)) ∨
      ∃ data L' msg, (kcp.recv len).2 = .ok data ∧
        Relation.ReflTransGen Link.Step L L' ∧ L'.sent = L.sent ∧ L'.pending = L.pending ∧
        Receives (kcp.recv len).1.receiver L' (delivered ++ msg) ∧
        Settled (kcp.recv len).1.receiver ∧
        (len < 0 ∧ msg = [] ∨ 0 ≤ len ∧ Fragment.Complete msg ∧ Fragment.whole msg = [data]) := by
  rcases hqueue : kcp.rcvQueue with - | ⟨seg, segs⟩
  · refine Or.inl ⟨-1, ?_⟩
    rw [recv, hqueue]
    rfl
  by_cases hpeek : kcp.peeksize < 0
  · refine Or.inl ⟨-2, ?_⟩
    rw [recv, hqueue, if_neg (by simp), if_pos hpeek]
  by_cases hbig : kcp.peeksize > |len|
  · refine Or.inl ⟨-3, ?_⟩
    rw [recv, hqueue, if_neg (by simp), if_neg hpeek, if_pos hbig]
  have hstream : delivered ++ (seg :: segs).map IKCPSEG.fragment = L.sent.take L.next := by
    rw [← hqueue]
    exact h.queue
  have hrecv : kcp.recv len =
      (let left := if len < 0 then kcp else kcp.deleteFirst
       ((left.moveAvailable left.rcvBuf).tellRoom (kcp.nrcvQue ≥ kcp.rcvWnd),
        .ok (merge kcp.rcvQueue).1)) := by
    rw [recv, if_neg (by rw [hqueue]; simp), if_neg hpeek, if_neg hbig]
  right
  by_cases hlen : len < 0
  · -- it only looks
    simp only [if_pos hlen] at hrecv
    obtain ⟨L', hsteps, hsent, hpending, hrec, hset⟩ := receives_moveAvailable kcp kcp.rcvBuf h hL
    refine ⟨(merge kcp.rcvQueue).1, L', [], ?_, hsteps, hsent, hpending, ?_, ?_,
      Or.inl ⟨hlen, rfl⟩⟩
    · rw [hrecv]
    · rw [hrecv, List.append_nil]
      exact hrec
    · rw [hrecv]
      exact hset
  · simp only [if_neg hlen] at hrecv
    -- the stream so far is part of what was sent, so it tells where the message ends
    have hnumbered : Fragment.Numbered ((seg :: segs).map IKCPSEG.fragment) := by
      have hpart : Fragment.Numbered (delivered ++ (seg :: segs).map IKCPSEG.fragment) := by
        rw [hstream]
        exact List.IsChain.take hnum _
      exact List.IsChain.right_of_append hpart
    have hmem : seg.fragment ∈ L.sent := by
      refine List.mem_of_mem_take (i := L.next) ?_
      rw [← hstream]
      exact List.mem_append_right _ List.mem_cons_self
    have hshort : seg.fragment.frg < ((seg :: segs).map IKCPSEG.fragment).length := by
      rw [List.length_map]
      exact frg_lt_of_peeksize h hqueue (hfrg _ hmem) (Int.not_lt.mp hpeek)
    obtain ⟨hdata, hrest, hsuffix⟩ := merge_eq_first (seg :: segs)
    obtain ⟨msg, hmsg, -, hcomplete, hwhole⟩ := Fragment.first_eq hnumbered hshort
    have hdeleted : Receives kcp.deleteFirst.receiver L (delivered ++ msg) := by
      refine ⟨h.nxt, h.buf, ?_, ?_, h.wnd_ge, h.wnd_lt, ?_, h.room⟩
      · show delivered ++ msg ++ (merge kcp.rcvQueue).2.map IKCPSEG.fragment = _
        rw [hqueue, hrest, List.append_assoc]
        exact (congrArg (delivered ++ ·) hmsg).symm.trans hstream
      · have hnque : kcp.nrcvQue = UInt32.ofNat kcp.rcvQueue.length := h.nque
        show kcp.nrcvQue - UInt32.ofNat (kcp.rcvQueue.length - (merge kcp.rcvQueue).2.length)
          = UInt32.ofNat (merge kcp.rcvQueue).2.length
        rw [hnque, hqueue, Serial.ofNat_sub_ofNat hsuffix.length_le]
      · have hlen : kcp.rcvQueue.length < 2 ^ 16 := h.length_lt
        show (merge kcp.rcvQueue).2.length < 2 ^ 16
        rw [hqueue] at hlen ⊢
        exact hsuffix.length_le.trans_lt hlen
    obtain ⟨L', hsteps, hsent, hpending, hrec, hset⟩ := receives_moveAvailable kcp.deleteFirst _ hdeleted hL
    refine ⟨(merge kcp.rcvQueue).1, L', msg, ?_, hsteps, hsent, hpending, ?_, ?_,
      Or.inr ⟨Int.not_lt.mp hlen, hcomplete, ?_⟩⟩
    · rw [hrecv]
    · rw [hrecv]
      exact hrec
    · rw [hrecv]
      exact hset
    · rw [hqueue, hwhole, hdata]
      rfl

end IKCPCB

end PCGForUnity
