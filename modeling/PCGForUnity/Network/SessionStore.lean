/-
PCGForUnity/Network/SessionStore.lean

The store of sessions of the server, over any run of datagrams, closes and updates
(`store_holds`):

* a session in `m_mSessions` is under its own conversation, and no two of them have the
  same remote;
* a session in `m_mSleepSessions` is not alive and is disconnected;
* one that moves there stays until the updates since add up to the keep-alive time, and is
  gone with the first update that reaches it.

Design.  Keys and remotes are unique for different reasons.  Keys are, because the numbers
that conversations are made of are never given twice (`Made`); remotes are, because a
session is sought by its remote before one is accepted.  `Store` is the invariant of all
operations.  How long a session sleeps is a statement about the rest of a run: `SleptFor`
follows one session, told by the number under which it was accepted, and counts the time.

The code dereferences what the maps hold, so each part of `Store` also says why a step has
a result (`Store.isSome_step`).
-/
import PCGForUnity.Network.ServerFraming
import PCGForUnity.Network.SocketServer

namespace PCGForUnity

namespace KcpSession

/-! ### Sessions between two operations of the server -/

/-- At rest, nothing is left in the read buffer. -/
def Rested (s : KcpSession) : Prop := ∃ r, s.buffers.Holds r ∧ r.unread = []

/-- A session as it is kept in `m_mSessions`. -/
structure Awake (s : KcpSession) : Prop where
  place : s.members.place = .sessions
  alive : s.members.alive = true
  rested : s.Rested

/-- A session as it is kept in `m_mSleepSessions`. -/
structure Asleep (s : KcpSession) : Prop where
  place : s.members.place = .sleepSessions
  alive : s.members.alive = false
  status : s.members.status = .disconnected
  rested : s.Rested

/-- The members of a session that was kept or was put to sleep just now. -/
def KeptOrPutToSleep (sessionId : SocketSessionId) (m : SessionMembers) : Prop :=
  m.sessionId = sessionId ∧
    (m.place = .sessions ∧ m.alive = true ∨
      m.place = .sleepSessions ∧ m.alive = false ∧ m.status = .disconnected ∧ m.tick = 0)

variable {dataHandler : Option DataHandler} {s s' : KcpSession} {serverId : UInt16}

theorem closed_putToSleep {m : SessionMembers} (h : m.place = .sessions) :
    (closed m).sessionId = m.sessionId ∧ (closed m).place = .sleepSessions ∧
      (closed m).alive = false ∧ (closed m).status = .disconnected ∧ (closed m).tick = 0 := by
  rcases m with ⟨_, _, status, _, _, place, _, _⟩
  obtain rfl : place = .sessions := h
  cases status <;> exact ⟨rfl, rfl, rfl, rfl, rfl⟩

theorem keptOrPutToSleep_closed {m : SessionMembers} {sessionId : SocketSessionId}
    (hid : m.sessionId = sessionId) (h : m.place = .sessions) :
    KeptOrPutToSleep sessionId (closed m) := by
  obtain ⟨hid', h⟩ := closed_putToSleep h
  exact ⟨hid'.trans hid, Or.inr h⟩

/-- A packet keeps the session or puts it to sleep. -/
theorem KeptOrPutToSleep.act {m : SessionMembers} {sessionId : SocketSessionId}
    (h : KeptOrPutToSleep sessionId m) (d : Dispatch Byte) :
    KeptOrPutToSleep sessionId (act dataHandler m d).1 := by
  have hlogged : KeptOrPutToSleep sessionId (logged m d) := h
  have hclose (hplace : m.place = .sessions) : KeptOrPutToSleep sessionId (closed (logged m d)) :=
    keptOrPutToSleep_closed h.1 hplace
  cases dataHandler with
  | none =>
      rw [KcpSession.act]
      split
      · exact hclose ‹_›
      · exact hlogged
  | some f =>
      rw [KcpSession.act]
      split
      · exact hlogged
      · split
        · exact hclose ‹_›
        · exact hlogged

theorem Awake.closeSession (h : s.Awake) :
    KeptOrPutToSleep s.members.sessionId (s.closeSession false).members ∧
      (s.closeSession false).Rested := by
  obtain ⟨r, hr, -⟩ := h.rested
  rw [closeSession_of_sessions h.place]
  exact ⟨keptOrPutToSleep_closed rfl h.place, r.reset, hr.reset, rfl⟩

/-- Taking a datagram in changes nothing but the queue of KCP and the read buffer. -/
theorem Awake.receive (h : s.Awake) {buff : KcpDatagram} {got : Bool}
    (e : s.receive buff = some (s', got)) :
    KeptOrPutToSleep s.members.sessionId s'.members ∧ (∃ r, s'.buffers.Holds r) ∧
      (got = false → s'.Rested) := by
  obtain ⟨r, hr, hnil⟩ := h.rested
  have hmembers : s'.members.sessionId = s.members.sessionId ∧
      s'.members.place = s.members.place ∧ s'.members.alive = s.members.alive := by
    rw [KcpSession.receive] at e
    generalize (s.members.kcp.input buff).recv s.buffers.readBuffer.getRemainingSpace = recv at e
    rcases recv with ⟨kcp, err | msg⟩
    · obtain ⟨rfl, -⟩ := Prod.mk.inj (Option.some.inj e)
      exact ⟨rfl, rfl, rfl⟩
    · simp only at e
      split at e
      · obtain ⟨rb, -, e⟩ := Option.bind_eq_some_iff.mp e
        split at e
        all_goals
          obtain ⟨rfl, -⟩ := Prod.mk.inj (Option.some.inj e)
          exact ⟨rfl, rfl, rfl⟩
      · obtain ⟨rfl, -⟩ := Prod.mk.inj (Option.some.inj e)
        exact ⟨rfl, rfl, rfl⟩
  obtain ⟨hid, hplace, halive⟩ := hmembers
  refine ⟨⟨hid, Or.inl ⟨hplace.trans h.place, halive.trans h.alive⟩⟩, ?_⟩
  rcases receive_holds hr e with ⟨rfl, hb⟩ | ⟨rfl, hr'⟩
  · exact ⟨⟨r, by rwa [hb]⟩, fun _ => ⟨r, by rwa [hb], hnil⟩⟩
  · exact ⟨hr', by rintro ⟨⟩⟩

/-- **A datagram keeps the session or puts it to sleep.** -/
theorem Awake.onReceive (h : s.Awake) {buff : KcpDatagram}
    (e : s.onReceive serverId dataHandler buff = some s') :
    KeptOrPutToSleep s.members.sessionId s'.members ∧ s'.Rested := by
  rw [KcpSession.onReceive] at e
  split at e
  · obtain rfl := Option.some.inj e
    have hsend : (s.send ({ size := 0, command := s2cCriticalError } : PacketHeader).toBytes
        true).Awake := ⟨h.place, h.alive, h.rested⟩
    exact hsend.closeSession
  · split at e
    · obtain rfl := Option.some.inj e
      exact h.closeSession
    · obtain ⟨⟨s₁, got⟩, hrecv, e⟩ := Option.bind_eq_some_iff.mp e
      obtain ⟨hkept, ⟨r, hr⟩, hrested⟩ := h.receive hrecv
      cases got with
      | false =>
          obtain rfl := Option.some.inj e
          exact ⟨hkept, hrested rfl⟩
      | true =>
          obtain ⟨s₂, hread, e⟩ := Option.bind_eq_some_iff.mp e
          obtain rfl := Option.some.inj e
          obtain ⟨e', t, hrun, hread', hb, hm⟩ := Endpoint.readHandler_refines (handlesBy dataHandler) hr
          obtain rfl := Option.some.inj (hread.symm.trans hread')
          refine ⟨?_, _, hb.resetRead, rfl⟩
          show KeptOrPutToSleep s.members.sessionId s₂.members
          rw [hm]
          exact Receiver.run_preserves (P := KeptOrPutToSleep s.members.sessionId)
            (fun m d hm => hm.act d) hrun hkept

/-- What `Update` makes of a session at rest. -/
def updated (check : Ikcpcb → ℕ → ℕ) (diff : ℕ) (s : KcpSession) : KcpSession :=
  if s.members.alive then
    { s with members := { s.members with toKcpClock := s.members.toKcpClock.update check diff } }
  else { s with members := { s.members with tick := (s.members.tick + diff) % 2 ^ 32 } }

theorem Rested.update (h : s.Rested) (check : Ikcpcb → ℕ → ℕ) (diff : ℕ) :
    s.update check dataHandler diff = some (s.updated check diff) := by
  obtain ⟨r, hr, hnil⟩ := h
  exact update_eq hr hnil check diff

theorem Awake.updated (h : s.Awake) (check : Ikcpcb → ℕ → ℕ) (diff : ℕ) :
    (s.updated check diff).Awake := by
  rw [KcpSession.updated, if_pos h.alive]
  exact ⟨h.place, h.alive, h.rested⟩

theorem Asleep.updated_eq (h : s.Asleep) (check : Ikcpcb → ℕ → ℕ) (diff : ℕ) :
    s.updated check diff
      = { s with members := { s.members with tick := (s.members.tick + diff) % 2 ^ 32 } } := by
  rw [KcpSession.updated, h.alive]
  rfl

theorem Asleep.updated (h : s.Asleep) (check : Ikcpcb → ℕ → ℕ) (diff : ℕ) :
    (s.updated check diff).Asleep := by
  rw [h.updated_eq]
  exact ⟨h.place, h.alive, h.status, h.rested⟩

theorem updated_sessionId (check : Ikcpcb → ℕ → ℕ) (diff : ℕ) (s : KcpSession) :
    (s.updated check diff).members.sessionId = s.members.sessionId := by
  rw [KcpSession.updated]
  split <;> rfl

theorem awake_accepted (clientConv : UInt16) (addr : SockAddr) (status : SessionStatus)
    (tick needUpdateTime : ℕ) :
    (accepted clientConv serverId addr status tick needUpdateTime).Awake :=
  ⟨rfl, rfl, _, ReadBuffers.holds_init, rfl⟩

end KcpSession

namespace SocketServer

/-! ### The store of sessions -/

/-- An entry of either map: it is under its own conversation, which the number of
the session gives. -/
structure Made (srv : SocketServer) (mc : UInt32 × SessionPtr) : Prop where
  key : mc.1 = mc.2.conv
  ptr : mc.2.ptr < srv.accepts.length
  conv : mc.2.conv = newConv (UInt16.ofNat (mc.2.ptr + 1)) srv.serverId

/-- What holds of the maps between two operations. -/
structure Store (srv : SocketServer) : Prop where
  sorted : StdMap.Sorted convLess srv.sessions
  sortedSleep : StdMap.Sorted convLess srv.sleepSessions
  remotes : ∀ a ∈ srv.sessions, ∀ b ∈ srv.sessions, a.2.addr.same b.2.addr = true → a = b
  awake : ∀ mc ∈ srv.sessions, mc.2.session.Awake ∧ srv.Made mc
  asleep : ∀ mc ∈ srv.sleepSessions,
    mc.2.session.Asleep ∧ mc.2.session.members.tick < sessionKeepAliveTime ∧ srv.Made mc
  apart : ∀ a ∈ srv.sessions, ∀ b ∈ srv.sleepSessions, a.2.ptr ≠ b.2.ptr
  counter : srv.clientConv = UInt16.ofNat srv.accepts.length

variable {host : Host} {srv srv' : SocketServer}

theorem store_create (serverId : UInt16) : (create serverId).Store :=
  ⟨List.Pairwise.nil, List.Pairwise.nil, by rintro _ ⟨⟩, by rintro _ ⟨⟩, by rintro _ ⟨⟩,
    by rintro _ ⟨⟩, rfl⟩

theorem convLess_eq : convLess = fun a b => decide (a.toNat < b.toNat) := by
  funext a b
  exact decide_eq_decide.mpr UInt32.lt_iff_toNat_lt

theorem convLess_strictWeak : StdMap.StrictWeak convLess := by
  rw [convLess_eq]
  exact StdMap.strictWeak_rank UInt32.toNat

theorem equiv_iff {a b : UInt32} : StdMap.Equiv convLess a b ↔ a = b := by
  rw [convLess_eq]
  constructor
  · rintro ⟨h₁, h₂⟩
    exact UInt32.toNat.inj (le_antisymm (not_lt.mp (of_decide_eq_false h₂))
      (not_lt.mp (of_decide_eq_false h₁)))
  · rintro rfl
    exact ⟨decide_eq_false (lt_irrefl _), decide_eq_false (lt_irrefl _)⟩

namespace Store

/-- Entries of one map under one conversation are the same. -/
theorem eq_of_conv (h : srv.Store) {a b : UInt32 × SessionPtr} (ha : a ∈ srv.sessions)
    (hb : b ∈ srv.sessions) (hkey : a.1 = b.1) : a = b :=
  h.sorted.eq_of_equiv ha hb (equiv_iff.mpr hkey)

theorem eq_of_conv_asleep (h : srv.Store) {a b : UInt32 × SessionPtr}
    (ha : a ∈ srv.sleepSessions) (hb : b ∈ srv.sleepSessions) (hkey : a.1 = b.1) : a = b :=
  h.sortedSleep.eq_of_equiv ha hb (equiv_iff.mpr hkey)

/-- A session stands in its map once. -/
theorem key_of_ptr {a b : UInt32 × SessionPtr} (ha : srv.Made a) (hb : srv.Made b)
    (hptr : a.2.ptr = b.2.ptr) : a.1 = b.1 := by
  rw [ha.key, hb.key, ha.conv, hb.conv, hptr]

end Store

theorem Made.congr {mc : UInt32 × SessionPtr} (h : srv.Made mc)
    (haccepts : srv'.accepts = srv.accepts) (hserver : srv'.serverId = srv.serverId) :
    srv'.Made mc :=
  ⟨h.key, by rw [haccepts]; exact h.ptr, by rw [hserver]; exact h.conv⟩

/-! ### Closing -/

/-- What can become of a session while it stands in `m_mSessions`. -/
def Outcome (p₀ p : SessionPtr) : Prop :=
  p.ptr = p₀.ptr ∧ p.session.members.sessionId = p₀.session.members.sessionId ∧
    (p.session.Awake ∨
      p.session.Asleep ∧ p.session.members.tick = 0 ∨ p.session.members.place = .erased)

theorem outcome_onReceive {p : SessionPtr} (h : p.session.Awake) {serverId : UInt16}
    {dataHandler : Option DataHandler} {d : KcpDatagram} {session : KcpSession}
    (e : p.session.onReceive serverId dataHandler d = some session) :
    Outcome p { p with session } := by
  obtain ⟨⟨hid, hcases⟩, hrested⟩ := h.onReceive e
  refine ⟨rfl, hid, ?_⟩
  rcases hcases with ⟨hplace, halive⟩ | ⟨hplace, halive, hstatus, htick⟩
  · exact Or.inl ⟨hplace, halive, hrested⟩
  · exact Or.inr (Or.inl ⟨⟨hplace, halive, hstatus, hrested⟩, htick⟩)

theorem outcome_disconnect {p : SessionPtr} (h : p.session.Awake) (remove : Bool) :
    Outcome p (disconnect p remove) := by
  obtain ⟨ptr, s⟩ := p
  have hid : (s.onDisconnected remove).members.sessionId = s.members.sessionId := by
    rcases s with ⟨_, _, _, status, _, _, _, _, _⟩
    cases status <;> cases remove <;> rfl
  refine ⟨rfl, hid, Or.inr ?_⟩
  cases remove with
  | true => exact Or.inr rfl
  | false =>
      left
      obtain ⟨r, hr, -⟩ := h.rested
      have hclose : (disconnect ⟨ptr, s⟩ false).session = s.closeSession false := by
        rw [KcpSession.closeSession, h.place]
        rfl
      have hput := KcpSession.closed_putToSleep h.place
      rw [hclose, KcpSession.closeSession_of_sessions h.place]
      exact ⟨⟨hput.2.1, hput.2.2.1, hput.2.2.2.1, r.reset, hr.reset, rfl⟩, hput.2.2.2.2⟩

/-- Entries of `m_mSessions` after a session was settled. -/
theorem mem_settle {conv : UInt32} {p : SessionPtr} {mc : UInt32 × SessionPtr}
    (h : mc ∈ (srv.settle conv p).sessions) :
    mc = (conv, p) ∧ p.session.members.place = .sessions ∨ mc ∈ srv.sessions ∧ mc.1 ≠ conv := by
  rw [settle] at h
  split at h
  · obtain ⟨e, he, rfl⟩ := List.mem_map.mp h
    by_cases hk : e.1 = conv
    · rw [if_pos hk]
      exact Or.inl ⟨rfl, ‹_›⟩
    · rw [if_neg hk]
      exact Or.inr ⟨he, hk⟩
  · exact Or.inr (StdMap.mem_erase.mp h)
  · exact Or.inr (StdMap.mem_erase.mp h)

/-- Entries of `m_mSleepSessions` after a session was settled. -/
theorem mem_settle_asleep {conv : UInt32} {p : SessionPtr} {mc : UInt32 × SessionPtr}
    (h : mc ∈ (srv.settle conv p).sleepSessions) :
    mc = (conv, p) ∧ p.session.members.place = .sleepSessions ∨ mc ∈ srv.sleepSessions := by
  rw [settle] at h
  split at h
  · exact Or.inr h
  · exact (StdMap.mem_of_mem_insert h).imp_left fun he => ⟨he, ‹_›⟩
  · exact Or.inr h

theorem mem_settle_of_mem_asleep {conv : UInt32} {p : SessionPtr} {mc : UInt32 × SessionPtr}
    (h : mc ∈ srv.sleepSessions) : mc ∈ (srv.settle conv p).sleepSessions := by
  rw [settle]
  split
  · exact h
  · exact StdMap.mem_insert_of_mem h
  · exact h

theorem settle_members (srv : SocketServer) (conv : UInt32) (p : SessionPtr) :
    (srv.settle conv p).accepts = srv.accepts ∧ (srv.settle conv p).serverId = srv.serverId ∧
      (srv.settle conv p).clientConv = srv.clientConv ∧
      (srv.settle conv p).waitingForConnections = srv.waitingForConnections := by
  rw [settle]
  split <;> exact ⟨rfl, rfl, rfl, rfl⟩

theorem settle_sorted (h : srv.Store) (conv : UInt32) (p : SessionPtr) :
    StdMap.Sorted convLess (srv.settle conv p).sessions ∧
      StdMap.Sorted convLess (srv.settle conv p).sleepSessions := by
  rw [settle]
  split
  · refine ⟨h.sorted.map_val _ fun e => ?_, h.sortedSleep⟩
    split
    · exact (‹e.1 = conv›).symm
    · rfl
  · exact ⟨h.sorted.sublist List.filter_sublist, h.sortedSleep.insert convLess_strictWeak conv p⟩
  · exact ⟨h.sorted.sublist List.filter_sublist, h.sortedSleep⟩

/-- **Settling a session keeps the store.** -/
theorem Store.settle (h : srv.Store) {conv : UInt32} {p₀ p : SessionPtr}
    (hmem : (conv, p₀) ∈ srv.sessions) (hp : Outcome p₀ p) : (srv.settle conv p).Store := by
  obtain ⟨hptr, hid, hout⟩ := hp
  obtain ⟨haccepts, hserver, hcounter, -⟩ := settle_members srv conv p
  obtain ⟨hsorted, hsortedSleep⟩ := settle_sorted h conv p
  have hmade₀ : srv.Made (conv, p₀) := (h.awake _ hmem).2
  have haddr : p.addr = p₀.addr := congrArg SocketSessionId.addr hid
  have hconv : p.conv = p₀.conv := congrArg SocketSessionId.conv hid
  have hmade : srv.Made (conv, p) :=
    ⟨hmade₀.key.trans hconv.symm, by rw [hptr]; exact hmade₀.ptr, by
      rw [hptr, hconv]
      exact hmade₀.conv⟩
  refine ⟨hsorted, hsortedSleep, ?_, ?_, ?_, ?_, ?_⟩
  · -- the session settled has the remote of the one before
    intro a ha b hb hsame
    rcases mem_settle ha with ⟨rfl, -⟩ | ⟨ha, hka⟩ <;> rcases mem_settle hb with ⟨rfl, -⟩ | ⟨hb, hkb⟩
    · rfl
    · rw [haddr] at hsame
      exact absurd (congrArg Prod.fst (h.remotes _ hmem b hb hsame)).symm hkb
    · rw [haddr] at hsame
      exact absurd (congrArg Prod.fst (h.remotes a ha _ hmem hsame)) hka
    · exact h.remotes a ha b hb hsame
  · -- only an awake session stays in `sessions`
    intro mc hmc
    rcases mem_settle hmc with ⟨rfl, hplace⟩ | ⟨hmc, -⟩
    · refine ⟨?_, hmade.congr haccepts hserver⟩
      rcases hout with hawake | ⟨hasleep, -⟩ | herased
      · exact hawake
      · rw [hasleep.place] at hplace
        cases hplace
      · rw [herased] at hplace
        cases hplace
    · exact ⟨(h.awake mc hmc).1, (h.awake mc hmc).2.congr haccepts hserver⟩
  · -- the time of one that falls asleep starts at zero
    intro mc hmc
    rcases mem_settle_asleep hmc with ⟨rfl, hplace⟩ | hmc
    · rcases hout with hawake | ⟨hasleep, htick⟩ | herased
      · rw [hawake.place] at hplace
        cases hplace
      · exact ⟨hasleep, by rw [htick]; decide, hmade.congr haccepts hserver⟩
      · rw [herased] at hplace
        cases hplace
    · obtain ⟨hasleep, htick, hm⟩ := h.asleep mc hmc
      exact ⟨hasleep, htick, hm.congr haccepts hserver⟩
  -- a session is in the map of its place, and has one place
  · intro a ha b hb hab
    rcases mem_settle ha with ⟨rfl, hplace⟩ | ⟨ha, hka⟩
    · rcases mem_settle_asleep hb with ⟨rfl, hplace'⟩ | hb
      · rw [hplace] at hplace'
        cases hplace'
      · exact h.apart _ hmem b hb (hptr.symm.trans hab)
    · rcases mem_settle_asleep hb with ⟨rfl, -⟩ | hb
      · exact hka (Store.key_of_ptr (h.awake a ha).2 hmade hab)
      · exact h.apart a ha b hb hab
  · rw [hcounter, haccepts]
    exact h.counter

/-! ### Accepting -/

/-- The waiting buffers are not part of the store. -/
theorem Store.waiting (h : srv.Store) (waitingForConnections : StdMap SockAddr MessageBuffer) :
    Store { srv with waitingForConnections } :=
  ⟨h.sorted, h.sortedSleep, h.remotes,
    fun mc hmc => ⟨(h.awake mc hmc).1, (h.awake mc hmc).2.congr rfl rfl⟩,
    fun mc hmc => ⟨(h.asleep mc hmc).1, (h.asleep mc hmc).2.1, (h.asleep mc hmc).2.2.congr rfl rfl⟩,
    h.apart, h.counter⟩

theorem getSessionByRemote_eq_some {remote : SockAddr} {p : SessionPtr}
    (h : srv.getSessionByRemote remote = some p) :
    ∃ conv, (conv, p) ∈ srv.sessions ∧ p.addr.same remote = true := by
  obtain ⟨⟨conv, p'⟩, hfind, rfl⟩ := Option.map_eq_some_iff.mp h
  have hsame := List.find?_some hfind
  exact ⟨conv, List.mem_of_find?_eq_some hfind, hsame⟩

theorem getSessionByRemote_eq_none {remote : SockAddr} :
    srv.getSessionByRemote remote = none ↔ ∀ mc ∈ srv.sessions, mc.2.addr.same remote = false := by
  rw [getSessionByRemote, Option.map_eq_none_iff, List.find?_eq_none]
  exact forall₂_congr fun mc _ => Bool.eq_false_iff.symm

/-- The server after it accepted a remote. -/
def acceptSession (srv : SocketServer) (remote : SockAddr) (unset : Unset) : SocketServer :=
  let clientConv := srv.clientConv + 1
  let conv := newConv clientConv srv.serverId
  let session := KcpSession.accepted clientConv srv.serverId remote unset.status unset.tick
    unset.needUpdateTime
  { srv with
    clientConv
    sessions := StdMap.insert convLess conv { ptr := srv.accepts.length, session } srv.sessions
    accepts := srv.accepts ++ [remote] }

/-- `OnConnected` is called for the session inserted and no other. -/
theorem Store.insertSession_onConnected (h : srv.Store) (remote : SockAddr)
    (unset : Unset) : (srv.insertSession remote unset).1.onConnected srv.accepts.length
      = srv.acceptSession remote unset := by
  have hold : srv.sessions.map (Prod.map id fun p => if p.ptr = srv.accepts.length then
      { p with session := p.session.onConnected } else p) = srv.sessions := by
    refine (List.map_congr_left fun mc hmc => ?_).trans (List.map_id _)
    show (mc.1, if mc.2.ptr = srv.accepts.length then _ else mc.2) = mc
    rw [if_neg (Nat.ne_of_lt (h.awake mc hmc).2.ptr)]
  show { srv with
    clientConv := srv.clientConv + 1
    sessions := (StdMap.insert convLess _ _ srv.sessions).map _
    accepts := srv.accepts ++ [remote] } = _
  rw [StdMap.map_insert, hold, if_pos rfl]
  rfl

/-- What `OnAccept` does: it changes the waiting buffers, and may make a session. -/
theorem onAccept_cases {remote : SockAddr} {unset : Unset} {bytes : List Byte}
    {decision : Decision} (h : srv.onAccept host remote unset bytes = some (srv', decision)) :
    ∃ waitingForConnections,
      ((∀ ptr, decision ≠ .accept ptr) ∧ srv' = { srv with waitingForConnections }) ∨
        (srv', decision) = insertSession { srv with waitingForConnections } remote unset := by
  have hjudge : ∀ {srv₁ : SocketServer} {b : MessageBuffer},
      srv₁.judge remote unset b = some (srv', decision) →
      ((∀ ptr, decision ≠ .accept ptr) ∧ srv' = srv₁) ∨
        (srv', decision) = srv₁.insertSession remote unset := by
    intro srv₁ b e
    obtain ⟨data, -, e⟩ := Option.bind_eq_some_iff.mp e
    split at e
    · obtain ⟨rfl, rfl⟩ := Prod.mk.inj (Option.some.inj e)
      exact Or.inl ⟨by rintro _ ⟨⟩, rfl⟩
    · exact Or.inr (Option.some.inj e).symm
  rw [onAccept] at h
  split at h
  · obtain ⟨b, -, h⟩ := Option.bind_eq_some_iff.mp h
    split at h
    · obtain ⟨rfl, rfl⟩ := Prod.mk.inj (Option.some.inj h)
      exact ⟨srv.waitingForConnections, Or.inl ⟨by rintro _ ⟨⟩, rfl⟩⟩
    · split at h
      · obtain ⟨rfl, rfl⟩ := Prod.mk.inj (Option.some.inj h)
        exact ⟨_, Or.inl ⟨by rintro _ ⟨⟩, rfl⟩⟩
      · exact ⟨srv.waitingForConnections, hjudge h⟩
  · obtain ⟨b, -, h⟩ := Option.bind_eq_some_iff.mp h
    obtain ⟨b', -, h⟩ := Option.bind_eq_some_iff.mp h
    split at h
    · obtain ⟨rfl, rfl⟩ := Prod.mk.inj (Option.some.inj h)
      exact ⟨_, Or.inl ⟨by rintro _ ⟨⟩, rfl⟩⟩
    · exact ⟨_, hjudge h⟩

/-- What a datagram does to the server. -/
theorem readHandler_cases (hstore : srv.Store) {addr : SockAddr} {unset : Unset} {d : UdpDatagram}
    (h : srv.readHandler host addr unset d = some srv') :
    srv.getSessionByRemote addr = none ∧ (∃ waitingForConnections,
        srv' = { srv with waitingForConnections } ∨
          srv' = acceptSession { srv with waitingForConnections } addr unset) ∨
      ∃ p session, srv.getSessionByRemote addr = some p ∧ (p.conv, p) ∈ srv.sessions ∧
        p.session.onReceive srv.serverId host.dataHandler d.toKcp = some session ∧
        srv' = srv.settle p.conv { p with session } := by
  rw [readHandler] at h
  split at h
  · rename_i hnone
    left
    obtain ⟨⟨srv₁, decision⟩, haccept, h⟩ := Option.bind_eq_some_iff.mp h
    obtain ⟨waitingForConnections, hcases⟩ := onAccept_cases haccept
    refine ⟨hnone, waitingForConnections, ?_⟩
    rcases hcases with ⟨hno, rfl⟩ | hinsert
    · left
      cases decision with
      | accept ptr => exact absurd rfl (hno ptr)
      | wait => exact (Option.some.inj h).symm
      | reject => exact (Option.some.inj h).symm
    · right
      obtain ⟨rfl, rfl⟩ := Prod.mk.inj hinsert
      rw [← Option.some.inj h]
      exact (hstore.waiting waitingForConnections).insertSession_onConnected addr unset
  · rename_i p hsome
    right
    obtain ⟨session, hrecv, h⟩ := Option.bind_eq_some_iff.mp h
    obtain ⟨conv, hmem, -⟩ := getSessionByRemote_eq_some hsome
    have hkey : conv = p.conv := (hstore.awake _ hmem).2.key
    exact ⟨p, session, hsome, hkey ▸ hmem, hrecv, (Option.some.inj h).symm⟩

/-- **Accepting a remote that has no session keeps the store.** -/
theorem Store.acceptSession (h : srv.Store) {remote : SockAddr}
    (hnone : srv.getSessionByRemote remote = none) (unset : Unset) :
    (srv.acceptSession remote unset).Store := by
  have hno := getSessionByRemote_eq_none.mp hnone
  have hlen : (srv.accepts ++ [remote]).length = srv.accepts.length + 1 := by
    rw [List.length_append, List.length_singleton]
  have hold : ∀ {mc}, srv.Made mc → (srv.acceptSession remote unset).Made mc := by
    intro mc hm
    refine ⟨hm.key, ?_, hm.conv⟩
    show mc.2.ptr < (srv.accepts ++ [remote]).length
    rw [hlen]
    exact Nat.lt_succ_of_lt hm.ptr
  have hcounter : srv.clientConv + 1 = UInt16.ofNat (srv.accepts.length + 1) := by
    rw [h.counter]
    exact (UInt16.ofNat_add _ _).symm
  -- `insert` may keep an old session of that conversation: the store is in order either way
  refine ⟨h.sorted.insert convLess_strictWeak _ _, h.sortedSleep, ?_, ?_, ?_, ?_, ?_⟩
  · intro a ha b hb hsame
    rcases StdMap.mem_of_mem_insert ha with rfl | ha <;>
      rcases StdMap.mem_of_mem_insert hb with rfl | hb
    · rfl
    · rw [SockAddr.same_comm] at hsame
      exact absurd (hno b hb) (Bool.not_eq_false _ ▸ hsame)
    · exact absurd (hno a ha) (Bool.not_eq_false _ ▸ hsame)
    · exact h.remotes a ha b hb hsame
  · intro mc hmc
    rcases StdMap.mem_of_mem_insert hmc with rfl | hmc
    · refine ⟨KcpSession.awake_accepted _ _ _ _ _, rfl, ?_, ?_⟩
      · show srv.accepts.length < (srv.accepts ++ [remote]).length
        rw [hlen]
        exact Nat.lt_succ_self _
      · show newConv (srv.clientConv + 1) srv.serverId = _
        rw [hcounter]
        rfl
    · exact ⟨(h.awake mc hmc).1, hold (h.awake mc hmc).2⟩
  · intro mc hmc
    exact ⟨(h.asleep mc hmc).1, (h.asleep mc hmc).2.1, hold (h.asleep mc hmc).2.2⟩
  · intro a ha b hb hab
    rcases StdMap.mem_of_mem_insert ha with rfl | ha
    · exact Nat.ne_of_gt (h.asleep b hb).2.2.ptr hab
    · exact h.apart a ha b hb hab
  · show srv.clientConv + 1 = UInt16.ofNat (srv.accepts ++ [remote]).length
    rw [hlen, hcounter]

/-! ### Time -/

/-- An entry after `Update`. -/
def updatedEntry (host : Host) (diff : ℕ) : UInt32 × SessionPtr → UInt32 × SessionPtr :=
  Prod.map id fun p => { p with session := p.session.updated host.check diff }

/-- With the store in order `Update` never waits for a lock it holds. -/
theorem Store.update_eq (h : srv.Store) (host : Host) (diff : ℕ) :
    srv.update host diff = some { srv with
      sessions := srv.sessions.map (updatedEntry host diff)
      sleepSessions := (srv.sleepSessions.map (updatedEntry host diff)).filter
        fun mc => !mc.2.session.isDead } := by
  have halive : srv.sessions.mapM (updateAlive host diff)
      = some (srv.sessions.map (updatedEntry host diff)) := by
    refine Run.mapM_eq_some_map fun mc hmc => ?_
    have hawake := (h.awake mc hmc).1
    rw [updateAlive, hawake.rested.update, Option.bind_eq_bind, Option.bind_some,
      if_pos (hawake.updated host.check diff).place]
    rfl
  have hasleep : srv.sleepSessions.mapM (updateAsleep host diff)
      = some (srv.sleepSessions.map (updatedEntry host diff)) := by
    refine Run.mapM_eq_some_map fun mc hmc => ?_
    rw [updateAsleep, (h.asleep mc hmc).1.rested.update]
    rfl
  rw [SocketServer.update, halive, Option.bind_eq_bind, Option.bind_some, hasleep]
  rfl

theorem addr_updatedEntry (diff : ℕ) (mc : UInt32 × SessionPtr) :
    (updatedEntry host diff mc).2.addr = mc.2.addr :=
  congrArg SocketSessionId.addr (KcpSession.updated_sessionId host.check diff mc.2.session)

theorem Made.updatedEntry {mc : UInt32 × SessionPtr} (h : srv.Made mc) (diff : ℕ) :
    srv.Made (updatedEntry host diff mc) := by
  have hconv : (SocketServer.updatedEntry host diff mc).2.conv = mc.2.conv :=
    congrArg SocketSessionId.conv (KcpSession.updated_sessionId host.check diff mc.2.session)
  exact ⟨h.key.trans hconv.symm, h.ptr, hconv.trans h.conv⟩

theorem isDead_eq_false {s : KcpSession} (h : s.Asleep) :
    s.isDead = false ↔ s.members.tick < sessionKeepAliveTime := by
  rw [KcpSession.isDead, h.alive]
  show decide _ = false ↔ _
  rw [decide_eq_false_iff_not, Nat.not_le]

/-- **An update keeps the store.** -/
theorem Store.update (h : srv.Store) {diff : ℕ} (e : srv.update host diff = some srv') :
    srv'.Store := by
  rw [h.update_eq] at e
  obtain rfl := Option.some.inj e
  refine ⟨h.sorted.map_val (updatedEntry host diff) fun _ => rfl,
    (h.sortedSleep.map_val (updatedEntry host diff) fun _ => rfl).sublist List.filter_sublist,
    ?_, ?_, ?_, ?_, h.counter⟩
  · intro a ha b hb hsame
    obtain ⟨a₀, ha₀, rfl⟩ := List.mem_map.mp ha
    obtain ⟨b₀, hb₀, rfl⟩ := List.mem_map.mp hb
    rw [addr_updatedEntry, addr_updatedEntry] at hsame
    rw [h.remotes a₀ ha₀ b₀ hb₀ hsame]
  · intro mc hmc
    obtain ⟨mc₀, hmc₀, rfl⟩ := List.mem_map.mp hmc
    obtain ⟨hawake, hmade⟩ := h.awake mc₀ hmc₀
    exact ⟨hawake.updated host.check diff, (hmade.updatedEntry diff).congr rfl rfl⟩
  · intro mc hmc
    obtain ⟨hmap, hdead⟩ := List.mem_filter.mp hmc
    obtain ⟨mc₀, hmc₀, rfl⟩ := List.mem_map.mp hmap
    obtain ⟨hasleep, -, hmade⟩ := h.asleep mc₀ hmc₀
    have hasleep' := hasleep.updated host.check diff
    rw [Bool.not_eq_true'] at hdead
    exact ⟨hasleep', (isDead_eq_false hasleep').mp hdead, (hmade.updatedEntry diff).congr rfl rfl⟩
  · intro a ha b hb
    obtain ⟨a₀, ha₀, rfl⟩ := List.mem_map.mp ha
    obtain ⟨b₀, hb₀, rfl⟩ := List.mem_map.mp (List.mem_filter.mp hb).1
    exact h.apart a₀ ha₀ b₀ hb₀

/-! ### Steps -/

/-- What a step does to the store. -/
inductive Effect (host : Host) (srv : SocketServer) : Op → SocketServer → Prop
  | quiet (op : Op) (waitingForConnections : StdMap SockAddr MessageBuffer)
      (hop : ∀ diff, op ≠ .update diff) :
      Effect host srv op { srv with waitingForConnections }
  | accept (addr : SockAddr) (unset : Unset) (d : UdpDatagram)
      (waitingForConnections : StdMap SockAddr MessageBuffer)
      (hnone : srv.getSessionByRemote addr = none) :
      Effect host srv (.receive addr unset d)
        (acceptSession { srv with waitingForConnections } addr unset)
  | settle (op : Op) (conv : UInt32) (p₀ p : SessionPtr) (hop : ∀ diff, op ≠ .update diff)
      (hmem : (conv, p₀) ∈ srv.sessions) (hp : Outcome p₀ p) : Effect host srv op (srv.settle conv p)
  | update (diff : ℕ) (srv' : SocketServer) (h : srv.update host diff = some srv') :
      Effect host srv (.update diff) srv'

theorem Store.effect (h : srv.Store) {op : Op} (e : step host srv op = some srv') :
    Effect host srv op srv' := by
  cases op with
  | receive addr unset d =>
      rw [step, readHandlerInternal] at e
      split at e
      · obtain rfl := Option.some.inj e
        exact .quiet _ srv.waitingForConnections (by rintro _ ⟨⟩)
      · rcases readHandler_cases h e with ⟨hnone, waiting, rfl | rfl⟩ | ⟨p, s, -, hmem, hrecv, rfl⟩
        · exact .quiet _ waiting (by rintro _ ⟨⟩)
        · exact .accept addr unset d waiting hnone
        · exact .settle _ p.conv p _ (by rintro _ ⟨⟩) hmem
            (outcome_onReceive (h.awake _ hmem).1 hrecv)
  | closeRemote client =>
      obtain rfl := Option.some.inj e
      rw [closeRemote]
      split
      · rename_i conv p hfind
        have hmem := List.mem_of_find?_eq_some hfind
        exact .settle _ conv p _ (by rintro _ ⟨⟩) hmem (outcome_disconnect (h.awake _ hmem).1 true)
      · exact .quiet _ srv.waitingForConnections (by rintro _ ⟨⟩)
  | closeSession session remove =>
      obtain rfl := Option.some.inj e
      rw [closeSession]
      split
      · rename_i conv p hfind
        have hmem := List.mem_of_find?_eq_some hfind
        exact .settle _ conv p _ (by rintro _ ⟨⟩) hmem
          (outcome_disconnect (h.awake _ hmem).1 remove)
      · exact .quiet _ srv.waitingForConnections (by rintro _ ⟨⟩)
  | update diff => exact .update diff srv' e

/-- **Every step keeps the store.** -/
theorem Store.step (h : srv.Store) {op : Op} (e : SocketServer.step host srv op = some srv') :
    srv'.Store := by
  cases h.effect e with
  | quiet _ waiting => exact h.waiting waiting
  | accept addr unset _ waiting hnone => exact (h.waiting waiting).acceptSession hnone unset
  | settle _ conv p₀ p _ hmem hp => exact h.settle hmem hp
  | update diff _ e => exact h.update e

theorem Store.run (h : srv.Store) {ops : List Op} (e : ops.foldlM (SocketServer.step host) srv = some srv') :
    srv'.Store :=
  Run.foldlM_invariant (SocketServer.step host) Store (fun _ _ _ _ h e => h.step e) h e

/-- A close, an update, or a datagram of a remote that has no session and for which no
bytes wait. -/
def Op.Plain (srv : SocketServer) : Op → Prop
  | .receive addr _ _ =>
      srv.getSessionByRemote addr = none ∧ srv.getWaitingConnectSession addr = none
  | _ => True

/-- **Such a step has a result.** -/
theorem Store.isSome_step (h : srv.Store) (host : Host) {op : Op} (hop : op.Plain srv) :
    (SocketServer.step host srv op).isSome := by
  cases op with
  | receive addr unset d =>
      obtain ⟨hsession, hwaiting⟩ := hop
      rw [SocketServer.step, readHandlerInternal]
      split
      · rfl
      · have haccept : (srv.onAccept host addr unset d.bytes).isSome := by
          obtain ⟨b, -, e⟩ := onAccept_of_not_waiting host hwaiting unset d.bytes
          rw [e]
          split_ifs <;> rfl
        obtain ⟨⟨srv₁, decision⟩, e⟩ := Option.isSome_iff_exists.mp haccept
        rw [readHandler, hsession]
        simp only [e, Option.bind_eq_bind, Option.bind_some]
        cases decision <;> rfl
  | closeRemote client => rfl
  | closeSession session remove => rfl
  | update diff =>
      rw [SocketServer.step, h.update_eq]
      rfl

/-! ### How long a session sleeps -/

/-- The time an operation lets pass. -/
def Op.elapsed : Op → ℕ
  | .update diff => diff
  | _ => 0

/-- The session `ptr` was put to sleep `t` ago. -/
structure SleptFor (ptr t : ℕ) (srv : SocketServer) : Prop where
  made : ptr < srv.accepts.length
  awake : ∀ mc ∈ srv.sessions, mc.2.ptr ≠ ptr
  stays : t < sessionKeepAliveTime →
    ∃ mc ∈ srv.sleepSessions, mc.2.ptr = ptr ∧ mc.2.session.members.tick = t
  gone : sessionKeepAliveTime ≤ t → ∀ mc ∈ srv.sleepSessions, mc.2.ptr ≠ ptr

theorem Op.elapsed_eq_zero {op : Op} (h : ∀ diff, op ≠ .update diff) : op.elapsed = 0 := by
  cases op with
  | update diff => exact absurd rfl (h diff)
  | receive addr unset d => rfl
  | closeRemote client => rfl
  | closeSession session remove => rfl

/-- No session that sleeps lives to see its clock wrap. -/
def NoWrap (srv : SocketServer) (op : Op) : Prop :=
  ∀ mc ∈ srv.sleepSessions, mc.2.session.members.tick + op.elapsed < 2 ^ 32

theorem SleptFor.update {ptr t diff : ℕ} (hstore : srv.Store) (h : SleptFor ptr t srv)
    (hwrap : NoWrap srv (.update diff)) (e : srv.update host diff = some srv') :
    SleptFor ptr (t + diff) srv' := by
  rw [hstore.update_eq] at e
  obtain rfl := Option.some.inj e
  have htick : ∀ mc ∈ srv.sleepSessions,
      (updatedEntry host diff mc).2.session.members.tick = mc.2.session.members.tick + diff := by
    intro mc hmc
    show (mc.2.session.updated host.check diff).members.tick = _
    rw [(hstore.asleep mc hmc).1.updated_eq]
    exact Nat.mod_eq_of_lt (hwrap mc hmc)
  have hdead : ∀ mc ∈ srv.sleepSessions, (updatedEntry host diff mc).2.session.isDead = false ↔
      mc.2.session.members.tick + diff < sessionKeepAliveTime := by
    intro mc hmc
    rw [← htick mc hmc]
    exact isDead_eq_false ((hstore.asleep mc hmc).1.updated host.check diff)
  refine ⟨h.made, ?_, fun ht => ?_, fun ht => ?_⟩
  · intro mc hmc
    obtain ⟨mc₀, hmc₀, rfl⟩ := List.mem_map.mp hmc
    exact h.awake mc₀ hmc₀
  · obtain ⟨mc, hmc, hptr, rfl⟩ := h.stays (lt_of_le_of_lt (Nat.le_add_right t diff) ht)
    refine ⟨updatedEntry host diff mc, List.mem_filter.mpr ⟨List.mem_map_of_mem hmc, ?_⟩, hptr,
      htick mc hmc⟩
    rw [(hdead mc hmc).mpr ht]
    rfl
  · intro mc hmc hptr
    obtain ⟨hmap, halive⟩ := List.mem_filter.mp hmc
    obtain ⟨mc₀, hmc₀, rfl⟩ := List.mem_map.mp hmap
    rw [Bool.not_eq_true', hdead mc₀ hmc₀] at halive
    by_cases hold : t < sessionKeepAliveTime
    · -- the entry is the one that has slept for `t`
      obtain ⟨mc₁, hmc₁, hptr₁, rfl⟩ := h.stays hold
      have hkey := Store.key_of_ptr (hstore.asleep mc₀ hmc₀).2.2 (hstore.asleep mc₁ hmc₁).2.2
        (hptr.trans hptr₁.symm)
      obtain rfl := hstore.eq_of_conv_asleep hmc₀ hmc₁ hkey
      exact absurd halive (Nat.not_lt.mpr ht)
    · exact h.gone (Nat.not_lt.mp hold) mc₀ hmc₀ hptr

/-- One step adds the time it lets pass. -/
theorem SleptFor.step {ptr t : ℕ} {op : Op} (hstore : srv.Store) (h : SleptFor ptr t srv)
    (hwrap : NoWrap srv op) (e : SocketServer.step host srv op = some srv') :
    SleptFor ptr (t + op.elapsed) srv' := by
  cases hstore.effect e with
  | quiet op waiting hop =>
      rw [Op.elapsed_eq_zero hop]
      exact ⟨h.made, h.awake, h.stays, h.gone⟩
  | accept addr unset d waiting hnone =>
      refine ⟨?_, ?_, h.stays, h.gone⟩
      · show ptr < (srv.accepts ++ [addr]).length
        rw [List.length_append]
        exact Nat.lt_add_right 1 h.made
      · intro mc hmc
        rcases StdMap.mem_of_mem_insert hmc with rfl | hmc
        · exact Nat.ne_of_gt h.made
        · exact h.awake mc hmc
  | settle op conv p₀ p hop hmem hp =>
      -- only sessions that are awake are settled
      have hptr : p.ptr ≠ ptr := by
        rw [hp.1]
        exact h.awake _ hmem
      rw [Op.elapsed_eq_zero hop]
      refine ⟨?_, ?_, fun ht => ?_, fun ht => ?_⟩
      · rw [(settle_members srv conv p).1]
        exact h.made
      · intro mc hmc
        rcases mem_settle hmc with ⟨rfl, -⟩ | ⟨hmc, -⟩
        · exact hptr
        · exact h.awake mc hmc
      · obtain ⟨mc, hmc, hmc'⟩ := h.stays ht
        exact ⟨mc, mem_settle_of_mem_asleep hmc, hmc'⟩
      · intro mc hmc
        rcases mem_settle_asleep hmc with ⟨rfl, -⟩ | hmc
        · exact hptr
        · exact h.gone ht mc hmc
  | update diff _ e => exact h.update hstore hwrap e

/-- The step that puts a session to sleep starts its time. -/
theorem sleptFor_zero {ptr : ℕ} {op : Op} (hstore : srv.Store)
    (e : SocketServer.step host srv op = some srv') {mc mc' : UInt32 × SessionPtr}
    (hmc : mc ∈ srv.sessions) (hptr : mc.2.ptr = ptr) (hmc' : mc' ∈ srv'.sleepSessions)
    (hptr' : mc'.2.ptr = ptr) : SleptFor ptr 0 srv' := by
  have hnew : mc' ∉ srv.sleepSessions := fun hold =>
    hstore.apart mc hmc mc' hold (hptr.trans hptr'.symm)
  have hstore' := hstore.step e
  have hasleep := hstore'.asleep mc' hmc'
  -- it was awake before, so it is the session that the step put to sleep
  refine ⟨hptr' ▸ hasleep.2.2.ptr, fun a ha hab => hstore'.apart a ha mc' hmc'
    (hab.trans hptr'.symm), fun _ => ⟨mc', hmc', hptr', ?_⟩, fun ht => by cases ht⟩
  cases hstore.effect e with
  | quiet op waiting hop => exact absurd hmc' hnew
  | accept addr unset d waiting hnone => exact absurd hmc' hnew
  | settle op conv p₀ p hop hmem hp =>
      rcases mem_settle_asleep hmc' with ⟨rfl, hplace⟩ | hold
      -- `Disconnect` sets the clock to zero
      · rcases hp.2.2 with hawake | ⟨-, htick⟩ | herased
        · rw [hawake.place] at hplace
          cases hplace
        · exact htick
        · rw [herased] at hplace
          cases hplace
      · exact absurd hold hnew
  | update diff _ e =>
      rw [hstore.update_eq] at e
      obtain rfl := Option.some.inj e
      obtain ⟨hmap, -⟩ := List.mem_filter.mp hmc'
      obtain ⟨mc₀, hmc₀, rfl⟩ := List.mem_map.mp hmap
      exact absurd (hptr.trans hptr'.symm) (hstore.apart mc hmc mc₀ hmc₀)

/-- A run adds the time of its operations. -/
theorem SleptFor.run {ptr t : ℕ} {ops : List Op} (hstore : srv.Store) (h : SleptFor ptr t srv)
    (hwrap : ∀ pre op s, pre ++ [op] <+: ops →
      pre.foldlM (SocketServer.step host) srv = some s → NoWrap s op)
    (e : ops.foldlM (SocketServer.step host) srv = some srv') :
    SleptFor ptr (t + (ops.map Op.elapsed).sum) srv' := by
  induction ops generalizing srv t with
  | nil =>
      obtain rfl := Option.some.inj e
      exact h
  | cons op ops ih =>
      rw [List.foldlM_cons] at e
      obtain ⟨srv₁, e₁, e₂⟩ := Option.bind_eq_some_iff.mp e
      have hop := hwrap [] op srv ⟨ops, rfl⟩ rfl
      have hrest := ih (hstore.step e₁) (h.step hstore hop e₁) (fun pre op' s hpre hs =>
        hwrap (op :: pre) op' s ((List.prefix_cons_inj op).mpr hpre) (by
          rw [List.foldlM_cons, e₁]
          exact hs)) e₂
      rwa [List.map_cons, List.sum_cons, ← Nat.add_assoc]

theorem SleptFor.asleep_iff {ptr t : ℕ} (h : SleptFor ptr t srv) :
    ptr ∈ srv.sleepSessions.map (fun mc => mc.2.ptr) ↔ t < sessionKeepAliveTime := by
  constructor
  · intro hmem
    obtain ⟨mc, hmc, hptr⟩ := List.mem_map.mp hmem
    by_contra ht
    exact h.gone (Nat.not_lt.mp ht) mc hmc hptr
  · intro ht
    obtain ⟨mc, hmc, rfl, -⟩ := h.stays ht
    exact List.mem_map_of_mem hmc

/-- Short updates do not wrap the clock of a session that sleeps. -/
theorem Store.noWrap (h : srv.Store) {op : Op}
    (hop : sessionKeepAliveTime + op.elapsed ≤ 2 ^ 32) : NoWrap srv op := by
  intro mc hmc
  have htick := (h.asleep mc hmc).2.1
  omega

/-- **The store of sessions.**  In every state of the server the sessions in
`m_mSessions` are under their own conversations and have remotes of their own, those
in `m_mSleepSessions` are disconnected; and one that moves there stays for as long
as the updates since add up to less than the keep-alive time.  Every close, every update and
every accept for which no bytes wait has a result. -/
theorem store_holds (host : Host) (serverId : UInt16) (ops : List Op)
    (hwrap : ∀ pre op srv, pre ++ [op] <+: ops →
      pre.foldlM (step host) (create serverId) = some srv → NoWrap srv op) :
    (∀ pre srv, pre <+: ops → pre.foldlM (step host) (create serverId) = some srv →
      (∀ mc ∈ srv.sessions, mc.1 = mc.2.conv) ∧
      srv.sessions.Pairwise (fun a b => a.2.addr.same b.2.addr = false) ∧
      ∀ mc ∈ srv.sleepSessions, mc.2.session.members.alive = false ∧
        mc.2.session.members.status = .disconnected) ∧
    (∀ pre op srv, pre ++ [op] <+: ops → pre.foldlM (step host) (create serverId) = some srv →
      op.Plain srv → (step host srv op).isSome) ∧
    ∀ pre op post srv srv₁ srv', pre ++ op :: post <+: ops →
      pre.foldlM (step host) (create serverId) = some srv → step host srv op = some srv₁ →
      post.foldlM (step host) srv₁ = some srv' →
      ∀ ptr, ptr ∈ srv.sessions.map (fun mc => mc.2.ptr) →
        ptr ∈ srv₁.sleepSessions.map (fun mc => mc.2.ptr) →
        (ptr ∈ srv'.sleepSessions.map (fun mc => mc.2.ptr) ↔
          (post.map Op.elapsed).sum < sessionKeepAliveTime) := by
  refine ⟨?_, fun pre op srv _ e hop => ((store_create serverId).run e).isSome_step host hop, ?_⟩
  · intro pre srv _ e
    have h := (store_create serverId).run e
    refine ⟨fun mc hmc => (h.awake mc hmc).2.key, ?_, fun mc hmc =>
      ⟨(h.asleep mc hmc).1.alive, (h.asleep mc hmc).1.status⟩⟩
    -- two of one remote would not be in order
    refine List.Pairwise.imp_of_mem (fun {a b} ha hb hlt => ?_) h.sorted
    refine Bool.eq_false_iff.mpr fun hsame => ?_
    rw [h.remotes a ha b hb hsame, (equiv_iff.mpr rfl).1] at hlt
    cases hlt
  · intro pre op post srv srv₁ srv' hpre e e₁ e' ptr hptr hptr'
    obtain ⟨mc, hmc, hmcptr⟩ := List.mem_map.mp hptr
    obtain ⟨mc', hmc', hmcptr'⟩ := List.mem_map.mp hptr'
    have hstore := (store_create serverId).run e
    -- it has slept for no time when it is put there
    have hzero := sleptFor_zero hstore e₁ hmc hmcptr hmc' hmcptr'
    have hrun : (pre ++ [op]).foldlM (step host) (create serverId) = some srv₁ :=
      Run.foldlM_concat.mpr ⟨srv, e, e₁⟩
    have hslept := hzero.run (hstore.step e₁) (fun pre' op' s hpre' hs =>
      hwrap (pre ++ [op] ++ pre') op' s (by
        refine List.IsPrefix.trans ?_ hpre
        rw [List.append_assoc, List.append_assoc, List.prefix_append_right_inj]
        exact (List.prefix_cons_inj op).mpr hpre') (by
        rw [List.foldlM_append, hrun]
        exact hs)) e'
    rw [Nat.zero_add] at hslept
    exact hslept.asleep_iff

/-- A remote is accepted and closed, and the session, which sleeps for 5999 milliseconds, is
gone one later. -/
theorem store_holds_of_four :
    let host : Host := { check := fun _ current => current, dataHandler := none, erased := some }
    let ops : List Op := [.receive ⟨2, 4000, 7⟩ ⟨.connecting, 0, 0⟩ .connect,
      .closeSession (newConv 1 3) false, .update 5999, .update 1]
    let asleep (srv : SocketServer) := srv.sleepSessions.map fun mc => mc.2.ptr
    (((ops.take 3).foldlM (step host) (create 3)).map asleep = some [0] ∧
      (ops.foldlM (step host) (create 3)).map asleep = some []) ∧
    (∀ pre srv, pre <+: ops → pre.foldlM (step host) (create 3) = some srv →
      (∀ mc ∈ srv.sessions, mc.1 = mc.2.conv) ∧
      srv.sessions.Pairwise (fun a b => a.2.addr.same b.2.addr = false) ∧
      ∀ mc ∈ srv.sleepSessions, mc.2.session.members.alive = false ∧
        mc.2.session.members.status = .disconnected) ∧
    (∀ pre op srv, pre ++ [op] <+: ops → pre.foldlM (step host) (create 3) = some srv →
      op.Plain srv → (step host srv op).isSome) ∧
    ∀ pre op post srv srv₁ srv', pre ++ op :: post <+: ops →
      pre.foldlM (step host) (create 3) = some srv → step host srv op = some srv₁ →
      post.foldlM (step host) srv₁ = some srv' →
      ∀ ptr, ptr ∈ srv.sessions.map (fun mc => mc.2.ptr) →
        ptr ∈ srv₁.sleepSessions.map (fun mc => mc.2.ptr) →
        (ptr ∈ srv'.sleepSessions.map (fun mc => mc.2.ptr) ↔
          (post.map Op.elapsed).sum < sessionKeepAliveTime) := by
  intro host ops asleep
  have hshort : ∀ op ∈ ops, sessionKeepAliveTime + op.elapsed ≤ 2 ^ 32 := by decide
  refine ⟨⟨rfl, rfl⟩, store_holds host 3 ops fun pre op srv hpre e => ?_⟩
  exact ((store_create 3).run e).noWrap
    (hshort op (hpre.subset (List.mem_append_right pre List.mem_cons_self)))

end SocketServer

end PCGForUnity
