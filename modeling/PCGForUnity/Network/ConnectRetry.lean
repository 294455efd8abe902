/-
PCGForUnity/Network/ConnectRetry.lean

The datagram of `KcpClient::Connect`, which `Update` sends again, at a server that has
accepted the client already.  On a schedule of deliveries of the datagram from one remote,
among whatever the others do,

    the remote is accepted once and keeps its session
      ↔  the delivery that finds no session finds none kept under the conversation it gives,
         and each that finds one finds one with conversation 4

(`connect_once_iff`; the condition is `DeliversHarmlessly`).

The datagram begins with the size of its payload, 4, and a session reads that as the server
id and the conversation it is for.  So a copy does no harm exactly to the sessions whose
conversation is 4.

Design.  `Connecting` is what holds while no delivery did harm: the session that was accepted
stands in the map, and nothing else was accepted for its remote.  Other remotes may do what
they like, and the invariant of the store (`SessionStore`) keeps them apart.
-/
import PCGForUnity.Network.AcceptDecisions
import PCGForUnity.Network.FreshConversations
import PCGForUnity.Network.KcpClient

namespace PCGForUnity

/-- The message that closes a session for the client. -/
def criticalError : List Byte := ({ size := 0, command := s2cCriticalError } : PacketHeader).toBytes

namespace KcpClient

/-! ### The datagram -/

/-- `Update` sends the same datagram again, or none. -/
theorem requests_update (check : Ikcpcb → ℕ → ℕ) (reached : Bool) (c : KcpClient) (diff : ℤ) :
    (c.update check reached diff).members.requests = c.members.requests ∨
      (c.update check reached diff).members.requests = c.members.requests ++ [acceptPackData] := by
  have hsend (m : ClientMembers) (buff : List Byte) (immediately : Bool) :
      (send m buff immediately).requests = m.requests := by
    rw [send]
    split <;> rfl
  rw [update]
  simp only
  split
  · split
    · split
      · split
        · left
          rw [onConnectFailed, onResponse]
          split <;> rfl
        · exact Or.inr rfl
      · exact Or.inl rfl
    · exact Or.inl rfl
  · left
    split
    · rfl
    · rw [heartBeat]
      split
      · exact hsend _ _ _
      · rfl

end KcpClient

namespace KcpSession

variable {s : KcpSession} {serverId : UInt16} {dataHandler : Option DataHandler}

/-- Nothing complete waits in KCP, and the client was not told of an error. -/
def Quiet (s : KcpSession) : Prop :=
  s.members.kcp.rcvQueue = [] ∧ criticalError ∉ s.members.sent

theorem quiet_accepted (clientConv : UInt16) (addr : SockAddr) (status : SessionStatus)
    (tick needUpdateTime : ℕ) :
    (accepted clientConv serverId addr status tick needUpdateTime).Quiet := by
  refine ⟨rfl, fun h => ?_⟩
  have heq := List.mem_singleton.mp h
  cases congrArg List.length heq

theorem Quiet.updated (h : s.Quiet) (check : Ikcpcb → ℕ → ℕ) (diff : ℕ) :
    (s.updated check diff).Quiet := by
  rw [KcpSession.updated]
  split
  · exact ⟨(KcpClock.update_kcp check _ diff).2.trans h.1, h.2⟩
  · exact h

/-- Four, the size of the payload, is the server id 4 and the conversation 4. -/
theorem onReceive_connect (hq : s.members.kcp.rcvQueue = []) {d : UdpDatagram}
    (hd : d.bytes = acceptPackData) :
    s.onReceive serverId dataHandler d.toKcp = some
      (if serverId = 4 ∧ s.members.sessionId.conv = 4 then s
      else if serverId = 4 then s.closeSession false
      else (s.send criticalError true).closeSession false) := by
  have hconv : d.toKcp = ⟨4, []⟩ := by
    rw [UdpDatagram.toKcp, d.short (by rw [hd]; decide), d.conv_eq (by rw [hd]; decide), hd]
    rfl
  have hserver : (4 : UInt32) &&& 0xffff = serverId.toUInt32 ↔ serverId = 4 := by
    rw [← UInt32.toNat_inj, ← UInt16.toNat_inj]
    exact eq_comm
  rw [hconv, onReceive]
  by_cases hs : serverId = 4
  · rw [if_neg (not_not.mpr (hserver.mpr hs))]
    by_cases hc : s.members.sessionId.conv = 4
    · rw [if_neg (not_not.mpr hc), if_pos ⟨hs, hc⟩]
      rw [receive_nothing hq]
      rfl
    · rw [if_pos hc, if_neg (fun h => hc h.2), if_pos hs]
  · rw [if_pos (fun h => hs (hserver.mp h)), if_neg (fun h => hs h.1), if_neg hs]
    rfl

end KcpSession

namespace SocketServer

variable {host : Host} {srv srv' : SocketServer} {remote addr : SockAddr} {unset : Unset}

/-! ### Copies of the datagram -/

/-- Of the operations the remote has a part in only the deliveries of the datagram,
and no session is closed from outside. -/
def OnlyConnects (remote : SockAddr) : Op → Prop
  | .receive addr _ d => addr.same remote = true → d.bytes = acceptPackData
  | .update _ => True
  | .closeRemote _ => False
  | .closeSession _ _ => False

/-- Since the server made `n` sessions it accepted the remote at most once, and if it
did, that session is the one it has for the remote, and was not told of an error. -/
def ConnectedOnce (n : ℕ) (remote : SockAddr) (srv : SocketServer) : Prop :=
  (srv.accepts.drop n).countP (fun a => a.same remote) = 0 ∨
    (srv.accepts.drop n).countP (fun a => a.same remote) = 1 ∧
      ∃ mc ∈ srv.sessions, mc.2.addr.same remote = true ∧
        (∀ mc' ∈ srv.sessions, mc'.2.addr.same remote = true → mc' = mc) ∧
        criticalError ∉ mc.2.session.members.sent

/-- The first delivery finds no session of the same period of conversations, and at
every later one the server id is 4 and the conversation is the last of a period. -/
def DeliversHarmlessly (remote : SockAddr) (srv : SocketServer) : Op → Prop
  | .receive addr _ _ => addr.same remote = true →
      match srv.getSessionByRemote remote with
      | none => ∀ mc ∈ srv.sessions, (srv.accepts.length - mc.2.ptr) % 2 ^ 16 ≠ 0
      | some p => srv.serverId = 4 ∧ (p.ptr + 1) % 2 ^ 16 = 0
  | _ => True

/-- A session for the remote that no delivery did harm to. -/
def HasQuiet (remote : SockAddr) (srv : SocketServer) : Prop :=
  ∃ mc ∈ srv.sessions, mc.2.addr.same remote = true ∧ mc.2.session.Quiet

/-- What holds while no delivery did harm. -/
structure Connecting (n : ℕ) (remote : SockAddr) (srv : SocketServer) : Prop where
  store : srv.Store
  length : n ≤ srv.accepts.length
  cases : (srv.accepts.drop n).countP (fun a => a.same remote) = 0 ∧
      srv.getSessionByRemote remote = none ∧ srv.getWaitingConnectSession remote = none ∨
    (srv.accepts.drop n).countP (fun a => a.same remote) = 1 ∧ HasQuiet remote srv

variable {n : ℕ}

theorem Connecting.connectedOnce (h : Connecting n remote srv) : ConnectedOnce n remote srv := by
  rcases h.cases with ⟨hcount, -⟩ | ⟨hcount, mc, hmc, hsame, hquiet⟩
  · exact Or.inl hcount
  · refine Or.inr ⟨hcount, mc, hmc, hsame, fun mc' hmc' hsame' => ?_, hquiet.2⟩
    refine h.store.remotes mc' hmc' mc hmc ?_
    rw [SockAddr.same_congr hsame]
    exact hsame'

/-- A conversation of four. -/
theorem conv_eq_four_iff {mc : UInt32 × SessionPtr} (h : srv.Made mc) :
    mc.2.conv = 4 ↔ srv.serverId = 4 ∧ (mc.2.ptr + 1) % 2 ^ 16 = 0 := by
  have hofNat : (UInt16.ofNat (mc.2.ptr + 1)).toNat = (mc.2.ptr + 1) % 2 ^ 16 := UInt16.toNat_ofNat'
  have hs := srv.serverId.toNat_lt
  rw [h.conv, ← UInt32.toNat_inj, ← UInt16.toNat_inj, toNat_newConv, hofNat]
  show _ = 4 ↔ _ = 4 ∧ _
  omega

/-- Accepts of other remotes do not count. -/
theorem countP_accepts (hlen : n ≤ srv.accepts.length) (addr : SockAddr) :
    ((srv.accepts ++ [addr]).drop n).countP (fun a => a.same remote)
      = (srv.accepts.drop n).countP (fun a => a.same remote)
        + if addr.same remote then 1 else 0 := by
  rw [List.drop_append_of_le_length hlen, List.countP_append, List.countP_singleton]

/-- Settling another session leaves an entry. -/
theorem mem_settle_of_ne {conv : UInt32} {p : SessionPtr} {mc : UInt32 × SessionPtr}
    (hmc : mc ∈ srv.sessions) (hne : mc.1 ≠ conv) : mc ∈ (srv.settle conv p).sessions := by
  rw [settle]
  split
  · exact List.mem_map.mpr ⟨mc, hmc, if_neg hne⟩
  · exact StdMap.mem_erase.mpr ⟨hmc, hne⟩
  · exact StdMap.mem_erase.mpr ⟨hmc, hne⟩

/-- What the others do, and time, leaves the session of the remote and makes none. -/
theorem Store.quiet_other (h : srv.Store) (hlen : n ≤ srv.accepts.length) {op : Op}
    (hop : OnlyConnects remote op)
    (hother : ∀ addr unset d, op = .receive addr unset d → addr.same remote = false)
    (e : SocketServer.step host srv op = some srv') :
    n ≤ srv'.accepts.length ∧
      (srv'.accepts.drop n).countP (fun a => a.same remote)
        = (srv.accepts.drop n).countP (fun a => a.same remote) ∧
      (HasQuiet remote srv → HasQuiet remote srv') := by
  cases op with
  | receive addr unset d =>
      have haddr := hother addr unset d rfl
      rw [SocketServer.step, readHandlerInternal] at e
      split at e
      · obtain rfl := Option.some.inj e
        exact ⟨hlen, rfl, id⟩
      · rcases readHandler_cases h e with ⟨-, waiting, rfl | rfl⟩ | ⟨p, session, hfind, hmem, -, rfl⟩
        · exact ⟨hlen, rfl, id⟩
        · refine ⟨?_, ?_, ?_⟩
          · show n ≤ (srv.accepts ++ [addr]).length
            rw [List.length_append]
            exact Nat.le_add_right_of_le hlen
          · show ((srv.accepts ++ [addr]).drop n).countP (fun a => a.same remote) = _
            rw [countP_accepts hlen, haddr]
            rfl
          · rintro ⟨mc, hmc, hquiet⟩
            exact ⟨mc, StdMap.mem_insert_of_mem hmc, hquiet⟩
        · rw [(settle_members srv p.conv _).1]
          refine ⟨hlen, rfl, ?_⟩
          rintro ⟨mc, hmc, hsame, hquiet⟩
          refine ⟨mc, mem_settle_of_ne hmc ?_, hsame, hquiet⟩
          -- the session that receives is the one of the other remote
          intro hkey
          obtain rfl := h.eq_of_conv hmc hmem hkey
          obtain ⟨conv, -, hp⟩ := getSessionByRemote_eq_some hfind
          rw [SockAddr.same_comm, SockAddr.same_congr hp, SockAddr.same_comm] at hsame
          rw [haddr] at hsame
          cases hsame
  | update diff =>
      rw [SocketServer.step, h.update_eq] at e
      obtain rfl := Option.some.inj e
      refine ⟨hlen, rfl, ?_⟩
      rintro ⟨mc, hmc, hsame, hquiet⟩
      refine ⟨updatedEntry host diff mc, List.mem_map_of_mem hmc, ?_,
        hquiet.updated host.check diff⟩
      rw [addr_updatedEntry]
      exact hsame
  | closeRemote client => exact hop.elim
  | closeSession session remove => exact hop.elim

theorem Connecting.step_other (h : Connecting n remote srv) {op : Op}
    (hop : OnlyConnects remote op)
    (hother : ∀ addr unset d, op = .receive addr unset d → addr.same remote = false)
    (e : step host srv op = some srv') : Connecting n remote srv' := by
  obtain ⟨hlen, hcount, hkeep⟩ := h.store.quiet_other h.length hop hother e
  refine ⟨h.store.step e, hlen, ?_⟩
  rw [hcount]
  rcases h.cases with ⟨hzero, hnone, hwait⟩ | ⟨hone, hquiet⟩
  · exact Or.inl ⟨hzero, h.store.getSessionByRemote_other hnone hother e,
      (h.store.getWaiting_other hother e).trans hwait⟩
  · exact Or.inr ⟨hone, hkeep hquiet⟩

/-! ### The first delivery -/

/-- The datagram of a remote that has no session makes one, in the maps if the
conversation is new. -/
theorem Connecting.step_first (h : Connecting n remote srv) (hsame : addr.same remote = true)
    (hzero : (srv.accepts.drop n).countP (fun a => a.same remote) = 0)
    (hnone : srv.getSessionByRemote remote = none)
    (hwait : srv.getWaitingConnectSession remote = none) (unset : Unset) {d : UdpDatagram}
    (hd : d.bytes = acceptPackData) :
    ∃ srv', step host srv (.receive addr unset d) = some srv' ∧
      ((∀ mc ∈ srv.sessions, (srv.accepts.length - mc.2.ptr) % 2 ^ 16 ≠ 0) →
        Connecting n remote srv') ∧
      ((¬ ∀ mc ∈ srv.sessions, (srv.accepts.length - mc.2.ptr) % 2 ^ 16 ≠ 0) →
        ¬ ConnectedOnce n remote srv') := by
  have hstep : step host srv (.receive addr unset d) = some (srv.acceptSession addr unset) :=
    h.store.step_connect ((getSessionByRemote_congr hsame).trans hnone)
      ((getWaiting_congr hsame).trans hwait) unset hd
  have hcount : ((srv.acceptSession addr unset).accepts.drop n).countP (fun a => a.same remote)
      = 1 := by
    show ((srv.accepts ++ [addr]).drop n).countP (fun a => a.same remote) = 1
    rw [countP_accepts h.length, hzero, hsame]
    rfl
  obtain ⟨p, haddr, hquiet, hsessions⟩ : ∃ p : SessionPtr, p.addr = addr ∧ p.session.Quiet ∧
      (srv.acceptSession addr unset).sessions = StdMap.insert convLess
        (newConv (srv.clientConv + 1) srv.serverId) p srv.sessions :=
    ⟨_, rfl, KcpSession.quiet_accepted _ _ _ _ _, rfl⟩
  refine ⟨_, hstep, fun hfresh => ?_, fun hold hgood => ?_⟩
  · refine ⟨h.store.step hstep, ?_, Or.inr ⟨hcount,
      (newConv (srv.clientConv + 1) srv.serverId, p), ?_, haddr ▸ hsame, hquiet⟩⟩
    · show n ≤ (srv.accepts ++ [addr]).length
      rw [List.length_append]
      exact Nat.le_add_right_of_le h.length
    · rw [hsessions]
      refine StdMap.mem_insert_self fun mc hmc heq => ?_
      have hmade := (h.store.awake mc hmc).2
      rw [equiv_iff, hmade.key] at heq
      exact hfresh mc hmc ((h.store.conv_eq_next_iff hmade).mp heq.symm)
  · -- the old session of that conversation stays, and the new one is in no map
    obtain ⟨mc, hmc, hperiod⟩ := not_forall₂.mp hold
    have hmade := (h.store.awake mc hmc).2
    have hkey : mc.1 = newConv (srv.clientConv + 1) srv.serverId :=
      hmade.key.trans ((h.store.conv_eq_next_iff hmade).mpr (not_not.mp hperiod))
    rw [StdMap.Sorted.insert_of_equiv convLess_strictWeak h.store.sorted hmc
      (equiv_iff.mpr hkey)] at hsessions
    rcases hgood with hcount' | ⟨-, mc', hmc', hsame', -⟩
    · rw [hcount] at hcount'
      cases hcount'
    · rw [hsessions] at hmc'
      rw [getSessionByRemote_eq_none.mp hnone mc' hmc'] at hsame'
      cases hsame'

/-! ### Later deliveries -/

/-- A copy leaves the session alone if the conversation is 4, and else closes it. -/
theorem Connecting.step_again (h : Connecting n remote srv) (hsame : addr.same remote = true)
    (hone : (srv.accepts.drop n).countP (fun a => a.same remote) = 1)
    (hquiet : HasQuiet remote srv) (unset : Unset) {d : UdpDatagram}
    (hd : d.bytes = acceptPackData) :
    ∃ srv' p, srv.getSessionByRemote remote = some p ∧
      step host srv (.receive addr unset d) = some srv' ∧
      (srv.serverId = 4 ∧ (p.ptr + 1) % 2 ^ 16 = 0 → Connecting n remote srv') ∧
      (¬ (srv.serverId = 4 ∧ (p.ptr + 1) % 2 ^ 16 = 0) → ¬ ConnectedOnce n remote srv') := by
  obtain ⟨⟨conv, p⟩, hmem, hp, hq⟩ := hquiet
  obtain ⟨hawake, hmade⟩ := h.store.awake _ hmem
  -- the session is stored under its conversation, and is the only one of the remote
  obtain rfl : conv = p.conv := hmade.key
  have hunique : ∀ mc ∈ srv.sessions, mc.2.addr.same remote = true → mc = (p.conv, p) := by
    intro mc hmc hmcsame
    refine h.store.remotes mc hmc _ hmem ?_
    rw [SockAddr.same_congr hp]
    exact hmcsame
  have hfind := getSessionByRemote_of_mem hmem hp hunique
  have hpos : ¬ d.bytes.length ≤ 0 := by
    rw [hd]
    decide
  have hstep {session : KcpSession} (hrecv : p.session.onReceive srv.serverId host.dataHandler
      d.toKcp = some session) : step host srv (.receive addr unset d)
        = some (srv.settle p.conv { p with session }) := by
    rw [step, readHandlerInternal, if_neg hpos, readHandler,
      (getSessionByRemote_congr hsame).trans hfind]
    show (p.session.onReceive srv.serverId host.dataHandler d.toKcp).bind _ = _
    rw [hrecv]
    rfl
  have hrecv : p.session.onReceive srv.serverId host.dataHandler d.toKcp = some _ :=
    KcpSession.onReceive_connect hq.1 hd
  have hfour : p.session.members.sessionId.conv = 4 ↔
      srv.serverId = 4 ∧ (p.ptr + 1) % 2 ^ 16 = 0 := conv_eq_four_iff hmade
  refine ⟨_, p, hfind, hstep hrecv, fun hok => ?_, fun hbad hgood => ?_⟩
  · -- the session takes the datagram for one of its own, with nothing in it
    refine ⟨h.store.step (hstep hrecv), ?_, Or.inr ⟨?_, (p.conv, p), ?_, hp, hq⟩⟩
    · rw [(settle_members srv p.conv _).1]
      exact h.length
    · rw [(settle_members srv p.conv _).1]
      exact hone
    · rw [if_pos ⟨hok.1, hfour.mpr hok⟩, settle, hawake.place]
      exact List.mem_map.mpr ⟨(p.conv, p), hmem, if_pos rfl⟩
  · -- the session is put to sleep, and it was the only one
    have hplace : ∀ s : KcpSession, s.members.place = .sessions →
        (s.closeSession false).members.place = .sleepSessions := by
      intro s hs
      rw [KcpSession.closeSession_of_sessions hs]
      exact KcpSession.closed_place hs
    rw [if_neg fun hok => hbad (hfour.mp hok.2)] at hgood
    rcases hgood with hcount | ⟨-, mc, hmc, hmcsame, -⟩
    · rw [(settle_members srv p.conv _).1, hone] at hcount
      cases hcount
    · rcases mem_settle hmc with ⟨-, hsessions⟩ | ⟨hmc, hkey⟩
      · split at hsessions
        · rw [hplace _ hawake.place] at hsessions
          cases hsessions
        · rw [hplace (p.session.send criticalError true) hawake.place] at hsessions
          cases hsessions
      · exact hkey (congrArg Prod.fst (hunique mc hmc hmcsame))

/-! ### Runs -/

/-- **Connecting is idempotent exactly for the conversation 4.**  On a schedule of
deliveries of the datagram from one remote, among whatever the others do, the remote
is accepted once and keeps its session exactly if the first delivery finds no session
of the same period, and the later ones the server id 4 and the last conversation of a
period. -/
theorem connect_once_iff (host : Host) (serverId : UInt16) (ops₀ ops : List Op)
    (srv₀ : SocketServer) (remote : SockAddr)
    (hrun₀ : ops₀.foldlM (step host) (create serverId) = some srv₀)
    (hsession : srv₀.getSessionByRemote remote = none)
    (hwaits : srv₀.getWaitingConnectSession remote = none)
    (hops : ∀ op ∈ ops, OnlyConnects remote op) :
    (∀ pre srv, pre <+: ops → pre.foldlM (step host) srv₀ = some srv →
      ConnectedOnce srv₀.accepts.length remote srv) ↔
    ∀ pre op srv, pre ++ [op] <+: ops → pre.foldlM (step host) srv₀ = some srv →
      DeliversHarmlessly remote srv op := by
  have h₀ : Connecting srv₀.accepts.length remote srv₀ :=
    ⟨(store_create serverId).run hrun₀, le_rfl,
      Or.inl ⟨by rw [List.drop_length]; rfl, hsession, hwaits⟩⟩
  refine Run.forall_prefix_iff (step host) (Connecting srv₀.accepts.length remote) _
    (OnlyConnects remote) (DeliversHarmlessly remote) (fun _ h => h.connectedOnce) ?_ ?_ h₀ hops
  · intro srv op srv' h hop hok e
    by_cases hown : ∃ addr unset d, op = .receive addr unset d ∧ addr.same remote = true
    · obtain ⟨addr, unset, d, rfl, hsame⟩ := hown
      have hd : d.bytes = acceptPackData := hop hsame
      have hok' := hok hsame
      rcases h.cases with ⟨hzero, hnone, hwait⟩ | ⟨hone, hquiet⟩
      -- the first delivery
      · obtain ⟨srv₁, e₁, hgood, -⟩ := h.step_first hsame hzero hnone hwait unset hd
        obtain rfl := Option.some.inj (e₁.symm.trans e)
        rw [hnone] at hok'
        exact hgood hok'
      -- a copy of it, or a retry
      · obtain ⟨srv₁, p, hfind, e₁, hgood, -⟩ := h.step_again hsame hone hquiet unset hd
        obtain rfl := Option.some.inj (e₁.symm.trans e)
        rw [hfind] at hok'
        exact hgood hok'
    · exact h.step_other hop (fun addr unset d hreceive => Bool.eq_false_iff.mpr fun hsame =>
        hown ⟨addr, unset, d, hreceive, hsame⟩) e
  · intro srv op h hop hbad
    -- only a delivery from the remote itself can be harmful
    cases op with
    | receive addr unset d =>
        obtain ⟨hsame, hbad⟩ := Classical.not_imp.mp hbad
        have hd : d.bytes = acceptPackData := hop hsame
        rcases h.cases with ⟨hzero, hnone, hwait⟩ | ⟨hone, hquiet⟩
        · obtain ⟨srv₁, e₁, -, hno⟩ := h.step_first hsame hzero hnone hwait unset hd
          rw [hnone] at hbad
          exact ⟨srv₁, e₁, hno hbad⟩
        · obtain ⟨srv₁, p, hfind, e₁, -, hno⟩ := h.step_again hsame hone hquiet unset hd
          rw [hfind] at hbad
          exact ⟨srv₁, e₁, hno hbad⟩
    | update diff => exact absurd trivial hbad
    | closeRemote client => exact absurd trivial hbad
    | closeSession session remove => exact absurd trivial hbad

/-- With the server id 0 the second delivery closes the session the first one made. -/
theorem second_delivery_closes :
    let host : Host := { check := fun _ current => current, dataHandler := none, erased := some }
    let ops : List Op := [.receive ⟨2, 4000, 7⟩ ⟨.connecting, 0, 0⟩ .connect,
      .receive ⟨2, 4000, 7⟩ ⟨.connecting, 0, 0⟩ .connect]
    ¬ ∀ pre srv, pre <+: ops → pre.foldlM (step host) (create 0) = some srv →
      ConnectedOnce 0 ⟨2, 4000, 7⟩ srv := by
  intro host ops hall
  have hrun : (ops.foldlM (step host) (create 0)).map
      (fun srv => (srv.sessions.length, srv.accepts)) = some (0, [⟨2, 4000, 7⟩]) := by
    decide +kernel
  obtain ⟨srv, e, hsrv⟩ := Option.map_eq_some_iff.mp hrun
  obtain ⟨hsessions, haccepts⟩ := Prod.mk.inj hsrv
  rcases hall ops srv List.prefix_rfl e with hcount | ⟨-, mc, hmc, -⟩
  · rw [haccepts] at hcount
    cases hcount
  · rw [List.length_eq_zero_iff.mp hsessions] at hmc
    cases hmc

/-- The same schedule at the server of id 4. -/
theorem connect_once_of_two :
    let host : Host := { check := fun _ current => current, dataHandler := none, erased := some }
    let ops : List Op := [.receive ⟨2, 4000, 7⟩ ⟨.connecting, 0, 0⟩ .connect, .update 1000,
      .receive ⟨2, 4000, 7⟩ ⟨.connecting, 0, 0⟩ .connect]
    (∀ pre srv, pre <+: ops → pre.foldlM (step host) (create 4) = some srv →
      ConnectedOnce 0 ⟨2, 4000, 7⟩ srv) ↔
    ∀ pre op srv, pre ++ [op] <+: ops → pre.foldlM (step host) (create 4) = some srv →
      DeliversHarmlessly ⟨2, 4000, 7⟩ srv op := by
  intro host ops
  refine connect_once_iff host 4 [] ops (create 4) ⟨2, 4000, 7⟩ rfl rfl rfl fun op hop => ?_
  rcases List.mem_cons.mp hop with rfl | hop
  · exact fun _ => rfl
  · rcases List.mem_cons.mp hop with rfl | hop
    · trivial
    · obtain rfl := List.mem_singleton.mp hop
      exact fun _ => rfl

end SocketServer

end PCGForUnity
