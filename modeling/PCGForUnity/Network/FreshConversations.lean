/-
PCGForUnity/Network/FreshConversations.lean

The conversations that `OnAccept` gives out.  In a run of the server

    every session accepted is fresh
      ↔  no accept finds one kept that was accepted a multiple of 2 ^ 16 accepts before

(`accepts_fresh_iff`), where a fresh session has a conversation that no other one has, is in
`m_mSessions`, and is the one that is found for its remote.

Design.  The counter has sixteen bits, so a conversation comes again every `2 ^ 16` accepts.
Sessions carry the number of their accept (`ptr`), from which `Made` tells their
conversation: two have the same one exactly if their numbers are congruent.  What goes wrong
then is that `std::map::insert` keeps the old entry.

That the condition is not always met takes a run of `2 ^ 16` accepts with all sessions but
the first closed; it is built by induction (`KeepsFirst`), not written down.
-/
import PCGForUnity.Network.SessionStore

namespace PCGForUnity

namespace SocketServer

variable {host : Host} {srv srv₁ : SocketServer} {remote : SockAddr} {unset : Unset}

/-! ### Conversations -/

theorem toNat_newConv (clientConv serverId : UInt16) :
    (newConv clientConv serverId).toNat = clientConv.toNat * 2 ^ 16 + serverId.toNat := by
  have hc := clientConv.toNat_lt
  have hs := serverId.toNat_lt
  rw [newConv, UInt32.toNat_add, UInt32.toNat_shiftLeft]
  simp only [UInt16.toNat_toUInt32, Nat.shiftLeft_eq]
  show (clientConv.toNat * 2 ^ 16 % 2 ^ 32 + serverId.toNat) % 2 ^ 32 = _
  omega

/-- Two accepts give the same conversation when their numbers agree in sixteen bits. -/
theorem newConv_ofNat_eq_iff {m n : ℕ} {serverId : UInt16} :
    newConv (UInt16.ofNat (m + 1)) serverId = newConv (UInt16.ofNat (n + 1)) serverId ↔
      m % 2 ^ 16 = n % 2 ^ 16 := by
  have hofNat (k : ℕ) : (UInt16.ofNat (k + 1)).toNat = (k + 1) % 2 ^ 16 := UInt16.toNat_ofNat'
  rw [← UInt32.toNat_inj, toNat_newConv, toNat_newConv, hofNat, hofNat]
  omega

/-! ### An accept -/

/-- In the run `ops` the server takes a datagram for a connection of `remote`, in the
state `srv`, and accepts it as the session `ptr`, which leads to `srv₁`. -/
def AcceptsIn (host : Host) (serverId : UInt16) (ops : List Op) (srv : SocketServer)
    (remote : SockAddr) (srv₁ : SocketServer) (ptr : ℕ) : Prop :=
  ∃ pre unset d, pre ++ [.receive remote unset d] <+: ops ∧
    pre.foldlM (step host) (create serverId) = some srv ∧ d.bytes ≠ [] ∧
    srv.getSessionByRemote remote = none ∧
    srv.onAccept host remote unset d.bytes = some (srv₁, .accept ptr)

/-- The session accepted has a conversation of its own, is in the map, and is the one
found for its remote. -/
structure FreshlyAccepted (srv : SocketServer) (remote : SockAddr) (srv₁ : SocketServer)
    (ptr : ℕ) : Prop where
  conv_ne : ∀ mc, mc ∈ srv.sessions ∨ mc ∈ srv.sleepSessions →
    mc.2.conv ≠ newConv (srv.clientConv + 1) srv.serverId
  inserted : ∃ p, (newConv (srv.clientConv + 1) srv.serverId, p) ∈ srv₁.sessions ∧ p.ptr = ptr
  found : (srv₁.getSessionByRemote remote).map SessionPtr.ptr = some ptr

/-- No session is kept that was accepted a multiple of `2 ^ 16` accepts before. -/
def NoneOfThePeriod (srv : SocketServer) : Prop :=
  ∀ mc, mc ∈ srv.sessions ∨ mc ∈ srv.sleepSessions →
    (srv.accepts.length - mc.2.ptr) % 2 ^ 16 ≠ 0

theorem Store.made_of_mem (h : srv.Store) {mc : UInt32 × SessionPtr}
    (hmc : mc ∈ srv.sessions ∨ mc ∈ srv.sleepSessions) : srv.Made mc := by
  rcases hmc with hmc | hmc
  · exact (h.awake mc hmc).2
  · exact (h.asleep mc hmc).2.2

/-- A session has the conversation given out next when it is of the same turn. -/
theorem Store.conv_eq_next_iff (h : srv.Store) {mc : UInt32 × SessionPtr} (hm : srv.Made mc) :
    mc.2.conv = newConv (srv.clientConv + 1) srv.serverId ↔
      (srv.accepts.length - mc.2.ptr) % 2 ^ 16 = 0 := by
  have hnext : srv.clientConv + 1 = UInt16.ofNat (srv.accepts.length + 1) := by
    rw [h.counter]
    exact (UInt16.ofNat_add _ _).symm
  have hptr := hm.ptr
  rw [hm.conv, hnext, newConv_ofNat_eq_iff]
  omega

theorem getSessionByRemote_of_mem {conv : UInt32} {p : SessionPtr}
    (hmem : (conv, p) ∈ srv.sessions) (hsame : p.addr.same remote = true)
    (hunique : ∀ mc ∈ srv.sessions, mc.2.addr.same remote = true → mc = (conv, p)) :
    srv.getSessionByRemote remote = some p := by
  rw [getSessionByRemote, StdMap.find_of_unique hmem hsame hunique]
  rfl

/-- **An accept is fresh exactly if none of its period is kept.** -/
theorem Store.freshlyAccepted_iff (h : srv.Store) {bytes : List Byte} {ptr : ℕ}
    (hnone : srv.getSessionByRemote remote = none)
    (e : srv.onAccept host remote unset bytes = some (srv₁, .accept ptr)) :
    FreshlyAccepted srv remote srv₁ ptr ↔ NoneOfThePeriod srv := by
  constructor
  · intro hfresh mc hmc heq
    exact hfresh.conv_ne mc hmc ((h.conv_eq_next_iff (h.made_of_mem hmc)).mpr heq)
  · intro hperiod
    have hne : ∀ mc, mc ∈ srv.sessions ∨ mc ∈ srv.sleepSessions →
        mc.2.conv ≠ newConv (srv.clientConv + 1) srv.serverId := fun mc hmc heq =>
      hperiod mc hmc ((h.conv_eq_next_iff (h.made_of_mem hmc)).mp heq)
    obtain ⟨waiting, ⟨hno, -⟩ | hinsert⟩ := onAccept_cases e
    · exact absurd rfl (hno ptr)
    obtain ⟨p, hp, haddr, hsessions⟩ : ∃ p : SessionPtr, p.ptr = ptr ∧ p.addr = remote ∧
        srv₁.sessions = StdMap.insert convLess (newConv (srv.clientConv + 1) srv.serverId) p
          srv.sessions := by
      obtain ⟨rfl, hptr⟩ := Prod.mk.inj hinsert
      exact ⟨_, (Decision.accept.inj hptr).symm, rfl, rfl⟩
    have hmem : (newConv (srv.clientConv + 1) srv.serverId, p) ∈ srv₁.sessions := by
      rw [hsessions]
      refine StdMap.mem_insert_self fun mc hmc heq => ?_
      rw [equiv_iff, (h.awake mc hmc).2.key] at heq
      exact hne mc (Or.inl hmc) heq.symm
    refine ⟨hne, ⟨p, hmem, hp⟩, ?_⟩
    rw [getSessionByRemote_of_mem hmem (haddr ▸ SockAddr.same_self p.addr), Option.map_some, hp]
    intro mc hmc hsame
    rw [hsessions] at hmc
    rcases StdMap.mem_of_mem_insert hmc with rfl | hmc
    · rfl
    · rw [getSessionByRemote_eq_none.mp hnone mc hmc] at hsame
      cases hsame

/-- **Fresh conversations.**  In a run every session accepted is fresh exactly if no
accept finds one kept that was accepted a multiple of `2 ^ 16` accepts before. -/
theorem accepts_fresh_iff (host : Host) (serverId : UInt16) (ops : List Op) :
    (∀ srv remote srv₁ ptr, AcceptsIn host serverId ops srv remote srv₁ ptr →
      FreshlyAccepted srv remote srv₁ ptr) ↔
    ∀ srv remote srv₁ ptr, AcceptsIn host serverId ops srv remote srv₁ ptr →
      NoneOfThePeriod srv := by
  refine forall₄_congr fun srv remote srv₁ ptr => forall_congr' fun hin => ?_
  obtain ⟨pre, unset, d, -, hrun, -, hnone, haccept⟩ := hin
  exact ((store_create serverId).run hrun).freshlyAccepted_iff hnone haccept

/-! ### A conversation that comes again -/

/-- The datagram of `Connect` makes a session for a remote that is new. -/
theorem Store.step_connect (h : srv.Store) (hnone : srv.getSessionByRemote remote = none)
    (hwait : srv.getWaitingConnectSession remote = none) (unset : Unset) {d : UdpDatagram}
    (hd : d.bytes = acceptPackData) :
    SocketServer.step host srv (.receive remote unset d)
      = some (srv.acceptSession remote unset) := by
  have hpos : ¬ d.bytes.length ≤ 0 := by
    rw [hd]
    decide
  rw [SocketServer.step, readHandlerInternal, if_neg hpos, readHandler, hnone]
  show (srv.onAccept host remote unset d.bytes).bind _ = _
  rw [hd, onAccept_connect hwait]
  exact congrArg some (h.insertSession_onConnected remote unset)

/-- A remote that comes and goes leaves the sessions as they were. -/
theorem closeRemote_acceptSession (hnone : srv.getSessionByRemote remote = none)
    (hkeys : ∀ mc ∈ srv.sessions, mc.1 ≠ newConv (srv.clientConv + 1) srv.serverId) (unset : Unset) :
    ((srv.acceptSession remote unset).closeRemote remote).1 =
      { srv with
        clientConv := srv.clientConv + 1
        accepts := srv.accepts ++ [remote] } := by
  obtain ⟨p, haddr, hsessions⟩ : ∃ p : SessionPtr, p.addr = remote ∧
      (srv.acceptSession remote unset).sessions = StdMap.insert convLess
        (newConv (srv.clientConv + 1) srv.serverId) p srv.sessions := ⟨_, rfl, rfl⟩
  have hfind : (srv.acceptSession remote unset).sessions.find? (fun mc => mc.2.addr.same remote)
      = some (newConv (srv.clientConv + 1) srv.serverId, p) := by
    rw [hsessions]
    refine StdMap.find_of_unique ?_ (haddr ▸ SockAddr.same_self p.addr) fun mc hmc hsame => ?_
    · exact StdMap.mem_insert_self fun mc hmc heq => hkeys mc hmc (equiv_iff.mp heq).symm
    · rcases StdMap.mem_of_mem_insert hmc with rfl | hmc
      · rfl
      · rw [getSessionByRemote_eq_none.mp hnone mc hmc] at hsame
        cases hsame
  have hclose : ((srv.acceptSession remote unset).closeRemote remote).1 =
      { srv.acceptSession remote unset with
        sessions := StdMap.erase (newConv (srv.clientConv + 1) srv.serverId)
          (srv.acceptSession remote unset).sessions } := by
    rw [closeRemote, hfind]
    rfl
  rw [hclose, hsessions, StdMap.erase_insert hkeys]
  rfl

/-- Of `k` sessions accepted, the first is the only one kept. -/
structure KeepsFirst (first : UInt32 × SessionPtr) (k : ℕ) (srv : SocketServer) : Prop where
  store : srv.Store
  waiting : srv.waitingForConnections = []
  sessions : srv.sessions = [first]
  ptr : first.2.ptr = 0
  accepts : srv.accepts.length = k

/-- A remote is accepted and closed by its address. -/
def round (b : SockAddr) (unset : Unset) : List Op :=
  [.receive b unset .connect, .closeRemote b]

variable {first : UInt32 × SessionPtr} {b : SockAddr} {k : ℕ}

theorem KeepsFirst.getSessionByRemote (h : KeepsFirst first k srv)
    (hb : first.2.addr.same b = false) : srv.getSessionByRemote b = none := by
  refine getSessionByRemote_eq_none.mpr fun mc hmc => ?_
  rw [h.sessions] at hmc
  obtain rfl := List.mem_singleton.mp hmc
  exact hb

theorem KeepsFirst.getWaitingConnectSession (h : KeepsFirst first k srv) (b : SockAddr) :
    srv.getWaitingConnectSession b = none := by
  rw [SocketServer.getWaitingConnectSession, h.waiting]
  rfl

theorem KeepsFirst.round (h : KeepsFirst first k srv) (hb : first.2.addr.same b = false)
    (hk : k % 2 ^ 16 ≠ 0) (unset : Unset) :
    ∃ srv', (SocketServer.round b unset).foldlM (step host) srv = some srv' ∧
      KeepsFirst first (k + 1) srv' := by
  have hnone := h.getSessionByRemote hb
  have hkeys : ∀ mc ∈ srv.sessions, mc.1 ≠ newConv (srv.clientConv + 1) srv.serverId := by
    intro mc hmc heq
    have hmade := (h.store.awake mc hmc).2
    rw [hmade.key, h.store.conv_eq_next_iff hmade] at heq
    rw [h.sessions] at hmc
    obtain rfl := List.mem_singleton.mp hmc
    rw [h.ptr, h.accepts, Nat.sub_zero] at heq
    exact hk heq
  have hrun : (SocketServer.round b unset).foldlM (step host) srv = some { srv with
      clientConv := srv.clientConv + 1
      accepts := srv.accepts ++ [b] } := by
    rw [SocketServer.round, List.foldlM_cons,
      h.store.step_connect hnone (h.getWaitingConnectSession b) unset rfl,
      ← closeRemote_acceptSession hnone hkeys unset]
    rfl
  refine ⟨_, hrun, h.store.run hrun, h.waiting, h.sessions, h.ptr, ?_⟩
  rw [List.length_append, h.accepts]
  rfl

theorem KeepsFirst.rounds (h : KeepsFirst first 1 srv) (hb : first.2.addr.same b = false)
    (unset : Unset) {n : ℕ} (hn : n < 2 ^ 16) :
    ∃ srv', (List.replicate n (SocketServer.round b unset)).flatten.foldlM (step host) srv
        = some srv' ∧ KeepsFirst first (n + 1) srv' := by
  induction n with
  | zero => exact ⟨srv, rfl, h⟩
  | succ n ih =>
      obtain ⟨srv₁, hrun, h₁⟩ := ih (Nat.lt_of_succ_lt hn)
      obtain ⟨srv₂, hround, h₂⟩ := h₁.round hb (by omega) unset
      refine ⟨srv₂, ?_, h₂⟩
      rw [List.replicate_succ', List.flatten_append, List.foldlM_append, hrun, List.flatten_cons,
        List.flatten_nil, List.append_nil]
      exact hround

/-- A remote that stays while `n` others come and go, up to the end of a period. -/
theorem not_fresh_after_period (host : Host) (unset : Unset) {a b c : SockAddr}
    (hab : a.same b = false) (hac : a.same c = false) {n : ℕ} (hn : n + 1 = 2 ^ 16) :
    ¬ ∀ srv remote srv₁ ptr, AcceptsIn host 0 (.receive a unset .connect ::
        (List.replicate n (round b unset)).flatten ++ [.receive c unset .connect])
        srv remote srv₁ ptr → FreshlyAccepted srv remote srv₁ ptr := by
  intro hall
  have hfirst : step host (create 0) (.receive a unset .connect)
      = some ((create 0).acceptSession a unset) := (store_create 0).step_connect rfl rfl unset rfl
  have hkeeps : KeepsFirst _ 1 ((create 0).acceptSession a unset) :=
    ⟨(store_create 0).step hfirst, rfl, rfl, rfl, rfl⟩
  obtain ⟨srv, hrounds, h⟩ := hkeeps.rounds hab unset (by omega : n < 2 ^ 16)
  have hrun : (Op.receive a unset .connect ::
      (List.replicate n (round b unset)).flatten).foldlM (step host) (create 0) = some srv := by
    rw [List.foldlM_cons, hfirst]
    exact hrounds
  have hnone : srv.getSessionByRemote c = none := h.getSessionByRemote hac
  have haccept : srv.onAccept host c unset acceptPackData = some (srv.insertSession c unset) :=
    onAccept_connect (h.getWaitingConnectSession c) unset
  have hfresh := hall srv c _ _ ⟨_, unset, .connect, List.prefix_rfl, hrun,
    List.cons_ne_nil _ _, hnone, haccept⟩
  refine (h.store.freshlyAccepted_iff hnone haccept).mp hfresh _
    (Or.inl (h.sessions ▸ List.mem_cons_self)) ?_
  rw [h.ptr, h.accepts, Nat.sub_zero, hn, Nat.mod_self]

/-- One remote stays, and 65,535 others come and go: the next one is given the
conversation of the first. -/
theorem conversation_given_again :
    let host : Host := { check := fun _ current => current, dataHandler := none, erased := some }
    let unset : Unset := ⟨.connecting, 0, 0⟩
    let ops : List Op := .receive ⟨2, 4000, 7⟩ unset .connect ::
      (List.replicate 65535 (round ⟨2, 4000, 8⟩ unset)).flatten ++
        [.receive ⟨2, 4000, 9⟩ unset .connect]
    ¬ ∀ srv remote srv₁ ptr, AcceptsIn host 0 ops srv remote srv₁ ptr →
      FreshlyAccepted srv remote srv₁ ptr :=
  not_fresh_after_period _ _ rfl rfl (by decide)

end SocketServer

end PCGForUnity
