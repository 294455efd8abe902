/-
PCGForUnity/Network/AcceptDecisions.lean

What `OnAccept` decides about a remote, and what it should depend on: the datagrams of that
remote.  From a state in which the remote has no session and nothing waits of it

    the server decides on its datagrams as if they were alone, until it is accepted
      ↔  it never begins to wait while another port of its address does

(`decisions_own_iff`).

The bytes of an accept pack that did not come whole wait in a map whose order knows the
address of a remote only, and not its port.

Design.  `ownRun` is a server that sees the one remote alone: the bytes that wait of it, or
that it was accepted.  The server of a run is compared with it after every step.  What
`erase` leaves at its iterator is a parameter of the host, so the result does not depend on
it.  That a session once accepted is found first is the store's (`SessionStore`).
-/
import PCGForUnity.Network.SessionStore

namespace PCGForUnity

/-- A decision about a remote, without the session made. -/
inductive Verdict
  | accept
  | wait
  | reject
deriving DecidableEq, Repr

/-- A decision without the conversation that was accepted. -/
def Decision.verdict : Decision → Verdict
  | .accept _ => .accept
  | .wait => .wait
  | .reject => .reject

namespace SocketServer

/-- What the server decides on a datagram of a remote that has no session. -/
def verdict (host : Host) (srv : SocketServer) (remote : SockAddr) (unset : Unset)
    (bytes : List Byte) : Option Verdict :=
  (srv.onAccept host remote unset bytes).map fun r => r.2.verdict

/-! ### A remote on its own -/

/-- A server that has the bytes of one remote waiting, or none, and nothing else. -/
def alone (remote : SockAddr) (w : Option MessageBuffer) : SocketServer :=
  { create 0 with waitingForConnections := w.toList.map fun b => (remote, b) }

/-- What it does with a datagram of that remote, and what waits then. -/
def ownAccept (host : Host) (remote : SockAddr) (w : Option MessageBuffer) (bytes : List Byte) :
    Option (Option MessageBuffer × Verdict) :=
  ((alone remote w).onAccept host remote ⟨.disconnected, 0, 0⟩ bytes).map fun r =>
    (r.1.getWaitingConnectSession remote, r.2.verdict)

/-- The datagrams of `remote` are all that counts, until one is accepted. -/
def ownStep (host : Host) (remote : SockAddr) (w : Option MessageBuffer) :
    Op → Option (Option MessageBuffer)
  | .receive addr _ d =>
      if addr.same remote = true ∧ d.bytes ≠ [] then
        (ownAccept host remote w d.bytes).bind fun r =>
          if r.2 = .accept then none else some r.1
      else some w
  | _ => some w

/-- What waits of `remote` by its own datagrams, while none of them is accepted. -/
def ownRun (host : Host) (remote : SockAddr) (ops : List Op) : Option (Option MessageBuffer) :=
  ops.foldlM (ownStep host remote) none

variable {host : Host} {srv srv' : SocketServer} {remote addr : SockAddr} {unset : Unset}
  {bytes : List Byte} {w w' : Option MessageBuffer}

/-! ### What a decision depends on -/

/-- The judgement on a buffer of the right size. -/
def judged (bytes : List Byte) : Verdict := if acceptPack bytes then .accept else .reject

/-- The decision, by what waits. -/
def verdictOf (host : Host) : Option MessageBuffer → List Byte → Option Verdict
  | none, bytes =>
      if bytes.length > acceptPackData.length then some .reject
      else if bytes.length ≠ acceptPackData.length then some .wait
      else some (judged bytes)
  | some w, bytes =>
      (((w.ensureFreeSpace bytes.length).write bytes).bind host.erased).bind fun b =>
        if b.getActiveSize ≠ acceptPackData.length then some .reject
        else (b.readBytes b.getActiveSize).map judged

theorem judge_verdict (srv : SocketServer) (remote : SockAddr) (unset : Unset)
    (b : MessageBuffer) : (srv.judge remote unset b).map (fun r => r.2.verdict)
      = (b.readBytes b.getActiveSize).map judged := by
  rw [judge]
  cases b.readBytes b.getActiveSize with
  | none => rfl
  | some data =>
      show Option.map _ (if _ then _ else _) = some (judged data)
      rw [judged]
      cases acceptPack data <;> rfl

theorem verdict_eq (host : Host) (srv : SocketServer) (remote : SockAddr) (unset : Unset)
    (bytes : List Byte) : srv.verdict host remote unset bytes
      = verdictOf host (srv.getWaitingConnectSession remote) bytes := by
  rw [verdict]
  cases hw : srv.getWaitingConnectSession remote with
  | none =>
      obtain ⟨b, -, e⟩ := onAccept_of_not_waiting host hw unset bytes
      rw [e, verdictOf, judged]
      split
      · rfl
      · split
        · rfl
        · cases acceptPack bytes <;> rfl
  | some w =>
      rw [onAccept, hw, verdictOf]
      show Option.map _ (((w.ensureFreeSpace bytes.length).write bytes).bind fun b => _) = _
      rcases (w.ensureFreeSpace bytes.length).write bytes with - | b
      · rfl
      · show Option.map _ ((host.erased b).bind fun b => _) = (host.erased b).bind _
        rcases host.erased b with - | b'
        · rfl
        · show Option.map _ (if _ then _ else _) = if _ then _ else _
          split
          · rfl
          · exact judge_verdict _ _ _ _

/-- A remote of which bytes wait is accepted or rejected. -/
theorem verdictOf_some_ne_wait (w : MessageBuffer) (bytes : List Byte) :
    verdictOf host (some w) bytes ≠ some .wait := by
  rw [verdictOf]
  intro h
  obtain ⟨b, -, h⟩ := Option.bind_eq_some_iff.mp h
  split at h
  · cases h
  · obtain ⟨data, -, h⟩ := Option.map_eq_some_iff.mp h
    rw [judged] at h
    split at h <;> cases h

/-! ### What waits -/

theorem less_strictWeak : StdMap.StrictWeak SockAddr.less := by
  have hless : SockAddr.less = fun a b => decide (a.addr.toNat < b.addr.toNat) := by
    funext a b
    exact decide_eq_decide.mpr UInt32.lt_iff_toNat_lt
  rw [hless]
  exact StdMap.strictWeak_rank fun a : SockAddr => a.addr.toNat

/-- The order of the map does not know ports. -/
theorem equiv_less_iff {a b : SockAddr} : StdMap.Equiv SockAddr.less a b ↔ a.addr = b.addr := by
  have hless (a b : SockAddr) : a.less b = false ↔ b.addr.toNat ≤ a.addr.toNat := by
    rw [SockAddr.less, decide_eq_false_iff_not, UInt32.lt_iff_toNat_lt, Nat.not_lt]
  rw [StdMap.Equiv, hless, hless, ← UInt32.toNat_inj]
  omega

/-- What `OnAccept` does to the waiting bytes. -/
theorem onAccept_waiting {decision : Decision}
    (e : srv.onAccept host addr unset bytes = some (srv', decision)) :
    (srv.getWaitingConnectSession addr = none ∧
      (¬ bytes.length < acceptPackData.length ∧
          srv'.waitingForConnections = srv.waitingForConnections ∨
        bytes.length < acceptPackData.length ∧
          ∃ b, (MessageBuffer.ofSize bytes.length).write bytes = some b ∧
            srv'.waitingForConnections =
              StdMap.insert SockAddr.less addr b srv.waitingForConnections)) ∨
    ∃ w, srv.getWaitingConnectSession addr = some w ∧
      srv'.waitingForConnections = srv.waitingForConnections.eraseP fun mc => mc.1.same addr := by
  cases hw : srv.getWaitingConnectSession addr with
  | none =>
      -- a first datagram: a long one is rejected, a short one waits, an exact one is judged
      obtain ⟨b, hwrite, hcases⟩ := onAccept_of_not_waiting host hw unset bytes
      rw [hcases] at e
      refine Or.inl ⟨rfl, ?_⟩
      split at e
      · obtain ⟨rfl, -⟩ := Prod.mk.inj (Option.some.inj e)
        exact Or.inl ⟨Nat.not_lt.mpr (Nat.le_of_lt ‹_›), rfl⟩
      · split at e
        · obtain ⟨rfl, -⟩ := Prod.mk.inj (Option.some.inj e)
          exact Or.inr ⟨lt_of_le_of_ne (Nat.not_lt.mp ‹_›) ‹_›, b, hwrite, rfl⟩
        -- judged at once, and nothing waits
        · rename_i heq
          have hlen : ¬ bytes.length < acceptPackData.length :=
            Nat.not_lt.mpr (Nat.le_of_eq (not_not.mp heq).symm)
          split at e
          all_goals
            obtain ⟨rfl, -⟩ := Prod.mk.inj (Option.some.inj e)
            exact Or.inl ⟨hlen, rfl⟩
  | some w =>
      -- whatever the verdict, the waiting buffer is erased
      refine Or.inr ⟨w, rfl, ?_⟩
      rw [onAccept, hw] at e
      obtain ⟨b, -, e⟩ := Option.bind_eq_some_iff.mp e
      obtain ⟨b', -, e⟩ := Option.bind_eq_some_iff.mp e
      split at e
      · obtain ⟨rfl, -⟩ := Prod.mk.inj (Option.some.inj e)
        rfl
      · obtain ⟨data, -, e⟩ := Option.bind_eq_some_iff.mp e
        split at e
        all_goals
          obtain ⟨rfl, -⟩ := Prod.mk.inj (Option.some.inj e)
          rfl

/-- The map of waiting bytes is in order. -/
def WaitingSorted (srv : SocketServer) : Prop :=
  StdMap.Sorted SockAddr.less srv.waitingForConnections

theorem WaitingSorted.onAccept (h : srv.WaitingSorted) {decision : Decision}
    (e : srv.onAccept host addr unset bytes = some (srv', decision)) : srv'.WaitingSorted := by
  rcases onAccept_waiting e with ⟨-, ⟨-, hw⟩ | ⟨-, b, -, hw⟩⟩ | ⟨w, -, hw⟩
  · rwa [WaitingSorted, hw]
  · rw [WaitingSorted, hw]
    exact h.insert less_strictWeak addr b
  · rw [WaitingSorted, hw]
    exact h.sublist List.eraseP_sublist

/-- What waits of another remote stays. -/
theorem getWaiting_onAccept_of_other {decision : Decision}
    (e : srv.onAccept host addr unset bytes = some (srv', decision))
    (hother : addr.same remote = false) :
    srv'.getWaitingConnectSession remote = srv.getWaitingConnectSession remote := by
  have hno (mc : SockAddr × MessageBuffer) (hmc : mc.1.same addr = true) :
      mc.1.same remote = false := by
    rw [SockAddr.same_comm, SockAddr.same_congr hmc, SockAddr.same_comm]
    exact hother
  rw [getWaitingConnectSession, getWaitingConnectSession]
  rcases onAccept_waiting e with ⟨-, ⟨-, hw⟩ | ⟨-, b, -, hw⟩⟩ | ⟨w, -, hw⟩
  · rw [hw]
  · rw [hw, StdMap.find_insert_of_not hother]
  · rw [hw, StdMap.find_eraseP_of_not hno]

/-- What waits of the remote itself, by its own bytes. -/
def waitsAfter (w : Option MessageBuffer) (bytes : List Byte) : Option MessageBuffer :=
  match w with
  | none =>
      if bytes.length < acceptPackData.length then
        (MessageBuffer.ofSize bytes.length).write bytes
      else none
  | some _ => none

/-- So it is, when it does not begin to wait while another port of its address does. -/
theorem getWaiting_onAccept {decision : Decision} (h : srv.WaitingSorted)
    (e : srv.onAccept host addr unset bytes = some (srv', decision))
    (hfree : srv.getWaitingConnectSession addr = none → bytes.length < acceptPackData.length →
      ∀ mc ∈ srv.waitingForConnections, mc.1.addr ≠ addr.addr) :
    srv'.getWaitingConnectSession addr
      = waitsAfter (srv.getWaitingConnectSession addr) bytes := by
  rcases onAccept_waiting e with ⟨hnone, ⟨hlen, hw⟩ | ⟨hlen, b, hwrite, hw⟩⟩ | ⟨w, hsome, hw⟩
  · rw [hnone, waitsAfter, if_neg hlen, getWaitingConnectSession, hw]
    exact hnone
  · have hmem : (addr, b) ∈ StdMap.insert SockAddr.less addr b srv.waitingForConnections :=
      StdMap.mem_insert_self fun mc hmc heq =>
        hfree hnone hlen mc hmc (equiv_less_iff.mp heq).symm
    rw [hnone, waitsAfter, if_pos hlen, hwrite, getWaitingConnectSession, hw,
      StdMap.find_of_unique hmem (SockAddr.same_self addr)]
    · rfl
    · intro mc hmc hsame
      rcases StdMap.mem_of_mem_insert hmc with rfl | hmc
      · rfl
      · exact absurd (SockAddr.same_iff.mp hsame).1 (hfree hnone hlen mc hmc)
  · rw [hsome, waitsAfter, getWaitingConnectSession, hw, StdMap.Sorted.find_eraseP_self h]
    · rfl
    · intro a _ b _ ha hb
      exact equiv_less_iff.mpr ((SockAddr.same_iff.mp ha).1.trans (SockAddr.same_iff.mp hb).1.symm)

/-! ### The remote on its own -/

theorem waitingSorted_alone (remote : SockAddr) (w : Option MessageBuffer) :
    (alone remote w).WaitingSorted := by
  cases w with
  | none => exact List.Pairwise.nil
  | some b => exact List.pairwise_singleton _ _

theorem getWaiting_alone (remote : SockAddr) (w : Option MessageBuffer) :
    (alone remote w).getWaitingConnectSession remote = w := by
  cases w with
  | none => rfl
  | some b =>
      show (List.find? _ [(remote, b)]).map Prod.snd = some b
      rw [List.find?_cons, SockAddr.same_self remote]
      rfl

theorem ownAccept_eq (host : Host) (remote : SockAddr) (w : Option MessageBuffer)
    (bytes : List Byte) :
    ownAccept host remote w bytes = (verdictOf host w bytes).map fun v => (waitsAfter w bytes, v) := by
  have hverdict := verdict_eq host (alone remote w) remote ⟨.disconnected, 0, 0⟩ bytes
  rw [getWaiting_alone, verdict] at hverdict
  rw [← hverdict, ownAccept]
  cases e : (alone remote w).onAccept host remote ⟨.disconnected, 0, 0⟩ bytes with
  | none => rfl
  | some r =>
      have hwaits := getWaiting_onAccept (waitingSorted_alone remote w) e (by
        rw [getWaiting_alone]
        rintro rfl - _ ⟨⟩)
      rw [getWaiting_alone] at hwaits
      rw [Option.map_some, Option.map_some, Option.map_some, hwaits]

theorem map_snd_ownAccept (host : Host) (remote : SockAddr) (w : Option MessageBuffer)
    (bytes : List Byte) :
    (ownAccept host remote w bytes).map Prod.snd = verdictOf host w bytes := by
  rw [ownAccept_eq, Option.map_map]
  exact Option.map_id_apply

/-! ### Steps -/

/-- The server knows of the remote what its own datagrams say. -/
structure Knows (remote : SockAddr) (w : Option MessageBuffer) (srv : SocketServer) : Prop where
  store : srv.Store
  sorted : srv.WaitingSorted
  session : srv.getSessionByRemote remote = none
  waits : srv.getWaitingConnectSession remote = w

/-- A datagram of the remote is for `OnAccept`. -/
theorem step_receive (hnone : srv.getSessionByRemote addr = none) {d : UdpDatagram}
    (hne : d.bytes ≠ []) (unset : Unset) :
    step host srv (.receive addr unset d) = (srv.onAccept host addr unset d.bytes).bind fun r =>
      match r.2 with
      | .accept ptr => some (r.1.onConnected ptr)
      | _ => some r.1 := by
  have hpos : ¬ d.bytes.length ≤ 0 := Nat.not_le.mpr (List.length_pos_iff.mpr hne)
  rw [step, readHandlerInternal, if_neg hpos, readHandler, hnone]
  rfl

/-- Only `OnAccept` touches the bytes that wait. -/
theorem Store.step_waiting (h : srv.Store) {op : Op}
    (e : SocketServer.step host srv op = some srv') :
    srv'.waitingForConnections = srv.waitingForConnections ∨
      ∃ addr unset d srv₁ decision, op = .receive addr unset d ∧
        srv.onAccept host addr unset d.bytes = some (srv₁, decision) ∧
        srv'.waitingForConnections = srv₁.waitingForConnections := by
  have hsettle (conv : UInt32) (p : SessionPtr) := (settle_members srv conv p).2.2.2
  cases op with
  | receive addr unset d =>
      rw [SocketServer.step, readHandlerInternal] at e
      split at e
      · exact Or.inl (congrArg waitingForConnections (Option.some.inj e).symm)
      · rw [readHandler] at e
        split at e
        · -- no session has this remote, so `OnAccept` is asked
          obtain ⟨⟨srv₁, decision⟩, haccept, e⟩ := Option.bind_eq_some_iff.mp e
          refine Or.inr ⟨addr, unset, d, srv₁, decision, rfl, haccept, ?_⟩
          cases decision with
          | accept ptr => exact (congrArg waitingForConnections (Option.some.inj e).symm).trans rfl
          | wait => exact congrArg waitingForConnections (Option.some.inj e).symm
          | reject => exact congrArg waitingForConnections (Option.some.inj e).symm
        · obtain ⟨session, -, e⟩ := Option.bind_eq_some_iff.mp e
          obtain rfl := Option.some.inj e
          exact Or.inl (hsettle _ _)
  | closeRemote client =>
      obtain rfl := Option.some.inj e
      rw [closeRemote]
      split
      · exact Or.inl (hsettle _ _)
      · exact Or.inl rfl
  | closeSession session remove =>
      obtain rfl := Option.some.inj e
      rw [closeSession]
      split
      · exact Or.inl (hsettle _ _)
      · exact Or.inl rfl
  | update diff =>
      rw [SocketServer.step, h.update_eq] at e
      obtain rfl := Option.some.inj e
      exact Or.inl rfl

theorem WaitingSorted.step (hsorted : srv.WaitingSorted) (h : srv.Store) {op : Op}
    (e : SocketServer.step host srv op = some srv') : srv'.WaitingSorted := by
  rcases h.step_waiting e with hw | ⟨addr, unset, d, srv₁, decision, rfl, haccept, hw⟩
  · rwa [WaitingSorted, hw]
  · rw [WaitingSorted, hw]
    exact hsorted.onAccept haccept

/-- An operation that is no datagram of the remote leaves its bytes waiting. -/
theorem Store.getWaiting_other (h : srv.Store) {op : Op}
    (hop : ∀ addr unset d, op = .receive addr unset d → addr.same remote = false)
    (e : SocketServer.step host srv op = some srv') :
    srv'.getWaitingConnectSession remote = srv.getWaitingConnectSession remote := by
  rcases h.step_waiting e with hw | ⟨addr, unset, d, srv₁, decision, rfl, haccept, hw⟩
  · rw [getWaitingConnectSession, getWaitingConnectSession, hw]
  · rw [← getWaiting_onAccept_of_other haccept (hop addr unset d rfl), getWaitingConnectSession,
      getWaitingConnectSession, hw]

/-- And it makes no session for it. -/
theorem Store.getSessionByRemote_other (h : srv.Store)
    (hnone : srv.getSessionByRemote remote = none) {op : Op}
    (hop : ∀ addr unset d, op = .receive addr unset d → addr.same remote = false)
    (e : SocketServer.step host srv op = some srv') : srv'.getSessionByRemote remote = none := by
  have hno := getSessionByRemote_eq_none.mp hnone
  refine getSessionByRemote_eq_none.mpr fun mc hmc => ?_
  cases h.effect e with
  | quiet _ waiting _ => exact hno mc hmc
  | accept addr unset d waiting _ =>
      rcases StdMap.mem_of_mem_insert hmc with rfl | hmc
      · exact hop addr unset d rfl
      · exact hno mc hmc
  | settle _ conv p₀ p _ hmem hp =>
      rcases mem_settle hmc with ⟨rfl, -⟩ | ⟨hmc, -⟩
      · have haddr : p.addr = p₀.addr := congrArg SocketSessionId.addr hp.2.1
        show p.addr.same remote = false
        rw [haddr]
        exact hno _ hmem
      · exact hno mc hmc
  | update diff _ e =>
      rw [h.update_eq] at e
      obtain rfl := Option.some.inj e
      obtain ⟨mc₀, hmc₀, rfl⟩ := List.mem_map.mp hmc
      rw [addr_updatedEntry]
      exact hno mc₀ hmc₀

theorem Knows.step_other (h : Knows remote w srv) {op : Op}
    (hop : ∀ addr unset d, op = .receive addr unset d → addr.same remote = false)
    (e : step host srv op = some srv') : Knows remote w srv' := by
  exact ⟨h.store.step e, h.sorted.step h.store e,
    h.store.getSessionByRemote_other h.session hop e,
    (h.store.getWaiting_other hop e).trans h.waits⟩

/-- Another port of the remote's address does not wait when the remote begins to. -/
def BeginsFreely (remote : SockAddr) (w : Option MessageBuffer) (bytes : List Byte)
    (srv : SocketServer) : Prop :=
  w = none → bytes.length < acceptPackData.length →
    ∀ mc ∈ srv.waitingForConnections, mc.1.addr ≠ remote.addr

theorem getSessionByRemote_congr (h : addr.same remote = true) :
    srv.getSessionByRemote addr = srv.getSessionByRemote remote := by
  rw [getSessionByRemote, getSessionByRemote]
  simp only [SockAddr.same_congr h]

theorem getWaiting_congr (h : addr.same remote = true) :
    srv.getWaitingConnectSession addr = srv.getWaitingConnectSession remote := by
  rw [getWaitingConnectSession, getWaitingConnectSession]
  simp only [SockAddr.same_congr h]

/-- A datagram of the remote does what it does to the remote on its own. -/
theorem Knows.step_own (h : Knows remote w srv) (hsame : addr.same remote = true)
    {d : UdpDatagram} (hne : d.bytes ≠ []) (hfree : BeginsFreely remote w d.bytes srv)
    (e : step host srv (.receive addr unset d) = some srv')
    (hown : (ownAccept host remote w d.bytes).bind (fun r =>
      if r.2 = .accept then none else some r.1) = some w') : Knows remote w' srv' := by
  have hnone := (getSessionByRemote_congr hsame).trans h.session
  have hwaits := (getWaiting_congr hsame).trans h.waits
  rw [step_receive hnone hne] at e
  obtain ⟨⟨srv₁, decision⟩, haccept, e⟩ := Option.bind_eq_some_iff.mp e
  obtain ⟨⟨w₁, v⟩, hown₁, hown⟩ := Option.bind_eq_some_iff.mp hown
  rw [ownAccept_eq] at hown₁
  obtain ⟨v', hv, hr⟩ := Option.map_eq_some_iff.mp hown₁
  obtain ⟨rfl, rfl⟩ := Prod.mk.inj hr
  -- both decide by the same waiting bytes, so they decide the same
  have hverdict := verdict_eq host srv addr unset d.bytes
  rw [verdict, haccept, hwaits, hv] at hverdict
  have hv' : decision.verdict = v' := Option.some.inj hverdict
  have hna : v' ≠ .accept := by
    rintro rfl
    cases hown
  rw [if_neg hna] at hown
  obtain rfl := Option.some.inj hown
  have hafter := getWaiting_onAccept h.sorted haccept (by
    rw [hwaits, (SockAddr.same_iff.mp hsame).1]
    exact hfree)
  rw [hwaits] at hafter
  -- `OnAccept` did not accept, so the handler does no more
  obtain rfl : srv₁ = srv' := by
    cases decision with
    | accept ptr => exact absurd hv'.symm hna
    | wait => exact Option.some.inj e
    | reject => exact Option.some.inj e
  obtain ⟨waiting, ⟨-, rfl⟩ | hinsert⟩ := onAccept_cases haccept
  · exact ⟨h.store.waiting waiting, h.sorted.onAccept haccept, h.session,
      (getWaiting_congr hsame).symm.trans hafter⟩
  · rw [(Prod.mk.inj hinsert).2] at hv'
    exact absurd hv'.symm hna

/-! ### Runs -/

/-- The remote has no session, as by its own datagrams, and the next one of them is
decided on as by these. -/
structure DecidesAlone (host : Host) (remote : SockAddr) (w : Option MessageBuffer)
    (srv : SocketServer) : Prop where
  session : srv.getSessionByRemote remote = none
  verdict : ∀ addr unset bytes, addr.same remote = true → bytes ≠ [] →
    srv.verdict host addr unset bytes = (ownAccept host remote w bytes).map Prod.snd

theorem Knows.decidesAlone (h : Knows remote w srv) (host : Host) :
    DecidesAlone host remote w srv := by
  refine ⟨h.session, fun addr unset bytes hsame _ => ?_⟩
  rw [verdict_eq, (getWaiting_congr hsame).trans h.waits, map_snd_ownAccept]

/-- Where the remote decides alone, the server has bytes of it if it waits. -/
theorem DecidesAlone.waits_none (h : DecidesAlone host remote none srv) :
    srv.getWaitingConnectSession remote = none := by
  cases hw : srv.getWaitingConnectSession remote with
  | none => rfl
  | some b =>
      have hverdict := h.verdict remote ⟨.disconnected, 0, 0⟩ [0] (SockAddr.same_self remote)
        (List.cons_ne_nil _ _)
      rw [verdict_eq, hw, map_snd_ownAccept] at hverdict
      exact absurd hverdict (verdictOf_some_ne_wait b [0])

/-- A remote that begins to wait while another port of its address does is forgotten. -/
theorem DecidesAlone.not_freely (h : DecidesAlone host remote none srv)
    (hsorted : srv.WaitingSorted) (hsame : addr.same remote = true) {d : UdpDatagram}
    (hne : d.bytes ≠ []) (hlen : d.bytes.length < acceptPackData.length)
    {mc : SockAddr × MessageBuffer} (hmc : mc ∈ srv.waitingForConnections)
    (haddr : mc.1.addr = remote.addr) (unset : Unset) :
    ∃ srv' w', step host srv (.receive addr unset d) = some srv' ∧
      ownStep host remote none (.receive addr unset d) = some w' ∧
      ¬ DecidesAlone host remote w' srv' := by
  have hwait := (getWaiting_congr hsame).trans h.waits_none
  obtain ⟨b, hwrite, haccept⟩ := onAccept_of_not_waiting host hwait unset d.bytes
  rw [if_neg (Nat.not_lt.mpr (Nat.le_of_lt hlen)), if_pos (Nat.ne_of_lt hlen),
    StdMap.Sorted.insert_of_equiv less_strictWeak hsorted hmc
      (equiv_less_iff.mpr (haddr.trans (SockAddr.same_iff.mp hsame).1.symm))] at haccept
  refine ⟨srv, some b, ?_, ?_, fun hbad => ?_⟩
  · rw [step_receive ((getSessionByRemote_congr hsame).trans h.session) hne, haccept]
    rfl
  · rw [ownStep, if_pos ⟨hsame, hne⟩, ownAccept_eq, waitsAfter, if_pos hlen, hwrite, verdictOf,
      if_neg (Nat.not_lt.mpr (Nat.le_of_lt hlen)), if_pos (Nat.ne_of_lt hlen)]
    rfl
  · -- the server does not know of the bytes, but the remote waits
    have hverdict := hbad.verdict remote unset [0] (SockAddr.same_self remote)
      (List.cons_ne_nil _ _)
    rw [verdict_eq, h.waits_none, map_snd_ownAccept] at hverdict
    exact verdictOf_some_ne_wait b [0] hverdict.symm

theorem ownStep_of_other {op : Op}
    (hop : ∀ addr unset d, op = .receive addr unset d → addr.same remote = false) :
    ownStep host remote w op = some w := by
  cases op with
  | receive addr unset d =>
      refine if_neg fun h => ?_
      rw [hop addr unset d rfl] at h
      cases h.1
  | closeRemote client => rfl
  | closeSession session remove => rfl
  | update diff => rfl

/-- One step of the server and of the remote on its own. -/
theorem Knows.step (h : Knows remote w srv) {op : Op}
    (hfree : ∀ addr unset d, op = .receive addr unset d → addr.same remote = true →
      d.bytes ≠ [] → BeginsFreely remote w d.bytes srv)
    (e : SocketServer.step host srv op = some srv') (hown : ownStep host remote w op = some w') :
    Knows remote w' srv' := by
  by_cases hop : ∃ addr unset d, op = .receive addr unset d ∧ addr.same remote = true
  · obtain ⟨addr, unset, d, rfl, hsame⟩ := hop
    by_cases hne : d.bytes = []
    · rw [ownStep, if_neg fun h => h.2 hne] at hown
      rw [SocketServer.step, readHandlerInternal,
        if_pos (Nat.le_of_eq (List.length_eq_zero_iff.mpr hne))] at e
      obtain rfl := Option.some.inj e
      obtain rfl := Option.some.inj hown
      exact h
    · rw [ownStep, if_pos ⟨hsame, hne⟩] at hown
      exact h.step_own hsame hne (hfree addr unset d rfl hsame hne) e hown
  · have hother : ∀ addr unset d, op = .receive addr unset d → addr.same remote = false :=
      fun addr unset d hreceive => Bool.eq_false_iff.mpr fun hsame =>
        hop ⟨addr, unset, d, hreceive, hsame⟩
    rw [ownStep_of_other hother] at hown
    obtain rfl := Option.some.inj hown
    exact h.step_other hother e

theorem waitingSorted_run {serverId : UInt16} {ops : List Op}
    (e : ops.foldlM (step host) (create serverId) = some srv) : srv.WaitingSorted := by
  have hinv := Run.foldlM_invariant (step host) (fun srv => srv.Store ∧ srv.WaitingSorted)
    (fun _ _ _ _ h e => ⟨h.1.step e, h.2.step h.1 e⟩) ⟨store_create serverId, List.Pairwise.nil⟩ e
  exact hinv.2

/-- **Accept decisions are a remote's own.**  From a state in which `remote` has no
session and nothing waits of it, the server decides on its datagrams as if they were
alone, until it is accepted, exactly if at none of them the remote begins to wait
while another port of its address does. -/
theorem decisions_own_iff (host : Host) (serverId : UInt16) (ops₀ ops : List Op)
    (srv₀ : SocketServer) (remote : SockAddr)
    (hrun₀ : ops₀.foldlM (step host) (create serverId) = some srv₀)
    (hsession : srv₀.getSessionByRemote remote = none)
    (hwaits : srv₀.getWaitingConnectSession remote = none) :
    (∀ pre srv w, pre <+: ops → pre.foldlM (step host) srv₀ = some srv →
      ownRun host remote pre = some w → DecidesAlone host remote w srv) ↔
    ∀ pre addr unset d srv w, pre ++ [.receive addr unset d] <+: ops →
      pre.foldlM (step host) srv₀ = some srv → ownRun host remote pre = some w →
      addr.same remote = true → d.bytes ≠ [] → BeginsFreely remote w d.bytes srv := by
  have hrun_append {pre : List Op} {srv : SocketServer}
      (hrun : pre.foldlM (step host) srv₀ = some srv) :
      (ops₀ ++ pre).foldlM (step host) (create serverId) = some srv := by
    rw [List.foldlM_append, hrun₀]
    exact hrun
  constructor
  · rintro hall pre addr unset d srv w hpre hrun hown hsame hne rfl hlen mc hmc haddr
    have h := hall pre srv none ((List.prefix_append pre _).trans hpre) hrun hown
    obtain ⟨srv', w', e, eown, hbad⟩ := h.not_freely (waitingSorted_run (hrun_append hrun)) hsame
      hne hlen hmc haddr unset
    exact hbad (hall _ srv' w' hpre (Run.foldlM_concat.mpr ⟨srv, hrun, e⟩)
      (Run.foldlM_concat.mpr ⟨none, hown, eown⟩))
  · intro hfree pre srv w hpre hrun hown
    refine Knows.decidesAlone ?_ host
    -- the induction is on the calls; `Knows` is what server and remote agree on
    induction pre using List.reverseRecOn generalizing srv w with
    | nil =>
        obtain rfl := Option.some.inj hrun
        obtain rfl := Option.some.inj hown
        exact ⟨(store_create serverId).run hrun₀, waitingSorted_run hrun₀, hsession, hwaits⟩
    | append_singleton pre op ih =>
        obtain ⟨srv₁, hrun₁, e⟩ := Run.foldlM_concat.mp hrun
        obtain ⟨w₁, hown₁, eown⟩ := Run.foldlM_concat.mp hown
        have h := ih srv₁ w₁ ((List.prefix_append pre [op]).trans hpre) hrun₁ hown₁
        refine h.step (fun addr unset d hop hsame hne => ?_) e eown
        obtain rfl := hop
        exact hfree pre addr unset d srv₁ w₁ hpre hrun₁ hown₁ hsame hne

/-- A remote whose accept pack comes in two halves is accepted, and its bytes are
forgotten at a server that waits for another port of its address. -/
theorem halves_accepted_unless_port_waits :
    let host : Host := { check := fun _ current => current, dataHandler := none, erased := some }
    let unset : Unset := ⟨.connecting, 0, 0⟩
    let half : UdpDatagram := ⟨acceptPackData.take 4, 4, [], fun _ => rfl, fun _ => rfl⟩
    let rest := acceptPackData.drop 4
    (([.receive ⟨2, 4000, 7⟩ unset half].foldlM (step host) (create 0)).bind
      fun srv => srv.verdict host ⟨2, 4000, 7⟩ unset rest) = some .accept ∧
    (([.receive ⟨2, 5000, 7⟩ unset half, .receive ⟨2, 4000, 7⟩ unset half].foldlM
      (step host) (create 0)).bind
      fun srv => srv.verdict host ⟨2, 4000, 7⟩ unset rest) = some .wait := by
  decide +kernel

/-- Two remotes send the halves of an accept pack by turns. -/
theorem decisions_own_of_two :
    let host : Host := { check := fun _ current => current, dataHandler := none, erased := some }
    let half : UdpDatagram := ⟨acceptPackData.take 4, 4, [], fun _ => rfl, fun _ => rfl⟩
    let ops : List Op := [.receive ⟨2, 4000, 9⟩ ⟨.connecting, 0, 0⟩ half,
      .receive ⟨2, 4000, 7⟩ ⟨.connecting, 0, 0⟩ half]
    (∀ pre srv w, pre <+: ops → pre.foldlM (step host) (create 3) = some srv →
      ownRun host ⟨2, 4000, 7⟩ pre = some w → DecidesAlone host ⟨2, 4000, 7⟩ w srv) ↔
    ∀ pre addr unset d srv w, pre ++ [.receive addr unset d] <+: ops →
      pre.foldlM (step host) (create 3) = some srv → ownRun host ⟨2, 4000, 7⟩ pre = some w →
      addr.same ⟨2, 4000, 7⟩ = true → d.bytes ≠ [] →
      BeginsFreely ⟨2, 4000, 7⟩ w d.bytes srv := by
  intro host half ops
  exact decisions_own_iff host 3 [] ops (create 3) ⟨2, 4000, 7⟩ rfl rfl rfl

end SocketServer

end PCGForUnity
