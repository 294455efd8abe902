/-
PCGForUnity/Network/ClientLiveness.lean

The two members of `KcpClient` that say whether it is connected: `m_bAlive` and
`m_nSessionStatus`.  From a client that is neither alive nor connected

    the two agree in every state of a run, and whoever ends the connection is told
      ↔  every step is harmless

(`liveness_iff`).

`OnConnected`, `OnDisconnected` and `OnConnectFailed` write both.  `Connect` writes the status
only and `Close` the other one only, which shows when the client is connected; and `Close` is
what `Update` calls when the server was not heard for too long.

Design.  The steps are the calls of the program and the messages of the server, in any order,
with what was reached and how much time passed as inputs.  Messages come in dispatched form,
since how packets are framed does not matter here.  A lemma for each function says what it
does to the two members, and `Harmless` is the condition on the state before a step.
-/
import PCGForUnity.Network.Handshake
import PCGForUnity.Network.KcpTime

namespace PCGForUnity

namespace KcpClient

/-- What happens at a client: its functions are called, `ReadDataHandler` handles a
message, and `ikcp_update`, which `Send` and `Update` call, puts out a datagram. -/
inductive LiveOp
  | connect (reached : Bool)
  | close
  | send (buff : List Byte) (immediately : Bool)
  | update (reached : Bool) (diff : ℤ)
  | message (d : Dispatch Byte)
  | output (buf : List Byte)

/-- The client with other members. -/
def withMembers (c : KcpClient) (members : ClientMembers) : KcpClient := { c with members }

theorem withMembers_members (c : KcpClient) (members : ClientMembers) :
    (c.withMembers members).members = members := rfl

/-- An operation on the client. -/
def liveStep (beyond : List (Dispatch Byte) → List Byte) (check : Ikcpcb → ℕ → ℕ)
    (c : KcpClient) : LiveOp → Option KcpClient
  | .connect reached => some (c.withMembers (connect reached c.members))
  | .close => some (c.withMembers (close c.members))
  | .send buff immediately => some (c.withMembers (send c.members buff immediately))
  | .update reached diff => some (c.update check reached diff)
  | .message d => some (handle beyond c d)
  | .output buf =>
      -- `Update` calls it if the client is alive, and `Send` unless it is disconnected
      if c.members.alive ∨ c.members.status ≠ .disconnected then
        some (c.withMembers (fnWriteDgram c.members buf).1)
      else none

/-- `m_bAlive` and `m_nSessionStatus` agree. -/
def Agrees (m : ClientMembers) : Prop := m.alive = true ↔ m.status = .connected

/-- An `Update` with this diff finds that the server was not heard for too long. -/
def TimesOut (m : ClientMembers) (diff : ℤ) : Prop :=
  clientTimeoutMs ≤ (countTime m diff).timeOutTick

instance (m : ClientMembers) (diff : ℤ) : Decidable (TimesOut m diff) :=
  inferInstanceAs (Decidable (_ ≤ _))

/-- The server disconnects the client, or was not heard for too long. -/
def LiveOp.Disconnects (m : ClientMembers) : LiveOp → Prop
  | message d => IsDisconnect d
  | update _ diff => TimesOut m diff
  | _ => False

/-- A connected client that is disconnected says so. -/
def Reports (c : KcpClient) (op : LiveOp) (c' : KcpClient) : Prop :=
  c.members.status = .connected → op.Disconnects c.members → c.members.responce = true →
    c'.members.responses = c.members.responses ++ [.disconnected]

/-- A connected client is told neither to connect nor to close, its time does not run out,
and it puts out no datagram of conversation 0. -/
def Harmless (c : KcpClient) : LiveOp → Prop
  | .connect _ => c.members.status ≠ .connected
  | .close => c.members.status ≠ .connected
  | .send _ _ => True
  | .update _ diff => c.members.status = .connected → ¬ TimesOut c.members diff
  | .message _ => True
  | .output buf => c.members.status = .connected → decode32u buf ≠ 0

variable {beyond : List (Dispatch Byte) → List Byte} {check : Ikcpcb → ℕ → ℕ} {reached : Bool}
  {c c' : KcpClient} {m : ClientMembers} {op : LiveOp} {diff : ℤ} {d : Dispatch Byte}

/-! ### What the functions write -/

theorem onResponse_status (m : ClientMembers) (response : ClientResponse) :
    (onResponse m response).status = m.status := by
  obtain ⟨responses, e⟩ := onResponse_eq m response
  rw [e]

/-- A client that is neither alive nor connected. -/
theorem agrees_of_dead (hdead : m.alive = false) (hs : m.status ≠ .connected) : Agrees m :=
  iff_of_false (Bool.eq_false_iff.mp hdead) hs

theorem Agrees.status_ne (h : Agrees m) (hdead : m.alive = false) : m.status ≠ .connected :=
  fun hs => Bool.eq_false_iff.mp hdead (h.mpr hs)

/-- The callback is told and writes neither. -/
theorem agrees_onResponse (m : ClientMembers) (response : ClientResponse) :
    Agrees (onResponse m response) ↔ Agrees m := by
  rw [Agrees, onResponse_alive, onResponse_status, Agrees]

theorem onConnected_agrees (m : ClientMembers) (success : Bool) :
    Agrees (onConnected m success) := by
  rw [onConnected, agrees_onResponse]
  cases success
  · exact agrees_of_dead rfl SessionStatus.noConfusion
  · exact iff_of_true rfl rfl

theorem onDisconnected_agrees (m : ClientMembers) : Agrees (onDisconnected m) := by
  rw [onDisconnected, agrees_onResponse]
  exact agrees_of_dead rfl SessionStatus.noConfusion

theorem onConnectFailed_agrees (m : ClientMembers) : Agrees (onConnectFailed m) := by
  rw [onConnectFailed, agrees_onResponse]
  exact agrees_of_dead rfl SessionStatus.noConfusion

/-- `Send` changes neither of the two. -/
theorem Agrees.send (h : Agrees m) (buff : List Byte) (immediately : Bool) :
    Agrees (send m buff immediately) := by
  rw [KcpClient.send]
  split
  · exact h
  · exact h

theorem Agrees.heartBeat (h : Agrees m) : Agrees (heartBeat m) := by
  rw [KcpClient.heartBeat]
  split
  · rw [sendHeartBeat]
    apply Agrees.send
    exact h
  · exact h

/-- `Close` leaves the status, so the two disagree exactly if that was connected. -/
theorem close_agrees_iff : Agrees (close m) ↔ m.status ≠ .connected := by
  show (false = true ↔ m.status = .connected) ↔ _
  simp

theorem Agrees.status_of_alive (h : Agrees m) (halive : m.alive = true) :
    m.status = .connected := h.mp halive

/-- `Connect` leaves the liveness. -/
theorem Agrees.connect_iff (h : Agrees m) :
    Agrees (connect reached m) ↔ m.status ≠ .connected := by
  show (m.alive = true ↔ SessionStatus.connecting = .connected) ↔ ¬ m.status = .connected
  rw [← not_congr h]
  simp

theorem Agrees.act (h : Agrees m) (d : Dispatch Byte) : Agrees (act beyond m d).1 := by
  rw [KcpClient.act, readDataHandler]
  split
  · exact onConnected_agrees _ _
  · split
    · exact onDisconnected_agrees _
    · split
      · exact h
      · split
        · exact h
        · exact h

/-- Whatever packets a datagram completes. -/
theorem Agrees.onReceive (h : Agrees c.members) {buff : KcpDatagram}
    (e : c.onReceive beyond buff = some c') : Agrees c'.members :=
  onReceive_preserves (fun _ d hm => hm.act d) (fun _ _ hm => hm) h e

/-- An `Update` of a client that is not alive is about connecting. -/
theorem Agrees.update_dead (h : Agrees c.members) (hdead : c.members.alive = false) :
    Agrees (c.update check reached diff).members := by
  rw [update]
  simp only [hdead, Bool.not_false, if_true]
  split
  · split
    · split
      · exact onConnectFailed_agrees _
      · exact agrees_of_dead rfl SessionStatus.noConfusion
    · exact agrees_of_dead rfl (h.status_ne hdead)
  · exact h

/-- An `Update` of a client that is alive keeps the two equal unless it closes the client. -/
theorem Agrees.update_alive_iff (h : Agrees c.members) (halive : c.members.alive = true) :
    Agrees (c.update check reached diff).members ↔ ¬ TimesOut c.members diff := by
  rw [update]
  simp only [halive, Bool.not_true, Bool.false_eq_true, if_false]
  split
  · rename_i htime
    have hout : TimesOut c.members diff := htime
    refine iff_of_false (fun hagrees => ?_) (not_not.mpr hout)
    exact close_agrees_iff.mp hagrees (h.status_of_alive halive)
  · rename_i htime
    have hcount : Agrees (countTime c.members diff) := h
    exact iff_of_true hcount.heartBeat htime

theorem Agrees.update_iff (h : Agrees c.members) :
    Agrees (c.update check reached diff).members ↔
      (c.members.status = .connected → ¬ TimesOut c.members diff) := by
  cases halive : c.members.alive with
  | false =>
      exact iff_of_true (h.update_dead halive) (fun hs => absurd hs (h.status_ne halive))
  | true =>
      rw [h.update_alive_iff halive]
      have hs := h.status_of_alive halive
      exact ⟨fun hno _ => hno, fun hno => hno hs⟩

theorem Agrees.output_iff (h : Agrees m) (buf : List Byte) :
    Agrees (fnWriteDgram m buf).1 ↔ (m.status = .connected → decode32u buf ≠ 0) := by
  rw [fnWriteDgram]
  split
  · rename_i hzero
    rw [close_agrees_iff]
    exact forall_congr' fun _ => (iff_of_false (not_not.mpr hzero) not_false).symm
  · exact iff_of_true h fun _ => ‹_›

theorem handle_members (c : KcpClient) (d : Dispatch Byte) :
    (handle beyond c d).members = (act beyond c.members d).1 := by
  have h := congrArg Endpoint.members (handlesBy beyond c d)
  exact h

/-! ### Steps -/

/-- A step keeps the two equal exactly if it is harmless. -/
theorem Agrees.step_iff (h : Agrees c.members) (e : liveStep beyond check c op = some c') :
    Agrees c'.members ↔ Harmless c op := by
  cases op with
  | connect reached =>
      obtain rfl := Option.some.inj e
      exact h.connect_iff
  | close =>
      obtain rfl := Option.some.inj e
      exact close_agrees_iff
  | update reached diff =>
      obtain rfl := Option.some.inj e
      exact h.update_iff
  | message d =>
      obtain rfl := Option.some.inj e
      rw [handle_members]
      exact iff_of_true (h.act d) trivial
  | send buff immediately =>
      obtain rfl := Option.some.inj e
      exact iff_of_true (h.send buff immediately) trivial
  | output buf =>
      rw [liveStep] at e
      split at e
      · obtain rfl := Option.some.inj e
        rw [withMembers_members]
        exact h.output_iff buf
      · cases e

/-- The server's message is reported; for the time that runs out see `closes_silently`. -/
theorem reports_of_harmless (hop : Harmless c op)
    (e : liveStep beyond check c op = some c') : Reports c op c' := by
  intro hs hdisc hresponce
  cases op with
  | message d =>
      obtain rfl := Option.some.inj e
      have hdisc : (PacketHeader.ofBytes d.hdr).command = s2cDisconnect := hdisc
      have hno : (PacketHeader.ofBytes d.hdr).command ≠ s2cAcceptAct := by
        rw [hdisc]
        decide
      rw [handle_members, act, readDataHandler, if_neg hno, if_pos hdisc, onDisconnected, onResponse]
      exact congrArg ClientMembers.responses (if_pos hresponce)
  | update reached diff => exact absurd hdisc (hop hs)
  | connect reached => exact hdisc.elim
  | close => exact hdisc.elim
  | send buff immediately => exact hdisc.elim
  | output buf => exact hdisc.elim

/-- When the time has run out the client is closed with its status, and says nothing: its
callback is cleared. -/
theorem closes_silently (h : Agrees c.members) (hs : c.members.status = .connected)
    (hout : TimesOut c.members diff) :
    (c.update check reached diff).members.status = .connected ∧
      (c.update check reached diff).members.responce = false ∧
      (c.update check reached diff).members.responses = c.members.responses := by
  have hout : (countTime c.members diff).timeOutTick ≥ clientTimeoutMs := hout
  rw [update]
  simp only [h.mpr hs, Bool.not_true, Bool.false_eq_true, if_false, if_pos hout]
  exact ⟨hs, rfl, rfl⟩

/-- A connected client that is refused says that it could not connect. -/
theorem refused_reports_failure (hd : IsAccept d) (hresponce : c.members.responce = true)
    (hzero : UInt32.ofNat (decode32u (d.payload ++ beyond c.members.dispatched)) = 0) :
    (handle beyond c d).members.status = .disconnected ∧
      (handle beyond c d).members.responses = c.members.responses ++ [.connectFail] := by
  rw [handle_members, act, readDataHandler,
    if_pos (show (PacketHeader.ofBytes d.hdr).command = s2cAcceptAct from hd), hzero]
  refine ⟨onResponse_status _ _, ?_⟩
  exact congrArg ClientMembers.responses (if_pos hresponce)

/-! ### The conversation of an alive client -/

/-- An alive client has a conversation, so KCP puts out no segment of conversation 0 that it
makes now. -/
def HasConv (m : ClientMembers) : Prop := m.alive = true → m.kcp.conv ≠ 0

/-- A step changes the conversation and makes the client alive together, or does neither. -/
theorem HasConv.keeps {m' : ClientMembers} (h : HasConv m) (hconv : m'.kcp.conv = m.kcp.conv)
    (halive : m'.alive = true → m.alive = true) : HasConv m' := by
  intro ha
  rw [hconv]
  exact h (halive ha)

theorem hasConv_of_dead (hdead : m.alive = false) : HasConv m :=
  fun halive => absurd halive (Bool.eq_false_iff.mp hdead)

theorem onAccept_hasConv (m : ClientMembers) (conv : UInt32) : HasConv (onAccept m conv) := by
  rw [onAccept]
  by_cases hconv : conv > 0
  · rw [if_pos hconv, onConnected]
    intro _
    rw [onResponse_kcp]
    exact UInt32.pos_iff_ne_zero.mp hconv
  · rw [if_neg hconv, onConnected, decide_eq_false hconv]
    exact hasConv_of_dead (onResponse_alive _ _)

theorem HasConv.act (h : HasConv m) (d : Dispatch Byte) : HasConv (act beyond m d).1 := by
  rw [KcpClient.act, readDataHandler]
  split
  · exact onAccept_hasConv _ _
  · split
    · exact hasConv_of_dead (onResponse_alive _ _)
    · split
      · exact h
      · split
        · exact h
        · exact h

theorem HasConv.update_dead (hdead : c.members.alive = false) :
    HasConv (c.update check reached diff).members := by
  rw [update]
  simp only [hdead, Bool.not_false, if_true]
  split
  · split
    · split
      · exact hasConv_of_dead (onResponse_alive _ _)
      · exact hasConv_of_dead rfl
    · exact hasConv_of_dead rfl
  · exact hasConv_of_dead hdead

theorem HasConv.update (h : HasConv c.members) :
    HasConv (c.update check reached diff).members := by
  cases halive : c.members.alive with
  | false => exact update_dead halive
  | true => exact h.keeps (keeps_update check reached c diff).1.conv (fun _ => halive)

theorem HasConv.send (h : HasConv m) (buff : List Byte) (immediately : Bool) :
    HasConv (send m buff immediately) := by
  apply h.keeps (keeps_send m buff immediately).conv
  rw [KcpClient.send]
  split
  · exact id
  · exact id

theorem HasConv.step (h : HasConv c.members) (e : liveStep beyond check c op = some c') :
    HasConv c'.members := by
  cases op with
  | connect reached =>
      obtain rfl := Option.some.inj e
      exact h
  | close =>
      obtain rfl := Option.some.inj e
      exact hasConv_of_dead rfl
  | send buff immediately =>
      obtain rfl := Option.some.inj e
      exact h.send buff immediately
  | update reached diff =>
      obtain rfl := Option.some.inj e
      exact h.update
  | message d =>
      obtain rfl := Option.some.inj e
      rw [handle_members]
      exact h.act d
  | output buf =>
      rw [liveStep] at e
      split at e
      · obtain rfl := Option.some.inj e
        rw [withMembers_members, fnWriteDgram]
        split
        · exact hasConv_of_dead rfl
        · exact h
      · cases e

/-- An alive client puts out no datagram of KCP's own conversation that closes it. -/
theorem decode32u_of_alive {ops : List LiveOp} {c₀ : KcpClient} (h₀ : c₀.members.alive = false)
    (hrun : ops.foldlM (liveStep beyond check) c₀ = some c) (halive : c.members.alive = true)
    (rest : List Byte) : decode32u (encode32u c.members.kcp.conv.toNat ++ rest) ≠ 0 := by
  have hstart : HasConv c₀.members := hasConv_of_dead h₀
  have hconv : HasConv c.members :=
    Run.foldlM_invariant (liveStep beyond check) (fun c => HasConv c.members)
      (fun _ _ _ _ h e => h.step e) hstart hrun
  rw [decode32u_encode32u c.members.kcp.conv.toNat_lt]
  intro hzero
  exact hconv halive (UInt32.toNat_inj.mp hzero)

/-! ### Runs -/

/-- **When liveness and status agree.**  From a client that is neither, the two agree in
every state of a run, and a connected client reports that it is disconnected, if and only
if all its steps are harmless. -/
theorem liveness_iff (beyond : List (Dispatch Byte) → List Byte) (check : Ikcpcb → ℕ → ℕ)
    (c₀ : KcpClient) (hstatus : c₀.members.status = .disconnected)
    (halive : c₀.members.alive = false) (ops : List LiveOp) :
    ((∀ pre c, pre <+: ops → pre.foldlM (liveStep beyond check) c₀ = some c →
        (c.members.alive = true ↔ c.members.status = .connected)) ∧
      ∀ pre op c c', pre ++ [op] <+: ops → pre.foldlM (liveStep beyond check) c₀ = some c →
        liveStep beyond check c op = some c' → Reports c op c') ↔
    ∀ pre op c, pre ++ [op] <+: ops → pre.foldlM (liveStep beyond check) c₀ = some c →
      Harmless c op := by
  have h₀ : Agrees c₀.members := by
    apply agrees_of_dead halive
    rw [hstatus]
    exact SessionStatus.noConfusion
  have hagrees : (∀ pre c, pre <+: ops → pre.foldlM (liveStep beyond check) c₀ = some c →
        Agrees c.members) ↔ ∀ pre op c, pre ++ [op] <+: ops →
      pre.foldlM (liveStep beyond check) c₀ = some c → Harmless c op := by
    refine Run.forall_prefix_iff (liveStep beyond check) (fun c => Agrees c.members)
      (fun c => Agrees c.members) (fun _ => True) Harmless (fun _ h => h)
      (fun c op c' h _ hop e => (h.step_iff e).mpr hop) ?_ h₀ (fun _ _ => trivial)
    -- a step that is not harmless has a result
    intro c op h _ hbad
    obtain ⟨c', e⟩ : ∃ c', liveStep beyond check c op = some c' := by
      cases op with
      | output buf =>
          have hs : c.members.status = .connected := (Classical.not_imp.mp hbad).1
          refine ⟨_, if_pos (Or.inr ?_)⟩
          rw [hs]
          exact SessionStatus.noConfusion
      | connect reached => exact ⟨_, rfl⟩
      | close => exact ⟨_, rfl⟩
      | send buff immediately => exact ⟨_, rfl⟩
      | update reached diff => exact ⟨_, rfl⟩
      | message d => exact ⟨_, rfl⟩
    exact ⟨c', e, fun hagree => hbad ((h.step_iff e).mp hagree)⟩
  constructor
  · rintro ⟨hall, -⟩
    exact hagrees.mp hall
  · intro hall
    refine ⟨hagrees.mpr hall, fun pre op c c' hpre hrun e => ?_⟩
    exact reports_of_harmless (hall pre op c hpre hrun) e

/-- A client that has been set up, and messages of the server for it. -/
def setUp : KcpClient :=
  create 0 ⟨2, 4000, 7⟩ none true ⟨0, ⟨2, 4000, 7⟩⟩ .disconnected 0 0 0 false false

/-- The message that accepts conversation 5. -/
def acceptMessage : Dispatch Byte :=
  ⟨(PacketHeader.mk 4 s2cAcceptAct).toBytes, encode32u 5⟩

/-- The message that disconnects. -/
def disconnectMessage : Dispatch Byte := ⟨(PacketHeader.mk 0 s2cDisconnect).toBytes, []⟩

/-- It connects, is accepted, lives for a while and is disconnected by the server. -/
theorem liveness_iff_of_disconnect :
    let beyond : List (Dispatch Byte) → List Byte := fun _ => []
    let check : Ikcpcb → ℕ → ℕ := fun _ current => current
    let ops : List LiveOp := [.connect true, .message acceptMessage, .update true 1000,
      .message disconnectMessage, .close]
    ((∀ pre c, pre <+: ops → pre.foldlM (liveStep beyond check) setUp = some c →
        (c.members.alive = true ↔ c.members.status = .connected)) ∧
      ∀ pre op c c', pre ++ [op] <+: ops → pre.foldlM (liveStep beyond check) setUp = some c →
        liveStep beyond check c op = some c' → Reports c op c') ↔
    ∀ pre op c, pre ++ [op] <+: ops → pre.foldlM (liveStep beyond check) setUp = some c →
      Harmless c op :=
  liveness_iff _ _ setUp rfl rfl _

/-- A connected client that hears nothing for 18 seconds is closed, stays connected by its
status, and reports nothing. -/
theorem timeout_leaves_status :
    let beyond : List (Dispatch Byte) → List Byte := fun _ => []
    let check : Ikcpcb → ℕ → ℕ := fun _ current => current
    let ops : List LiveOp := [.connect true, .message acceptMessage, .update true 18000]
    ¬ ((∀ pre c, pre <+: ops → pre.foldlM (liveStep beyond check) setUp = some c →
        (c.members.alive = true ↔ c.members.status = .connected)) ∧
      ∀ pre op c c', pre ++ [op] <+: ops → pre.foldlM (liveStep beyond check) setUp = some c →
        liveStep beyond check c op = some c' → Reports c op c') := by
  intro beyond check ops hall
  have hrun : (ops.foldlM (liveStep beyond check) setUp).map
      (fun c => (c.members.alive, c.members.status)) = some (false, .connected) := by
    decide +kernel
  obtain ⟨c, e, hc⟩ := Option.map_eq_some_iff.mp hrun
  obtain ⟨hdead, hstatus⟩ := Prod.mk.inj hc
  have halive := (hall.1 ops c List.prefix_rfl e).mpr hstatus
  rw [hdead] at halive
  cases halive

end KcpClient

end PCGForUnity
