/-
PCGForUnity/Network/ConnectTimeout.lean

How long a connection attempt lasts.  While it connects `KcpClient::Update` counts the
intervals in `m_nReconnectTime`, and gives up at `m_nConnectTimeOut / reconnectInterval` of
them.

* If all attempts of a run begin fresh, `Update` gives up after the timeout only.
* If at the end of a run an attempt would begin that is not fresh, there are updates after
  which it gives up before.

(`full_timeout_of_fresh`).

Design.  Neither the counter nor `m_nTick` is reset when an attempt begins.  So an attempt gets
its full time if it begins with what the first one begins with, and otherwise what the ones
before it have left.  `Attempt` is a client with the time since its attempt began, which the
code does not keep; the intervals that are left bound that time from below.  The timeout is a
multiple of the interval, for otherwise no attempt would last exactly as long.
-/
import PCGForUnity.Network.ClientLiveness

namespace PCGForUnity

namespace KcpClient

/-- A client, and the diffs passed to `Update` since its current attempt began. -/
structure Attempt where
  client : KcpClient
  elapsed : ℤ

namespace Attempt

/-- An attempt begins when `Connect` is called on a client that does not connect. -/
def elapsedAfter (s : Attempt) : LiveOp → ℤ
  | .connect _ => if s.client.members.status = .connecting then s.elapsed else 0
  | .update _ diff => s.elapsed + diff
  | _ => s.elapsed

/-- An operation on the client, with the time it lets pass. -/
def step (beyond : List (Dispatch Byte) → List Byte) (check : Ikcpcb → ℕ → ℕ) (s : Attempt)
    (op : LiveOp) : Option Attempt :=
  (liveStep beyond check s.client op).map fun client => { client, elapsed := s.elapsedAfter op }

end Attempt

/-- `m_nReconnectTime` after the next interval. -/
def nextRetry (m : ClientMembers) : ℤ := (m.reconnectTime + 1).bmod (2 ^ 16)

/-- The next interval is the last. -/
def GivesUp (m : ClientMembers) : Prop :=
  m.connectTimeOut > 0 ∧ nextRetry m ≥ m.connectTimeOut.tdiv reconnectInterval

instance (m : ClientMembers) : Decidable (GivesUp m) := inferInstanceAs (Decidable (_ ∧ _))

/-- How many intervals end before `OnConnectFailed`. -/
def intervalsLeft (m : ClientMembers) : ℤ :=
  max 1 (m.connectTimeOut.tdiv reconnectInterval + 1 - nextRetry m)

/-- The intervals left, of which `m_nTick` has passed already, last as long as
`m_nConnectTimeOut`. -/
def Fresh (m : ClientMembers) : Prop :=
  m.connectTimeOut + m.tick ≤ reconnectInterval * intervalsLeft m

/-- If an attempt begins here, it begins fresh. -/
def BeginsFresh (s : Attempt) : LiveOp → Prop
  | .connect _ => s.client.members.status ≠ .connecting → Fresh s.client.members
  | _ => True

/-- An `Update` that gives up does so after the timeout. -/
def FullTimeout (timeout : ℤ) (s : Attempt) (op : LiveOp) (s' : Attempt) : Prop :=
  (∃ reached diff, op = .update reached diff) → s.client.members.status = .connecting →
    s'.client.members.status = .disconnected → timeout ≤ s'.elapsed

variable {beyond : List (Dispatch Byte) → List Byte} {check : Ikcpcb → ℕ → ℕ} {reached : Bool}
  {c c' : KcpClient} {m : ClientMembers} {op : LiveOp} {diff timeout : ℤ}

/-- An attempt is fresh with nothing counted; with something counted only if the timeout is
one interval, or after the counter has overflowed. -/
theorem fresh_iff (hpos : 0 < m.connectTimeOut) (hdvd : reconnectInterval ∣ m.connectTimeOut)
    (htick : 0 ≤ m.tick) (hretry : 0 ≤ m.reconnectTime) (hrange : m.reconnectTime + 1 < 2 ^ 15) :
    Fresh m ↔ m.tick = 0 ∧ (m.reconnectTime = 0 ∨ m.connectTimeOut = reconnectInterval) := by
  have hnext : nextRetry m = m.reconnectTime + 1 := by
    rw [nextRetry]
    exact Int.bmod_eq_of_le (by omega) (by omega)
  obtain ⟨n, hn⟩ := hdvd
  rw [Fresh, intervalsLeft, hnext, hn, reconnectInterval,
    Int.mul_tdiv_cancel_left n (by decide)]
  rw [hn, reconnectInterval] at hpos
  omega

/-! ### What the functions do to the counting -/

/-- `Send` changes only KCP and what was sent. -/
theorem send_eq (m : ClientMembers) (buff : List Byte) (immediately : Bool) :
    ∃ toKcpClock sent, send m buff immediately = { m with toKcpClock, sent } := by
  rw [send]
  split
  · exact ⟨_, _, rfl⟩
  · exact ⟨_, _, rfl⟩

/-- A heartbeat besides begins to count anew. -/
theorem heartBeat_eq (m : ClientMembers) :
    ∃ toKcpClock sent tick, tick ≤ m.tick ∧
      heartBeat m = { m with toKcpClock, sent, tick } := by
  rw [heartBeat]
  split
  · rename_i hlate
    obtain ⟨toKcpClock, sent, e⟩ := send_eq { m with tick := 0 }
      ({ size := 0, command := c2sHeartbeat } : PacketHeader).toBytes false
    refine ⟨toKcpClock, sent, 0, ?_, e⟩
    have : (0 : ℤ) ≤ heartBeatInterval := Int.natCast_nonneg _
    omega
  · exact ⟨_, _, _, Int.le_refl _, rfl⟩

/-- While a client is alive, `Update` counts the tick, or begins to count anew. -/
theorem update_alive_counts (check : Ikcpcb → ℕ → ℕ) (reached : Bool) (diff : ℤ)
    (halive : c.members.alive = true) :
    (c.update check reached diff).members.status = c.members.status ∧
      (c.update check reached diff).members.reconnectTime = c.members.reconnectTime ∧
      (c.update check reached diff).members.connectTimeOut = c.members.connectTimeOut ∧
      (c.update check reached diff).members.tick ≤ c.members.tick + diff := by
  obtain ⟨toKcpClock, sent, tick, hle, e⟩ := heartBeat_eq (countTime c.members diff)
  rw [update]
  simp only [halive, Bool.not_true, Bool.false_eq_true, if_false]
  split
  · exact ⟨rfl, rfl, rfl, Int.le_refl _⟩
  · rw [e]
    exact ⟨rfl, rfl, rfl, hle⟩

/-- While a client that is not alive connects, `Update` counts the tick and the intervals. -/
theorem update_dead_eq (hdead : c.members.alive = false) (hs : c.members.status = .connecting) :
    c.update check reached diff =
      if c.members.tick + diff < reconnectInterval then
        c.withMembers { c.members with tick := c.members.tick + diff }
      else if GivesUp c.members then
        { buffers := c.buffers.reset
          members := onConnectFailed
            { c.members with tick := 0, reconnectTime := nextRetry c.members } }
      else
        c.withMembers (connect reached
          { c.members with tick := 0, reconnectTime := nextRetry c.members }) := by
  rw [update]
  simp only [hdead, hs, Bool.not_false, if_true]
  by_cases hshort : c.members.tick + diff < reconnectInterval
  · rw [if_neg (Int.not_le.mpr hshort), if_pos hshort]
    rfl
  · rw [if_pos (Int.not_lt.mp hshort), if_neg hshort]
    rfl

/-- The three cases of it. -/
theorem update_dead_cases (check : Ikcpcb → ℕ → ℕ) (reached : Bool) (diff : ℤ)
    (hdead : c.members.alive = false) (hs : c.members.status = .connecting) :
    let m' := (c.update check reached diff).members
    c.members.tick + diff < reconnectInterval ∧ m'.status = .connecting ∧ m'.alive = false ∧
        m'.reconnectTime = c.members.reconnectTime ∧ m'.tick = c.members.tick + diff ∨
      reconnectInterval ≤ c.members.tick + diff ∧ GivesUp c.members ∧ m'.status = .disconnected ∨
      reconnectInterval ≤ c.members.tick + diff ∧ ¬ GivesUp c.members ∧
        m'.status = .connecting ∧ m'.alive = false ∧
        m'.reconnectTime = nextRetry c.members ∧ m'.tick = 0 := by
  intro m'
  have heq : m' = (c.update check reached diff).members := rfl
  rw [update_dead_eq hdead hs] at heq
  rw [heq]
  by_cases hshort : c.members.tick + diff < reconnectInterval
  · rw [if_pos hshort]
    exact Or.inl ⟨hshort, hs, hdead, rfl, rfl⟩
  · rw [if_neg hshort]
    by_cases hgives : GivesUp c.members
    · rw [if_pos hgives]
      exact Or.inr (Or.inl ⟨Int.not_lt.mp hshort, hgives, onResponse_status _ _⟩)
    · rw [if_neg hgives]
      exact Or.inr (Or.inr ⟨Int.not_lt.mp hshort, hgives, rfl, hdead, rfl, rfl⟩)

theorem onResponse_connectTimeOut (m : ClientMembers) (response : ClientResponse) :
    (onResponse m response).connectTimeOut = m.connectTimeOut := by
  obtain ⟨responses, e⟩ := onResponse_eq m response
  rw [e]

theorem onAccept_connectTimeOut (m : ClientMembers) (conv : UInt32) :
    (onAccept m conv).connectTimeOut = m.connectTimeOut := by
  rw [onAccept, onConnected, onResponse_connectTimeOut]
  split <;> rfl

/-- An answer ends the attempt. -/
theorem onAccept_status (m : ClientMembers) (conv : UInt32) :
    (onAccept m conv).status ≠ .connecting := by
  rw [onAccept, onConnected, onResponse_status]
  show (if decide (conv > 0) = true then SessionStatus.connected else .disconnected) ≠ _
  split
  · exact SessionStatus.noConfusion
  · exact SessionStatus.noConfusion

theorem act_connectTimeOut (m : ClientMembers) (d : Dispatch Byte) :
    (act beyond m d).1.connectTimeOut = m.connectTimeOut := by
  rw [act, readDataHandler]
  split
  · exact onAccept_connectTimeOut _ _
  · split
    · exact onResponse_connectTimeOut _ _
    · split
      · rfl
      · split <;> rfl

/-- A message ends the attempt or leaves the counting alone. -/
theorem act_counts (m : ClientMembers) (d : Dispatch Byte) :
    (act beyond m d).1.status ≠ .connecting ∨
      (act beyond m d).1.status = m.status ∧ (act beyond m d).1.tick = m.tick ∧
        (act beyond m d).1.reconnectTime = m.reconnectTime := by
  rw [act, readDataHandler]
  split
  · exact Or.inl (onAccept_status _ _)
  · split
    · left
      show (onDisconnected _).status ≠ _
      rw [onDisconnected, onResponse_status]
      exact SessionStatus.noConfusion
    · right
      split
      · exact ⟨rfl, rfl, rfl⟩
      · split <;> exact ⟨rfl, rfl, rfl⟩

/-! ### What a step does to the counting -/

theorem connectTimeOut_step (e : liveStep beyond check c op = some c') :
    c'.members.connectTimeOut = c.members.connectTimeOut := by
  cases op with
  | connect reached =>
      obtain rfl := Option.some.inj e
      rfl
  | close =>
      obtain rfl := Option.some.inj e
      rfl
  | send buff immediately =>
      obtain rfl := Option.some.inj e
      obtain ⟨toKcpClock, sent, e⟩ := send_eq c.members buff immediately
      rw [withMembers_members, e]
  | update reached diff =>
      obtain rfl := Option.some.inj e
      cases halive : c.members.alive with
      | true => exact (update_alive_counts check reached diff halive).2.2.1
      | false =>
          by_cases hs : c.members.status = .connecting
          · rw [update_dead_eq halive hs]
            split
            · rfl
            · split
              · exact onResponse_connectTimeOut _ _
              · rfl
          · rw [update]
            simp only [halive, Bool.not_false, if_true, if_neg hs]
  | message d =>
      obtain rfl := Option.some.inj e
      rw [handle_members]
      exact act_connectTimeOut _ _
  | output buf =>
      rw [liveStep] at e
      split at e
      · obtain rfl := Option.some.inj e
        rw [withMembers_members, fnWriteDgram]
        split <;> rfl
      · cases e

/-- Besides `Connect` and `Update` every step ends the attempt or leaves the counting alone. -/
theorem counts_step (hconnect : ∀ reached, op ≠ .connect reached)
    (hupdate : ∀ reached diff, op ≠ .update reached diff)
    (e : liveStep beyond check c op = some c') :
    c'.members.status ≠ .connecting ∨ c'.members.status = c.members.status ∧
      c'.members.tick = c.members.tick ∧ c'.members.reconnectTime = c.members.reconnectTime := by
  cases op with
  | connect reached => exact absurd rfl (hconnect reached)
  | update reached diff => exact absurd rfl (hupdate reached diff)
  | close =>
      obtain rfl := Option.some.inj e
      exact Or.inr ⟨rfl, rfl, rfl⟩
  | send buff immediately =>
      obtain rfl := Option.some.inj e
      obtain ⟨toKcpClock, sent, e⟩ := send_eq c.members buff immediately
      rw [withMembers_members, e]
      exact Or.inr ⟨rfl, rfl, rfl⟩
  | message d =>
      obtain rfl := Option.some.inj e
      rw [handle_members]
      exact act_counts _ _
  | output buf =>
      rw [liveStep] at e
      split at e
      · obtain rfl := Option.some.inj e
        rw [withMembers_members, fnWriteDgram]
        split <;> exact Or.inr ⟨rfl, rfl, rfl⟩
      · cases e

/-! ### The intervals left -/

theorem intervalsLeft_congr {m' : ClientMembers} (htimeout : m'.connectTimeOut = m.connectTimeOut)
    (hretry : m'.reconnectTime = m.reconnectTime) : intervalsLeft m' = intervalsLeft m := by
  rw [intervalsLeft, intervalsLeft, nextRetry, nextRetry, htimeout, hretry]

theorem intervalsLeft_of_givesUp (h : GivesUp m) : intervalsLeft m = 1 := by
  have hle := h.2
  rw [intervalsLeft]
  omega

/-- An interval that is not the last is one less. -/
theorem intervalsLeft_next {m' : ClientMembers} (hpos : 0 < m.connectTimeOut)
    (hrange : m.connectTimeOut < 2 ^ 15) (h : ¬ GivesUp m)
    (htimeout : m'.connectTimeOut = m.connectTimeOut) (hretry : m'.reconnectTime = nextRetry m) :
    intervalsLeft m' + 1 = intervalsLeft m := by
  have hlt : nextRetry m < m.connectTimeOut.tdiv reconnectInterval := by
    by_contra hle
    exact h ⟨hpos, Int.not_lt.mp hle⟩
  have hdiv : m.connectTimeOut.tdiv reconnectInterval ≤ m.connectTimeOut :=
    Int.tdiv_le_self _ (Int.le_of_lt hpos)
  have hlow : -(2 ^ 15) ≤ nextRetry m := Int.le_bmod (by decide)
  -- the counter does not overflow before it reaches the timeout
  have hnext : nextRetry m' = nextRetry m + 1 := by
    rw [nextRetry, hretry]
    exact Int.bmod_eq_of_le (by omega) (by omega)
  rw [intervalsLeft, intervalsLeft, hnext, htimeout]
  omega

namespace Attempt

/-! ### Attempts that begin fresh -/

/-- The time passed, and that of the intervals left, is not less than the timeout. -/
structure Covered (timeout : ℤ) (s : Attempt) : Prop where
  connectTimeOut : s.client.members.connectTimeOut = timeout
  covered : s.client.members.status = .connecting →
    timeout + s.client.members.tick
      ≤ s.elapsed + reconnectInterval * intervalsLeft s.client.members

variable {s s' : Attempt}

/-- Time that passes in an interval is counted twice. -/
theorem Covered.wait (h : s.Covered timeout)
    (htimeout : s'.client.members.connectTimeOut = s.client.members.connectTimeOut)
    (hs : s'.client.members.status = s.client.members.status)
    (hretry : s'.client.members.reconnectTime = s.client.members.reconnectTime)
    (htick : s'.client.members.tick - s'.elapsed ≤ s.client.members.tick - s.elapsed) :
    s'.Covered timeout := by
  refine ⟨htimeout.trans h.connectTimeOut, fun hconnecting => ?_⟩
  have hcovered := h.covered (hs ▸ hconnecting)
  rw [intervalsLeft_congr htimeout hretry]
  omega

/-- A client that still connects did not give up. -/
theorem fullTimeout_of_connecting (hs : s'.client.members.status = .connecting) :
    FullTimeout timeout s op s' := by
  intro _ _ hdisconnected
  rw [hs] at hdisconnected
  cases hdisconnected

/-- An `Update` of a client that is alive covers the attempt. -/
theorem Covered.update_alive (h : s.Covered timeout) (halive : s.client.members.alive = true)
    (hconnecting : s.client.members.status = .connecting)
    (e : s.step beyond check (.update reached diff) = some s') :
    s'.Covered timeout ∧ FullTimeout timeout s (.update reached diff) s' := by
  obtain ⟨client, hclient, rfl⟩ := Option.map_eq_some_iff.mp e
  have htimeout := connectTimeOut_step hclient
  obtain rfl := Option.some.inj hclient
  obtain ⟨hs, hretry, -, htick⟩ := update_alive_counts check reached diff halive
  refine ⟨h.wait htimeout hs hretry ?_, fullTimeout_of_connecting (hs.trans hconnecting)⟩
  show (s.client.update check reached diff).members.tick - (s.elapsed + diff) ≤ _
  omega

/-- An `Update` of a client that is not alive covers the attempt, or ends it in time. -/
theorem Covered.update_dead (h : s.Covered timeout) (hpos : 0 < timeout)
    (hrange : timeout < 2 ^ 15) (hdead : s.client.members.alive = false)
    (hconnecting : s.client.members.status = .connecting)
    (e : s.step beyond check (.update reached diff) = some s') :
    s'.Covered timeout ∧ FullTimeout timeout s (.update reached diff) s' := by
  obtain ⟨client, hclient, rfl⟩ := Option.map_eq_some_iff.mp e
  have htimeout := connectTimeOut_step hclient
  obtain rfl := Option.some.inj hclient
  have hcovered := h.covered hconnecting
  rcases update_dead_cases check reached diff hdead hconnecting with
    ⟨-, hs, -, hretry, htick⟩ | ⟨hlong, hgives, hs⟩ | ⟨hlong, hgives, hs, -, hretry, htick⟩
  · refine ⟨h.wait htimeout (hs.trans hconnecting.symm) hretry ?_, fullTimeout_of_connecting hs⟩
    show (s.client.update check reached diff).members.tick - (s.elapsed + diff) ≤ _
    omega
  · refine ⟨⟨htimeout.trans h.connectTimeOut, fun hc => ?_⟩, fun _ _ _ => ?_⟩
    · have := hs.symm.trans hc
      cases this
    · show timeout ≤ s.elapsed + diff
      rw [intervalsLeft_of_givesUp hgives] at hcovered
      omega
  · refine ⟨⟨htimeout.trans h.connectTimeOut, fun _ => ?_⟩, fullTimeout_of_connecting hs⟩
    show timeout + (s.client.update check reached diff).members.tick
      ≤ s.elapsed + diff
        + reconnectInterval * intervalsLeft (s.client.update check reached diff).members
    rw [← intervalsLeft_next (h.connectTimeOut ▸ hpos) (h.connectTimeOut ▸ hrange) hgives
      htimeout hretry, Int.mul_add] at hcovered
    rw [htick]
    omega

/-- An `Update` covers the attempt, or ends it in time. -/
theorem Covered.update (h : s.Covered timeout) (hpos : 0 < timeout) (hrange : timeout < 2 ^ 15)
    (e : s.step beyond check (.update reached diff) = some s') :
    s'.Covered timeout ∧ FullTimeout timeout s (.update reached diff) s' := by
  by_cases hconnecting : s.client.members.status = .connecting
  · cases halive : s.client.members.alive with
    | true => exact h.update_alive halive hconnecting e
    | false => exact h.update_dead hpos hrange halive hconnecting e
  · -- nothing happens
    obtain ⟨client, hclient, rfl⟩ := Option.map_eq_some_iff.mp e
    have htimeout := connectTimeOut_step hclient
    obtain rfl := Option.some.inj hclient
    obtain ⟨hs, -⟩ := (keeps_update check reached s.client diff).1.requests hconnecting
    exact ⟨⟨htimeout.trans h.connectTimeOut, fun hc => absurd hc hs⟩,
      fun _ hc => absurd hc hconnecting⟩

theorem Covered.connect (h : s.Covered timeout) (hfresh : BeginsFresh s (.connect reached))
    (e : s.step beyond check (.connect reached) = some s') : s'.Covered timeout := by
  obtain ⟨client, hclient, rfl⟩ := Option.map_eq_some_iff.mp e
  have htimeout := connectTimeOut_step hclient
  obtain rfl := Option.some.inj hclient
  refine ⟨htimeout.trans h.connectTimeOut, fun _ => ?_⟩
  have hleft : intervalsLeft (connect reached s.client.members) = intervalsLeft s.client.members :=
    intervalsLeft_congr rfl rfl
  show timeout + s.client.members.tick ≤ s.elapsedAfter (.connect reached) + reconnectInterval *
    intervalsLeft (connect reached s.client.members)
  rw [hleft, elapsedAfter]
  by_cases hconnecting : s.client.members.status = .connecting
  · rw [if_pos hconnecting]
    exact h.covered hconnecting
  · rw [if_neg hconnecting, Int.zero_add, ← h.connectTimeOut]
    exact hfresh hconnecting

theorem Covered.step (h : s.Covered timeout) (hpos : 0 < timeout) (hrange : timeout < 2 ^ 15)
    (hfresh : BeginsFresh s op) (e : s.step beyond check op = some s') :
    s'.Covered timeout ∧ FullTimeout timeout s op s' := by
  by_cases hupdate : ∃ reached diff, op = .update reached diff
  · obtain ⟨reached, diff, rfl⟩ := hupdate
    exact h.update hpos hrange e
  · refine ⟨?_, fun hop => absurd hop hupdate⟩
    by_cases hconnect : ∃ reached, op = .connect reached
    · obtain ⟨reached, rfl⟩ := hconnect
      exact h.connect hfresh e
    · obtain ⟨client, hclient, rfl⟩ := Option.map_eq_some_iff.mp e
      have htimeout := connectTimeOut_step hclient
      have helapsed : s.elapsedAfter op = s.elapsed := by
        cases op with
        | connect reached => exact absurd ⟨reached, rfl⟩ hconnect
        | update reached diff => exact absurd ⟨reached, diff, rfl⟩ hupdate
        | close => rfl
        | send buff immediately => rfl
        | message d => rfl
        | output buf => rfl
      rcases counts_step (fun reached hop => hconnect ⟨reached, hop⟩)
        (fun reached diff hop => hupdate ⟨reached, diff, hop⟩) hclient with
        hends | ⟨hs, htick, hretry⟩
      · exact ⟨htimeout.trans h.connectTimeOut, fun hc => absurd hc hends⟩
      · refine h.wait htimeout hs hretry ?_
        show client.members.tick - s.elapsedAfter op ≤ _
        apply Int.le_of_eq
        rw [htick, helapsed]

/-! ### Attempts that do not -/

/-- `Update` with what is missing of the interval. -/
def passInterval (check : Ikcpcb → ℕ → ℕ) (s : Attempt) : Attempt where
  client := s.client.update check true (reconnectInterval - s.client.members.tick)
  elapsed := s.elapsed + (reconnectInterval - s.client.members.tick)

theorem connectTimeOut_passInterval (check : Ikcpcb → ℕ → ℕ) (s : Attempt) :
    (s.passInterval check).client.members.connectTimeOut = s.client.members.connectTimeOut := by
  have e : liveStep (fun _ => []) check s.client
      (.update true (reconnectInterval - s.client.members.tick))
        = some (s.passInterval check).client := rfl
  exact connectTimeOut_step e

theorem passInterval_of_givesUp (check : Ikcpcb → ℕ → ℕ) (hdead : s.client.members.alive = false)
    (hs : s.client.members.status = .connecting) (h : GivesUp s.client.members) :
    (s.passInterval check).client.members.status = .disconnected := by
  rcases update_dead_cases check true (reconnectInterval - s.client.members.tick) hdead hs with
    ⟨hshort, -⟩ | ⟨-, -, hdisconnected⟩ | ⟨-, hgives, -⟩
  · omega
  · exact hdisconnected
  · exact absurd h hgives

theorem passInterval_of_not_givesUp (check : Ikcpcb → ℕ → ℕ)
    (hdead : s.client.members.alive = false) (hs : s.client.members.status = .connecting)
    (h : ¬ GivesUp s.client.members) :
    (s.passInterval check).client.members.status = .connecting ∧
      (s.passInterval check).client.members.alive = false ∧
      (s.passInterval check).client.members.reconnectTime = nextRetry s.client.members ∧
      (s.passInterval check).client.members.tick = 0 := by
  rcases update_dead_cases check true (reconnectInterval - s.client.members.tick) hdead hs with
    ⟨hshort, -⟩ | ⟨-, hgives, -⟩ | ⟨-, -, hmore⟩
  · omega
  · exact absurd hgives h
  · exact hmore

theorem givesUp_iff (hpos : 0 < m.connectTimeOut) : GivesUp m ↔ intervalsLeft m = 1 := by
  refine ⟨intervalsLeft_of_givesUp, fun hone => ⟨hpos, ?_⟩⟩
  rw [intervalsLeft] at hone
  omega

/-- A client that connects gives up as soon as its intervals have passed. -/
theorem gives_up (beyond : List (Dispatch Byte) → List Byte) (check : Ikcpcb → ℕ → ℕ)
    (hpos : 0 < timeout) (hrange : timeout < 2 ^ 15) (n : ℕ) {s : Attempt}
    (hleft : intervalsLeft s.client.members = n + 1)
    (htimeout : s.client.members.connectTimeOut = timeout)
    (hdead : s.client.members.alive = false) (hs : s.client.members.status = .connecting) :
    ∃ (ops : List LiveOp) (s₁ : Attempt) (diff : ℤ) (s₂ : Attempt),
      (∀ op ∈ ops, ∃ diff, op = .update true diff) ∧
      ops.foldlM (step beyond check) s = some s₁ ∧
      s₁.step beyond check (.update true diff) = some s₂ ∧
      s₁.client.members.status = .connecting ∧ s₂.client.members.status = .disconnected ∧
      s₂.elapsed = s.elapsed - s.client.members.tick + reconnectInterval * (n + 1) := by
  induction n generalizing s with
  | zero =>
      have hgives := (givesUp_iff (htimeout ▸ hpos)).mpr (by omega)
      refine ⟨[], s, _, s.passInterval check, fun _ hop => absurd hop List.not_mem_nil, rfl, rfl,
        hs, passInterval_of_givesUp check hdead hs hgives, ?_⟩
      show s.elapsed + (reconnectInterval - s.client.members.tick) = _
      omega
  | succ n ih =>
      have hgives : ¬ GivesUp s.client.members := fun h => by
        rw [intervalsLeft_of_givesUp h] at hleft
        omega
      obtain ⟨hs', hdead', hretry, htick⟩ := passInterval_of_not_givesUp check hdead hs hgives
      have htimeout' := connectTimeOut_passInterval check s
      -- one interval passes, and one less is left
      have hnext := intervalsLeft_next (htimeout ▸ hpos) (htimeout ▸ hrange) hgives htimeout' hretry
      obtain ⟨ops, s₁, diff, s₂, hops, hrun, e, h₁, h₂, helapsed⟩ :=
        ih (by omega) (htimeout'.trans htimeout) hdead' hs'
      refine ⟨.update true (reconnectInterval - s.client.members.tick) :: ops, s₁, diff, s₂, ?_,
        ?_, e, h₁, h₂, ?_⟩
      · intro op hop
        rcases List.mem_cons.mp hop with rfl | hop
        · exact ⟨_, rfl⟩
        · exact hops op hop
      · rw [List.foldlM_cons]
        exact hrun
      · rw [helapsed, htick]
        show s.elapsed + (reconnectInterval - s.client.members.tick) - 0 + _ = _
        rw [Int.natCast_succ, Int.mul_add _ (n + 1 : ℤ) 1]
        omega

/-- An attempt of a client that is not alive, begun with too little. -/
theorem ends_early (beyond : List (Dispatch Byte) → List Byte) (check : Ikcpcb → ℕ → ℕ)
    (hpos : 0 < timeout) (hrange : timeout < 2 ^ 15) (hzero : s.elapsed = 0)
    (htimeout : s.client.members.connectTimeOut = timeout)
    (hdead : s.client.members.alive = false) (hs : s.client.members.status = .connecting)
    (hfresh : ¬ Fresh s.client.members) :
    ∃ (ops : List LiveOp) (s₁ : Attempt) (diff : ℤ) (s₂ : Attempt),
      (∀ op ∈ ops, ∃ diff, op = .update true diff) ∧
      ops.foldlM (step beyond check) s = some s₁ ∧
      s₁.step beyond check (.update true diff) = some s₂ ∧
      ¬ FullTimeout timeout s₁ (.update true diff) s₂ := by
  obtain ⟨n, hn⟩ : ∃ n : ℕ, intervalsLeft s.client.members = n + 1 := by
    refine ⟨(intervalsLeft s.client.members - 1).toNat, ?_⟩
    rw [intervalsLeft]
    omega
  obtain ⟨ops, s₁, diff, s₂, hops, hrun, e, h₁, h₂, helapsed⟩ :=
    gives_up beyond check hpos hrange n hn htimeout hdead hs
  refine ⟨ops, s₁, diff, s₂, hops, hrun, e, fun hfull => hfresh ?_⟩
  have hle := hfull ⟨true, diff, rfl⟩ h₁ h₂
  rw [helapsed, hzero] at hle
  rw [Fresh, hn, htimeout]
  omega

/-- An attempt that does not begin fresh can end too soon: after `Close` if the client is
alive, and then by `Update`s alone. -/
theorem begins_early (beyond : List (Dispatch Byte) → List Byte) (check : Ikcpcb → ℕ → ℕ)
    (hpos : 0 < timeout) (hrange : timeout < 2 ^ 15)
    (htimeout : s.client.members.connectTimeOut = timeout) (reached : Bool)
    (hbegins : ¬ BeginsFresh s (.connect reached)) :
    ∃ (ops : List LiveOp) (s₁ : Attempt) (diff : ℤ) (s₂ : Attempt),
      (∀ op ∈ ops, (∃ diff, op = .update true diff) ∨
        op = .close ∧ s.client.members.alive = true) ∧
      (.connect reached :: ops).foldlM (step beyond check) s = some s₁ ∧
      s₁.step beyond check (.update true diff) = some s₂ ∧
      ¬ FullTimeout timeout s₁ (.update true diff) s₂ := by
  obtain ⟨hs, hfresh⟩ := Classical.not_imp.mp hbegins
  let s' : Attempt := ⟨s.client.withMembers (connect reached s.client.members), 0⟩
  have hconnect : s.step beyond check (.connect reached) = some s' := by
    rw [step, elapsedAfter, if_neg hs]
    rfl
  cases halive : s.client.members.alive with
  | false =>
      obtain ⟨ops, s₁, diff, s₂, hops, hrun, hend⟩ := ends_early (s := s') beyond check hpos hrange
        rfl htimeout halive rfl hfresh
      refine ⟨ops, s₁, diff, s₂, fun op hop => Or.inl (hops op hop), ?_, hend⟩
      rw [List.foldlM_cons, hconnect]
      exact hrun
  -- `Update` counts only if the client is not alive, so it is closed first
  | true =>
      let s'' : Attempt := ⟨s'.client.withMembers (close s'.client.members), 0⟩
      obtain ⟨ops, s₁, diff, s₂, hops, hrun, hend⟩ := ends_early (s := s'') beyond check hpos hrange
        rfl htimeout rfl rfl hfresh
      refine ⟨.close :: ops, s₁, diff, s₂, fun op hop => ?_, ?_, hend⟩
      · rcases List.mem_cons.mp hop with rfl | hop
        · exact Or.inr ⟨rfl, rfl⟩
        · exact Or.inl (hops op hop)
      · rw [List.foldlM_cons, hconnect]
        exact hrun

/-! ### Runs -/

/-- **An attempt gets its full timeout if it begins fresh**, and otherwise can end before.
In a run of which all attempts begin fresh `Update` gives up after the timeout only; and
if at the end of a run an attempt would begin that is not fresh, there are `Update`s, after a
`Close` if the client is alive, of which the last gives up before. -/
theorem full_timeout_of_fresh (beyond : List (Dispatch Byte) → List Byte)
    (check : Ikcpcb → ℕ → ℕ) (c : KcpClient) (htick : c.members.tick = 0)
    (hretry : c.members.reconnectTime = 0) (hpos : 0 < c.members.connectTimeOut)
    (hrange : c.members.connectTimeOut < 2 ^ 15)
    (hdvd : reconnectInterval ∣ c.members.connectTimeOut) (ops : List LiveOp) :
    ((∀ pre op s, pre ++ [op] <+: ops → pre.foldlM (step beyond check) ⟨c, 0⟩ = some s →
        BeginsFresh s op) →
      ∀ pre op s s', pre ++ [op] <+: ops → pre.foldlM (step beyond check) ⟨c, 0⟩ = some s →
        s.step beyond check op = some s' → FullTimeout c.members.connectTimeOut s op s') ∧
    ∀ s reached, ops.foldlM (step beyond check) ⟨c, 0⟩ = some s →
      ¬ BeginsFresh s (.connect reached) →
      ∃ (more : List LiveOp) (s₁ : Attempt) (diff : ℤ) (s₂ : Attempt),
        (∀ op ∈ more, (∃ diff, op = .update true diff) ∨
          op = .close ∧ s.client.members.alive = true) ∧
        (ops ++ .connect reached :: more).foldlM (step beyond check) ⟨c, 0⟩ = some s₁ ∧
        s₁.step beyond check (.update true diff) = some s₂ ∧
        ¬ FullTimeout c.members.connectTimeOut s₁ (.update true diff) s₂ := by
  -- a client that was set up is fresh
  have h₀ : Covered c.members.connectTimeOut ⟨c, 0⟩ := by
    refine ⟨rfl, fun _ => ?_⟩
    have hfresh : Fresh c.members :=
      (fresh_iff hpos hdvd (by omega) (by omega) (by omega)).mpr ⟨htick, Or.inl hretry⟩
    show c.members.connectTimeOut + c.members.tick ≤ 0 + reconnectInterval * intervalsLeft c.members
    rw [Int.zero_add]
    exact hfresh
  constructor
  · intro hfresh pre op s s' hpre hrun e
    have hcovered : s.Covered c.members.connectTimeOut :=
      Run.forall_prefix_induction (step beyond check) (Covered c.members.connectTimeOut) h₀
        (fun pre op s s' hpre hrun h e => (h.step hpos hrange (hfresh pre op s hpre hrun) e).1)
        ((List.prefix_append pre [op]).trans hpre) hrun
    exact (hcovered.step hpos hrange (hfresh pre op s hpre hrun) e).2
  · intro s reached hrun hbegins
    -- no step sets the timeout
    have htimeout : s.client.members.connectTimeOut = c.members.connectTimeOut := by
      refine Run.foldlM_invariant (step beyond check)
        (fun s => s.client.members.connectTimeOut = c.members.connectTimeOut)
        (fun s op s' _ hs e => ?_) rfl hrun
      obtain ⟨client, hclient, rfl⟩ := Option.map_eq_some_iff.mp e
      exact (connectTimeOut_step hclient).trans hs
    obtain ⟨more, s₁, diff, s₂, hmore, hrun', hend⟩ :=
      begins_early beyond check hpos hrange htimeout reached hbegins
    refine ⟨more, s₁, diff, s₂, hmore, ?_, hend⟩
    rw [List.foldlM_append, hrun]
    exact hrun'

/-- The first attempt of a client that has been set up. -/
theorem full_timeout_of_first :
    let beyond : List (Dispatch Byte) → List Byte := fun _ => []
    let check : Ikcpcb → ℕ → ℕ := fun _ current => current
    let ops : List LiveOp := [.connect true, .update true 1000, .message acceptMessage]
    ((∀ pre op s, pre ++ [op] <+: ops → pre.foldlM (step beyond check) ⟨setUp, 0⟩ = some s →
        BeginsFresh s op) →
      ∀ pre op s s', pre ++ [op] <+: ops → pre.foldlM (step beyond check) ⟨setUp, 0⟩ = some s →
        s.step beyond check op = some s' → FullTimeout 6000 s op s') ∧
    ∀ s reached, ops.foldlM (step beyond check) ⟨setUp, 0⟩ = some s →
      ¬ BeginsFresh s (.connect reached) →
      ∃ (more : List LiveOp) (s₁ : Attempt) (diff : ℤ) (s₂ : Attempt),
        (∀ op ∈ more, (∃ diff, op = .update true diff) ∨
          op = .close ∧ s.client.members.alive = true) ∧
        (ops ++ .connect reached :: more).foldlM (step beyond check) ⟨setUp, 0⟩ = some s₁ ∧
        s₁.step beyond check (.update true diff) = some s₂ ∧
        ¬ FullTimeout 6000 s₁ (.update true diff) s₂ :=
  full_timeout_of_fresh _ _ setUp rfl rfl (by decide) (by decide) ⟨6, rfl⟩ _

/-- The first attempt succeeds after five intervals of six, and the second gives up after
one. -/
theorem second_attempt_ends_early :
    let beyond : List (Dispatch Byte) → List Byte := fun _ => []
    let check : Ikcpcb → ℕ → ℕ := fun _ current => current
    let ops : List LiveOp := .connect true :: List.replicate 5 (.update true 1000) ++
      [.message acceptMessage, .message disconnectMessage, .connect true, .update true 1000]
    ¬ ∀ pre op s s', pre ++ [op] <+: ops → pre.foldlM (step beyond check) ⟨setUp, 0⟩ = some s →
      s.step beyond check op = some s' → FullTimeout 6000 s op s' := by
  intro beyond check ops hall
  let pre : List LiveOp := .connect true :: List.replicate 5 (.update true 1000) ++
    [.message acceptMessage, .message disconnectMessage, .connect true]
  have hrun : (pre.foldlM (step beyond check) ⟨setUp, 0⟩).map
      (fun s => (s.client.members.status, (s.step beyond check (.update true 1000)).map
        fun s => (s.client.members.status, s.elapsed)))
        = some (.connecting, some (.disconnected, 1000)) := by
    decide +kernel
  obtain ⟨s, e, hs⟩ := Option.map_eq_some_iff.mp hrun
  obtain ⟨hconnecting, hs⟩ := Prod.mk.inj hs
  obtain ⟨s', e', hs'⟩ := Option.map_eq_some_iff.mp hs
  obtain ⟨hdisconnected, helapsed⟩ := Prod.mk.inj hs'
  have hle := hall pre _ s s' List.prefix_rfl e e' ⟨true, 1000, rfl⟩ hconnecting hdisconnected
  rw [helapsed] at hle
  omega

end Attempt

end KcpClient

end PCGForUnity
