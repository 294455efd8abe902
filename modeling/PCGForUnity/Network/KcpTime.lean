/-
PCGForUnity/Network/KcpTime.lean

The clock of KCP and the time that passes between `Update`s, at both ends of a connection.
If KCP was updated at `t₀`, is due again at `t`, and nothing is sent or comes, then

    the first Update that reaches t updates KCP with the time passed since t₀
      ↔  no time passed before that Update

(`keeps_up_iff`), and the client must not have timed out.

Both `Update`s take the current time to be the last one KCP was updated at plus the time
since the last `Update`, not since the last `ikcp_update`.  So the time of every `Update`
that finds KCP not due is lost.

Design.  `KcpClock` is common to both ends, so the argument is made once for it: until KCP is
due, `current` does not move.  `ikcp_check` is a parameter, since the result does not depend
on when it says that KCP is due.
-/
import PCGForUnity.Network.KcpClient
import PCGForUnity.Network.ServerFraming

namespace PCGForUnity

/-- After `Update`s with the diffs `pre`, the one with `d` is the first to reach the time `t`. -/
def FirstDue (t₀ t : Nat) (pre : List Nat) (d : Nat) : Prop :=
  (pre = [] ∨ t₀ + pre.sum < t) ∧ t ≤ t₀ + pre.sum + d

/-- `ikcp_update` was called since the calls `old`, and last of all at the time `t`. -/
def CalledLast (old new : List Nat) (t : Nat) : Prop := ∃ earlier, new = old ++ earlier ++ [t]

theorem not_calledLast_self (old : List Nat) (t : Nat) : ¬ CalledLast old old t := by
  rintro ⟨earlier, h⟩
  have := congrArg List.length h
  simp at this

namespace KcpClock

/-- `ikcp_update` ran at the time `t₀` and is due again at `t`. -/
structure UpdatedAt (c : KcpClock) (t₀ t : Nat) : Prop where
  current : c.kcp.current = t₀
  needUpdateTime : c.needUpdateTime = t
  needUpdate : c.needUpdate = false

variable {check : Ikcpcb → Nat → Nat} {c : KcpClock} {t₀ t d : Nat} {pre : List Nat}

theorem UpdatedAt.update_eq (h : c.UpdatedAt t₀ t) (hwrap : t₀ + d < 2 ^ 32) :
    c.update check d = if t ≤ t₀ + d then
      { kcp := c.kcp.update (t₀ + d), needUpdateTime := check (c.kcp.update (t₀ + d)) (t₀ + d)
        needUpdate := false } else c := by
  have hcurrent : ((t₀ + d : Int) % 2 ^ 32).toNat = t₀ + d := by omega
  simp only [KcpClock.update, h.current, h.needUpdateTime, h.needUpdate, hcurrent, Bool.false_or,
    decide_eq_true_eq, ge_iff_le]

/-- Before the time is reached nothing happens. -/
theorem UpdatedAt.foldl_update (h : c.UpdatedAt t₀ t) (hbefore : pre = [] ∨ t₀ + pre.sum < t)
    (hwrap : t₀ + pre.sum < 2 ^ 32) :
    pre.foldl (fun (c : KcpClock) (d : Nat) => c.update check d) c = c := by
  induction pre with
  | nil => rfl
  | cons d pre ih =>
      have hlt := hbefore.resolve_left (List.cons_ne_nil d pre)
      rw [List.sum_cons] at hlt hwrap
      rw [List.foldl_cons, h.update_eq (by omega), if_neg (by omega)]
      exact ih (Or.inr (by omega)) (by omega)

/-- At the first `Update` that reaches the time, KCP is updated with it exactly
when no time had passed before. -/
theorem UpdatedAt.calledLast_iff (check : Ikcpcb → Nat → Nat) (h : c.UpdatedAt t₀ t)
    (hdue : FirstDue t₀ t pre d)
    (hwrap : t₀ + pre.sum + d < 2 ^ 32) :
    CalledLast c.kcp.updates (c.update check d).kcp.updates (t₀ + pre.sum + d) ↔
      pre.sum = 0 := by
  have hreach := hdue.2
  rw [h.update_eq (by omega)]
  by_cases hzero : pre.sum = 0
  · rw [hzero, Nat.add_zero] at hreach ⊢
    rw [if_pos hreach]
    exact iff_of_true ⟨[], by rw [List.append_nil]; rfl⟩ rfl
  · refine iff_of_false (fun hcalled => ?_) hzero
    split at hcalled
    · -- it is called, with the time that passed since the last `Update` only
      obtain ⟨earlier, heq⟩ := hcalled
      have htime := (List.append_inj' heq rfl).2
      rw [List.singleton_inj] at htime
      omega
    · exact not_calledLast_self _ _ hcalled

end KcpClock

/-! ### The server's end -/

namespace KcpSession

/-- Updates with one difference after another. -/
def updateAll (check : Ikcpcb → Nat → Nat) (dataHandler : Option DataHandler) (s : KcpSession)
    (ds : List Nat) : Option KcpSession :=
  ds.foldlM (fun s d => s.update check dataHandler d) s

/-- While a session is alive and no message comes, `Update` only runs the clock. -/
theorem updateAll_eq {s : KcpSession} {r : Receiver Byte} (h : s.buffers.Holds r)
    (hunread : r.unread = []) (halive : s.members.alive = true) (check : Ikcpcb → Nat → Nat)
    (dataHandler : Option DataHandler) (ds : List Nat) :
    s.updateAll check dataHandler ds = some { s with members := { s.members with
      toKcpClock := ds.foldl (fun (c : KcpClock) (d : Nat) => c.update check d)
        s.members.toKcpClock } } := by
  induction ds generalizing s with
  | nil => rfl
  | cons d ds ih =>
      rw [updateAll, List.foldlM_cons, update_eq h hunread, if_pos halive]
      exact ih h halive

end KcpSession

/-! ### The client's end -/

namespace KcpClient

/-- Updates with one difference after another. -/
def updateAll (check : Ikcpcb → Nat → Nat) (reached : Bool) (c : KcpClient) (ds : List Nat) :
    KcpClient :=
  ds.foldl (fun c (d : Nat) => c.update check reached d) c

section Update

variable {check : Ikcpcb → Nat → Nat} {reached : Bool} {c : KcpClient} {d : Nat}

theorem onResponse_sent (m : ClientMembers) (response : ClientResponse) :
    (onResponse m response).sent = m.sent := by
  rw [onResponse]
  split <;> rfl

theorem onResponse_alive (m : ClientMembers) (response : ClientResponse) :
    (onResponse m response).alive = m.alive := by
  rw [onResponse]
  split <;> rfl

/-- A client that is not alive sends nothing and leaves KCP alone. -/
theorem update_of_dead (check : Ikcpcb → Nat → Nat) (reached : Bool) (d : Nat)
    (h : c.members.alive = false) :
    (c.update check reached d).members.alive = false ∧
      (c.update check reached d).members.kcp = c.members.kcp ∧
      (c.update check reached d).members.sent = c.members.sent := by
  simp only [update, h, Bool.not_false, if_true]
  split
  · split
    · split
      · exact ⟨onResponse_alive _ _, onResponse_kcp _ _, onResponse_sent _ _⟩
      · exact ⟨rfl, rfl, rfl⟩
    · exact ⟨rfl, rfl, rfl⟩
  · exact ⟨h, rfl, rfl⟩

/-- A client that is alive: it is closed if it has heard nothing for too long,
and otherwise sends a heartbeat if it is time, and runs the clock. -/
theorem update_of_alive (h : c.members.alive = true) :
    c.update check reached d =
      let m := countTime c.members d
      if clientTimeoutMs ≤ m.timeOutTick then { c with members := close m }
      else { c with members := { heartBeat m with
        toKcpClock := (heartBeat m).toKcpClock.update check d } } := by
  simp only [update, h, Bool.not_true, Bool.false_eq_true, if_false, ge_iff_le]

/-- If it is time for a heartbeat, that is sent, or the connection is not open. -/
theorem heartBeat_cases (m : ClientMembers) :
    (∃ buff, (heartBeat m).sent = m.sent ++ [buff]) ∨
      (heartBeat m).sent = m.sent ∧ (heartBeat m).alive = m.alive ∧
        (heartBeat m).timeOutTick = m.timeOutTick ∧ (heartBeat m).toKcpClock = m.toKcpClock := by
  rw [heartBeat]
  split
  · rw [sendHeartBeat, send]
    split
    · exact Or.inr ⟨rfl, rfl, rfl, rfl⟩
    · exact Or.inl ⟨_, rfl⟩
  · exact Or.inr ⟨rfl, rfl, rfl, rfl⟩

theorem sent_prefix_heartBeat (m : ClientMembers) : m.sent <+: (heartBeat m).sent := by
  rcases heartBeat_cases m with ⟨buff, heq⟩ | ⟨heq, -⟩
  · exact ⟨[buff], heq.symm⟩
  · rw [heq]

theorem sent_prefix_update (c : KcpClient) (d : Nat) :
    c.members.sent <+: (c.update check reached d).members.sent := by
  cases halive : c.members.alive with
  | false => rw [(update_of_dead _ _ _ halive).2.2]
  | true =>
      rw [update_of_alive halive]
      simp only
      split
      · exact List.prefix_refl _
      · exact sent_prefix_heartBeat (countTime c.members d)

theorem updateAll_append (c : KcpClient) (pre post : List Nat) :
    c.updateAll check reached (pre ++ post)
      = (c.updateAll check reached pre).updateAll check reached post :=
  List.foldl_append

theorem sent_prefix_updateAll (c : KcpClient) (ds : List Nat) :
    c.members.sent <+: (c.updateAll check reached ds).members.sent := by
  induction ds generalizing c with
  | nil => exact List.prefix_refl _
  | cons d ds ih => exact (sent_prefix_update c d).trans (ih _)

/-- Nothing was sent up to a point if nothing was sent up to a later one. -/
theorem sent_eq_of_append {pre post : List Nat}
    (h : (c.updateAll check reached (pre ++ post)).members.sent = c.members.sent) :
    (c.updateAll check reached pre).members.sent = c.members.sent := by
  have hpost : (c.updateAll check reached pre).members.sent
      <+: (c.updateAll check reached (pre ++ post)).members.sent := by
    rw [updateAll_append]
    exact sent_prefix_updateAll _ post
  apply ((sent_prefix_updateAll c pre).eq_of_length_le _).symm
  rw [← h]
  exact hpost.length_le

/-- An `Update` that sends nothing closes the client or runs its clock. -/
theorem update_of_not_sent (check : Ikcpcb → Nat → Nat) (reached : Bool) (d : Nat)
    (h : c.members.alive = true)
    (hwrap : c.members.timeOutTick + d < 2 ^ 32)
    (hsent : (c.update check reached d).members.sent = c.members.sent) :
    clientTimeoutMs ≤ c.members.timeOutTick + d ∧
        (c.update check reached d).members.alive = false ∧
        (c.update check reached d).members.kcp = c.members.kcp ∨
      c.members.timeOutTick + d < clientTimeoutMs ∧
        (c.update check reached d).members.alive = true ∧
        (c.update check reached d).members.timeOutTick = c.members.timeOutTick + d ∧
        (c.update check reached d).members.toKcpClock
          = c.members.toKcpClock.update check d := by
  have htime : (countTime c.members d).timeOutTick = c.members.timeOutTick + d := by
    show ((c.members.timeOutTick + d : Int) % 2 ^ 32).toNat = _
    omega
  rw [update_of_alive h] at hsent ⊢
  simp only [htime] at hsent ⊢
  split
  · exact Or.inl ⟨‹_›, rfl, rfl⟩
  · refine Or.inr ⟨Nat.not_le.mp ‹_›, ?_⟩
    rw [if_neg ‹_›] at hsent
    rcases heartBeat_cases (countTime c.members d) with ⟨buff, hmore⟩ | ⟨-, halive, htick, hclock⟩
    · -- the heartbeat would be one more entry
      have hlen := congrArg List.length (hmore.symm.trans hsent)
      rw [List.length_append, List.length_singleton] at hlen
      exact absurd hlen (Nat.succ_ne_self _)
    · exact ⟨halive.trans h, htick.trans htime, by rw [hclock]; rfl⟩

/-- Up to the time KCP is due the client is closed or leaves it alone. -/
theorem updateAll_of_not_sent {t₀ t : Nat} {pre : List Nat} (h : c.members.alive = true)
    (hclock : c.members.toKcpClock.UpdatedAt t₀ t) (hbefore : pre = [] ∨ t₀ + pre.sum < t)
    (hwrap : t₀ + pre.sum < 2 ^ 32) (htick : c.members.timeOutTick + pre.sum < 2 ^ 32)
    (hsent : (c.updateAll check reached pre).members.sent = c.members.sent) :
    clientTimeoutMs ≤ c.members.timeOutTick + pre.sum ∧
        (c.updateAll check reached pre).members.alive = false ∧
        (c.updateAll check reached pre).members.kcp = c.members.kcp ∨
      (c.updateAll check reached pre).members.alive = true ∧
        (c.updateAll check reached pre).members.timeOutTick
          = c.members.timeOutTick + pre.sum ∧
        (c.updateAll check reached pre).members.toKcpClock = c.members.toKcpClock := by
  induction pre using List.reverseRecOn with
  | nil => exact Or.inr ⟨h, rfl, rfl⟩
  | append_singleton pre d ih =>
      have hlt := hbefore.resolve_left (by simp)
      rw [List.sum_append, List.sum_singleton] at hlt hwrap htick ⊢
      -- nothing is sent in the whole run, so nothing before the last `Update` either
      have hpre := sent_eq_of_append hsent
      rw [updateAll_append] at hsent ⊢
      show _ ∧ (Endpoint.members (update _ _ _ _)).alive = _ ∧ _ ∨ _
      rcases ih (Or.inr (by omega)) (by omega) (by omega) hpre with
        ⟨hle, hdead, hkcp⟩ | ⟨halive, htime, hsame⟩
      · obtain ⟨hdead', hkcp', -⟩ := update_of_dead check reached d hdead
        exact Or.inl ⟨by omega, hdead', hkcp'.trans hkcp⟩
      · rcases update_of_not_sent check reached d halive
          (by rw [htime]; omega) (hsent.trans hpre.symm) with
          ⟨hle, hdead, hkcp⟩ | ⟨-, halive', htime', hclock'⟩
        · rw [htime] at hle
          exact Or.inl ⟨by omega, hdead, hkcp.trans (congrArg KcpClock.kcp hsame)⟩
        · refine Or.inr ⟨halive', by rw [← Nat.add_assoc, ← htime]; exact htime', ?_⟩
          -- KCP is not due yet
          rw [hsame, hclock.update_eq (by omega), if_neg (by omega)] at hclock'
          exact hclock'

/-- The first `Update` that reaches the time, of a client that sends nothing. -/
theorem updateAll_calledLast_iff {t₀ t : Nat} {pre : List Nat} (h : c.members.alive = true)
    (hclock : c.members.toKcpClock.UpdatedAt t₀ t) (hdue : FirstDue t₀ t pre d)
    (hwrap : t₀ + pre.sum + d < 2 ^ 32) (htick : c.members.timeOutTick + pre.sum + d < 2 ^ 32)
    (hsent : (c.updateAll check reached (pre ++ [d])).members.sent = c.members.sent) :
    CalledLast c.members.kcp.updates
        (c.updateAll check reached (pre ++ [d])).members.kcp.updates (t₀ + pre.sum + d) ↔
      pre.sum = 0 ∧ c.members.timeOutTick + d < clientTimeoutMs := by
  have hpre := sent_eq_of_append hsent
  rw [updateAll_append] at hsent ⊢
  show CalledLast _ (update check reached _ d).members.kcp.updates _ ↔ _
  rcases updateAll_of_not_sent h hclock hdue.1 (by omega) (by omega) hpre with
    ⟨hle, hdead, hkcp⟩ | ⟨halive, htime, hsame⟩
  · -- the client timed out before, and an `Update` of it does nothing
    obtain ⟨-, hkcp', -⟩ := update_of_dead check reached d hdead
    rw [hkcp', hkcp]
    exact iff_of_false (not_calledLast_self _ _) (by omega)
  · rcases update_of_not_sent check reached d halive
      (by rw [htime]; omega) (hsent.trans hpre.symm) with
      ⟨hle, -, hkcp⟩ | ⟨hlt, -, -, hclock'⟩
    · rw [hkcp, hsame]
      exact iff_of_false (not_calledLast_self _ _) (by omega)
    · rw [hclock', hsame, hclock.calledLast_iff check hdue hwrap]
      exact (and_iff_left_of_imp fun hzero => by omega).symm

end Update

end KcpClient

/-! ### Both ends -/

open KcpSession in
/-- **When the clock of KCP keeps up.**  `ikcp_update` ran at the time `t₀` and is
due again at `t`; no message is sent and no message comes, and `Update` is called
with the diffs `ds`.  KCP is updated with the time passed since `t₀` by the first
`Update` that reaches `t`, if there is one, if and only if no time had passed
before this `Update`; at the client's end, if also it does not time out there. -/
theorem keeps_up_iff (check : Ikcpcb → Nat → Nat) {t₀ t : Nat} {ds : List Nat}
    (hwrap : t₀ + ds.sum < 2 ^ 32) :
    (∀ {clientConv serverId : UInt16} {addr : SockAddr} {status : SessionStatus}
        {tick needUpdateTime : Nat} {dataHandler : Option DataHandler} {s : KcpSession},
      Reachable dataHandler (accepted clientConv serverId addr status tick needUpdateTime)
        false s →
      s.members.alive = true → s.members.toKcpClock.UpdatedAt t₀ t →
      ((∀ pre d post, ds = pre ++ d :: post → FirstDue t₀ t pre d →
        ∃ s', s.updateAll check dataHandler (pre ++ [d]) = some s' ∧
          CalledLast s.members.kcp.updates s'.members.kcp.updates (t₀ + pre.sum + d)) ↔
      ∀ pre d post, ds = pre ++ d :: post → FirstDue t₀ t pre d → pre.sum = 0)) ∧
    ∀ {reached : Bool} {c : KcpClient},
      c.members.alive = true → c.members.toKcpClock.UpdatedAt t₀ t →
      c.members.timeOutTick + ds.sum < 2 ^ 32 →
      (c.updateAll check reached ds).members.sent = c.members.sent →
      ((∀ pre d post, ds = pre ++ d :: post → FirstDue t₀ t pre d →
        CalledLast c.members.kcp.updates
          (c.updateAll check reached (pre ++ [d])).members.kcp.updates (t₀ + pre.sum + d)) ↔
      ∀ pre d post, ds = pre ++ d :: post → FirstDue t₀ t pre d →
        pre.sum = 0 ∧ c.members.timeOutTick + d < KcpClient.clientTimeoutMs) := by
  have hsum : ∀ {pre post : List Nat} {d : Nat}, ds = pre ++ d :: post →
      pre.sum + d ≤ ds.sum := by
    rintro pre post d rfl
    rw [List.sum_append, List.sum_cons]
    omega
  constructor
  · -- the server's end: `UpdateAll` is a fold as long as nothing is read
    intro clientConv serverId addr status tick needUpdateTime dataHandler s hreach halive hclock
    obtain ⟨r, hholds, hunread⟩ := hreach.holds ReadBuffers.holds_init rfl
    refine forall_congr' fun pre => forall_congr' fun d => forall_congr' fun post =>
      forall_congr' fun hds => forall_congr' fun hdue => ?_
    have hle := hsum hds
    rw [← hclock.calledLast_iff check hdue (by omega),
      updateAll_eq hholds (hunread rfl) halive, List.foldl_concat,
      hclock.foldl_update hdue.1 (by omega)]
    constructor
    · rintro ⟨s', hs', hcalled⟩
      obtain rfl := Option.some.inj hs'
      exact hcalled
    · intro hcalled
      exact ⟨_, rfl, hcalled⟩
  · -- the client's end
    intro reached c halive hclock htick hsent
    refine forall_congr' fun pre => forall_congr' fun d => forall_congr' fun post =>
      forall_congr' fun hds => forall_congr' fun hdue => ?_
    have hle := hsum hds
    refine KcpClient.updateAll_calledLast_iff halive hclock hdue (by omega) (by omega) ?_
    rw [hds, List.append_cons] at hsent
    exact KcpClient.sent_eq_of_append hsent

open KcpSession in
/-- Both ends at time 10, due again at 20, with two `Update`s after 5 each. -/
theorem keeps_up_iff_of_two_diffs :
    let s := accepted 1 2 ⟨2, 4000, 0⟩ .connecting 0 20
    let c : KcpClient :=
      { buffers := .init
        members := KcpClient.send (KcpClient.create 2 ⟨2, 4000, 0⟩ none false ⟨0, ⟨2, 4000, 0⟩⟩
          .connected 0 0 20 false true).members [] true }
    let check : Ikcpcb → Nat → Nat := fun _ current => current + 10
    ((∀ pre d post, [5, 5] = pre ++ d :: post → FirstDue 10 20 pre d →
        ∃ s', s.updateAll check none (pre ++ [d]) = some s' ∧
          CalledLast s.members.kcp.updates s'.members.kcp.updates (10 + pre.sum + d)) ↔
      ∀ pre d post, [5, 5] = pre ++ d :: post → FirstDue 10 20 pre d → pre.sum = 0) ∧
    ((∀ pre d post, [5, 5] = pre ++ d :: post → FirstDue 10 20 pre d →
        CalledLast c.members.kcp.updates
          (c.updateAll check false (pre ++ [d])).members.kcp.updates (10 + pre.sum + d)) ↔
      ∀ pre d post, [5, 5] = pre ++ d :: post → FirstDue 10 20 pre d →
        pre.sum = 0 ∧ c.members.timeOutTick + d < KcpClient.clientTimeoutMs) :=
  ⟨(keeps_up_iff _ (by decide)).1 .start rfl ⟨rfl, rfl, rfl⟩,
    (keeps_up_iff _ (by decide)).2 rfl ⟨rfl, rfl, rfl⟩ (by decide) rfl⟩

open KcpSession in
/-- A session that an `Update` left at time 10, due again at 20: the second `Update`
after 5 reaches the time, but `ikcp_update` is not called. -/
theorem second_diff_lost :
    let check : Ikcpcb → Nat → Nat := fun _ current => current + 10
    ∃ s, (accepted 1 2 ⟨2, 4000, 0⟩ .connecting 0 0).update check none 0 = some s ∧
      s.members.alive = true ∧ s.members.toKcpClock.UpdatedAt 10 20 ∧ FirstDue 10 20 [5] 5 ∧
      ∃ s', s.updateAll check none [5, 5] = some s' ∧
        ¬ CalledLast s.members.kcp.updates s'.members.kcp.updates 20 :=
  ⟨_, rfl, rfl, ⟨rfl, rfl, rfl⟩, ⟨Or.inr (by decide), by decide⟩, _, rfl,
    not_calledLast_self _ _⟩

end PCGForUnity
