/-
PCGForUnity/Server/Disconnects.lean

Who passes the player limit: the sessions that have disconnected recently.  In every run
with times that do not go back

    who passes the limit has disconnected recently, and nothing over is left
      ↔  nothing is over when a session comes that finds the limit reached

(`bypass_recent_iff`).

`HasRecentlyDisconnected` compares the time of an entry with now the wrong way round, so
what lies in the past is always recent.  No entry is ever over and none is erased, and an
id once in `m_disconnects` passes the limit for ever.

Design.  Times are those that the steps of a run come at, in order; `Past` is what a run
keeps, that no entry is in the future.  From it `difftime` has a known sign, and the claim
reduces to when an entry is over by its own time.
-/
import PCGForUnity.Server.LoginQueue

namespace PCGForUnity

namespace World

/-- The time of an operation. -/
def Op.now : Op → ℤ
  | addSession_ now _ => now
  | updateEach now _ _ => now

/-- Who is let in although the limit is reached has disconnected recently; and
`HasRecentlyDisconnected`, which is called then, leaves no entry that is over when it
returns false. -/
def BypassRecent (limit : UInt32) (w : World) (op : Op) (w' : World) : Prop :=
  ∀ now id, op = .addSession_ now id → limit.toNat ≤ (w.others id).length →
    (w'.queuedPlayer = w.queuedPlayer → ∃ time, (id, time) ∈ w.disconnects ∧ now - time < 1000) ∧
    ((hasRecentlyDisconnected now id w.disconnects).1 = false →
      ∀ e ∈ w'.disconnects, now - e.2 < 1000)

/-- If a session comes when the limit is reached, the entry of its id is not over, and
without one no entry is. -/
def NothingOver (limit : UInt32) (w : World) (op : Op) : Prop :=
  ∀ now id, op = .addSession_ now id → limit.toNat ≤ (w.others id).length →
    (∀ time, (id, time) ∈ w.disconnects → now - time < 1000) ∧
    (id ∉ StdMap.keys w.disconnects → ∀ e ∈ w.disconnects, now - e.2 < 1000)

/-- One session and one entry an id, and no entry in the future. -/
structure Past (limit : UInt32) (now : ℤ) (w : World) : Prop extends Stored w where
  limit_eq : w.playerLimit = limit
  entries : (StdMap.keys w.disconnects).Nodup
  past : ∀ e ∈ w.disconnects, e.2 ≤ now

variable {w w' : World} {now : ℤ} {id limit : UInt32} {op : Op}

theorem past_create (limit maxActive maxQueued : UInt32) (now : ℤ) :
    (create limit maxActive maxQueued).Past limit now where
  toStored := (queued_create limit maxActive maxQueued).toStored
  limit_eq := rfl
  entries := List.nodup_nil
  past _ he := absurd he List.not_mem_nil

theorem Past.mono {now' : ℤ} (h : w.Past limit now) (hle : now ≤ now') : w.Past limit now' :=
  { h with past := fun e he => Int.le_trans (h.past e he) hle }

/-! ### `HasRecentlyDisconnected` -/

/-- Of entries in the past none is erased, and an id that has one is recent. -/
theorem hasRecentlyDisconnected_of_past {m : StdMap UInt32 ℤ} (h : ∀ e ∈ m, e.2 ≤ now)
    (id : UInt32) : hasRecentlyDisconnected now id m = (decide (id ∈ StdMap.keys m), m) := by
  induction m with
  | nil => rfl
  | cons e m ih =>
      obtain ⟨i, time⟩ := e
      have hle : time ≤ now := h _ List.mem_cons_self
      have hmem : id ∈ StdMap.keys ((i, time) :: m) ↔ id = i ∨ id ∈ StdMap.keys m := List.mem_cons
      rw [hasRecentlyDisconnected, if_pos (by omega)]
      by_cases hid : i = id
      · rw [if_pos hid, decide_eq_true (hmem.mpr (Or.inl hid.symm))]
      · rw [if_neg hid, ih fun e he => h e (List.mem_cons_of_mem _ he)]
        refine Prod.ext ?_ rfl
        exact decide_eq_decide.mpr (hmem.trans (or_iff_right fun heq => hid heq.symm)).symm

/-! ### `AddSession_` -/

theorem Past.disconnects_addNewSession (h : w.Past limit now) (id : UInt32) :
    (w.addNewSession now id).disconnects = w.disconnects := by
  have hrecently : hasRecentlyDisconnected now (w.newSession id).sessionId (w.store id).disconnects
      = (decide (id ∈ StdMap.keys w.disconnects), w.disconnects) :=
    hasRecentlyDisconnected_of_past h.past id
  rw [addNewSession_eq, World.login]
  split
  · rw [hrecently]
    cases decide (id ∈ StdMap.keys w.disconnects) <;> rfl
  · rfl

/-- A session is let in without room exactly if its id has an entry. -/
theorem Past.let_in_iff (h : w.Past limit now) (hlimit : 0 < limit)
    (hmany : limit.toNat ≤ (w.others id).length) :
    (w.addNewSession now id).queuedPlayer = w.queuedPlayer ↔ id ∈ StdMap.keys w.disconnects := by
  have hfull : (w.store id).playerLimit > 0 ∧
      (w.store id).getActiveAndQueuedSessionCount - 1 ≥ (w.store id).playerLimit := by
    apply (h.toStored.full_store_iff id).mpr
    rw [h.limit_eq]
    exact ⟨hlimit, hmany⟩
  have hrecently : hasRecentlyDisconnected now (w.newSession id).sessionId (w.store id).disconnects
      = (decide (id ∈ StdMap.keys w.disconnects), w.disconnects) :=
    hasRecentlyDisconnected_of_past h.past id
  rw [addNewSession_eq, World.login]
  simp only [if_pos hfull, hrecently]
  by_cases hid : id ∈ StdMap.keys w.disconnects
  · rw [decide_eq_true hid]
    exact iff_of_true rfl hid
  · rw [decide_eq_false hid]
    refine iff_of_false (fun heq => ?_) hid
    have hlength : (w.queuedPlayer ++ [w.newSession id]).length = w.queuedPlayer.length :=
      congrArg List.length heq
    rw [List.length_append] at hlength
    exact Nat.succ_ne_self _ hlength

theorem Past.addNewSession (h : w.Past limit now) (id : UInt32) :
    (w.addNewSession now id).Past limit now := by
  have hdisconnects := h.disconnects_addNewSession id
  obtain ⟨hsessions, hmade, hlimit⟩ := login_frame (w.store id) now (w.newSession id)
  rw [← addNewSession_eq] at hsessions hmade hlimit
  exact
    { toStored := (h.toStored.store id).congr hsessions hmade
      limit_eq := hlimit.trans h.limit_eq
      entries := hdisconnects ▸ h.entries
      past := fun e he => h.past e (hdisconnects ▸ he) }

/-! ### `UpdateSessions` -/

/-- The entry that is noted has the time of now. -/
theorem Past.updateSession (h : w.Past limit now) (update : WorldSession → Bool)
    (itr : UInt32 × WorldSession) : (w.updateSession now update itr).Past limit now := by
  cases hupdate : update itr.2 with
  | true =>
      rw [World.updateSession, hupdate]
      exact h
  | false =>
      -- it is taken out of the queue, noted, and taken out again
      obtain ⟨disconnects, hdisconnects, heq⟩ := updateSession_eq w now hupdate
      obtain ⟨hs₁, -, hl₁, hm₁⟩ := removeQueuedPlayer_frame w itr.2
      obtain ⟨hs₂, hd₂, hl₂, hm₂⟩ :=
        removeQueuedPlayer_frame { (w.removeQueuedPlayer itr.2).1 with disconnects } itr.2
      have hsessions := hs₂.trans hs₁
      rw [heq]
      exact
        { nodup := by
            show (StdMap.keys (StdMap.erase itr.1 _)).Nodup
            rw [hsessions]
            exact StdMap.nodup_keys_erase h.nodup _
          key := fun e he => h.key e (hsessions ▸ (StdMap.mem_erase.mp he).1)
          made := fun e he => by
            show e.2.ptr < List.length (World.made _)
            rw [hm₂, hm₁]
            exact h.made e (hsessions ▸ (StdMap.mem_erase.mp he).1)
          limit_eq := (hl₂.trans hl₁).trans h.limit_eq
          entries := by
            show (StdMap.keys (World.disconnects _)).Nodup
            rw [hd₂]
            rcases hdisconnects with rfl | rfl
            · exact h.entries
            · exact StdMap.nodup_keys_assign h.entries _ _
          past := fun e he => by
            have he : e ∈ World.disconnects _ := he
            rw [hd₂] at he
            rcases hdisconnects with rfl | rfl
            · exact h.past e he
            · rcases (StdMap.mem_assign h.entries).mp he with rfl | ⟨he, -⟩
              · exact Int.le_refl _
              · exact h.past e he }

theorem Past.step (h : w.Past limit op.now) (e : w.step op = some w') : w'.Past limit op.now := by
  cases op with
  | addSession_ now id =>
      obtain rfl := Option.some.inj e
      exact h.addNewSession id
  | updateEach now order update =>
      rw [World.step, updateEach] at e
      split at e
      · obtain rfl := Option.some.inj e
        exact List.foldlRecOn (motive := Past limit now) order (World.updateSession now update) h
          fun w h itr _ => h.updateSession update itr
      · cases e

/-! ### Runs -/

/-- Before an operation nothing has happened later than it. -/
theorem past_run (limit maxActive maxQueued : UInt32) {ops : List Op}
    (htimes : (ops.map Op.now).Pairwise (· ≤ ·))
    (hrun : ops.foldlM World.step (create limit maxActive maxQueued) = some w)
    (hnow : ∀ op ∈ ops, op.now ≤ now) : w.Past limit now := by
  induction ops using List.reverseRecOn generalizing w now with
  | nil =>
      obtain rfl := Option.some.inj hrun
      exact past_create limit maxActive maxQueued now
  | append_singleton pre op ih =>
      obtain ⟨w₁, hw₁, e⟩ := Run.foldlM_concat.mp hrun
      rw [List.map_append, List.pairwise_append] at htimes
      obtain ⟨hpre, -, hlast⟩ := htimes
      have h₁ : w₁.Past limit op.now := ih hpre hw₁ fun op' hop' =>
        hlast op'.now (List.mem_map_of_mem hop') op.now (List.mem_singleton_self _)
      exact (h₁.step e).mono (hnow op (List.mem_append_right pre (List.mem_singleton_self op)))

/-- One call of `AddSession_`. -/
theorem Past.bypassRecent_iff (h : w.Past limit op.now) (hlimit : 0 < limit)
    (e : w.step op = some w') : BypassRecent limit w op w' ↔ NothingOver limit w op := by
  refine forall₂_congr fun now id => forall_congr' fun hop => forall_congr' fun hfull => ?_
  obtain rfl := hop
  obtain rfl := Option.some.inj e
  have h : w.Past limit now := h
  rw [h.let_in_iff hlimit hfull, h.disconnects_addNewSession,
    hasRecentlyDisconnected_of_past h.past, decide_eq_false_iff_not]
  refine and_congr ⟨fun hentry time htime => ?_, fun hentry hid => ?_⟩ Iff.rfl
  · obtain ⟨time', htime', hrecent⟩ := hentry (StdMap.mem_keys.mpr ⟨time, htime⟩)
    obtain rfl := (Prod.mk.inj (StdMap.eq_of_key h.entries htime htime' rfl)).2
    exact hrecent
  · obtain ⟨time, htime⟩ := StdMap.mem_keys.mp hid
    exact ⟨time, htime, hentry time htime⟩

/-- **Who passes the limit has disconnected recently**, and nothing over is left, if and only if
in the run nothing is over when a session comes that finds the limit reached. -/
theorem bypass_recent_iff (limit maxActive maxQueued : UInt32) (hlimit : 0 < limit) (ops : List Op)
    (htimes : (ops.map Op.now).Pairwise (· ≤ ·)) :
    (∀ pre op w w', pre ++ [op] <+: ops →
        pre.foldlM step (create limit maxActive maxQueued) = some w → w.step op = some w' →
        BypassRecent limit w op w') ↔
      ∀ pre op w w', pre ++ [op] <+: ops →
        pre.foldlM step (create limit maxActive maxQueued) = some w → w.step op = some w' →
        NothingOver limit w op := by
  refine forall₄_congr fun pre op w w' => forall_congr' fun hpre => forall_congr' fun hrun =>
    forall_congr' fun e => ?_
  have hpast : w.Past limit op.now := by
    have htimes := htimes.sublist (hpre.map Op.now).sublist
    rw [List.map_append, List.pairwise_append] at htimes
    refine past_run limit maxActive maxQueued htimes.1 hrun fun op' hop' => ?_
    exact htimes.2.2 op'.now (List.mem_map_of_mem hop') op.now (List.mem_singleton_self _)
  exact hpast.bypassRecent_iff hlimit e

/-- With room for one: the first session leaves, and comes back soon when another is in. -/
theorem bypass_recent_iff_of_two :
    let ops : List Op := [.addSession_ 0 1, .updateEach 10 [(1, ⟨0, 1⟩)] fun _ => false,
      .addSession_ 20 2, .addSession_ 30 1]
    (∀ pre op w w', pre ++ [op] <+: ops → pre.foldlM step (create 1 0 0) = some w →
        w.step op = some w' → BypassRecent 1 w op w') ↔
      ∀ pre op w w', pre ++ [op] <+: ops → pre.foldlM step (create 1 0 0) = some w →
        w.step op = some w' → NothingOver 1 w op :=
  bypass_recent_iff 1 0 0 (by decide) _ (by decide)

/-- A session that left at 10 passes the limit at 5000. -/
theorem bypasses_after_long :
    let ops : List Op := [.addSession_ 0 1, .updateEach 10 [(1, ⟨0, 1⟩)] fun _ => false,
      .addSession_ 20 2, .addSession_ 5000 1]
    ¬ ∀ pre op w w', pre ++ [op] <+: ops → pre.foldlM step (create 1 0 0) = some w →
      w.step op = some w' → BypassRecent 1 w op w' := by
  intro ops hall
  let pre : List Op := [.addSession_ 0 1, .updateEach 10 [(1, ⟨0, 1⟩)] fun _ => false,
    .addSession_ 20 2]
  have hrun : (pre.foldlM step (create 1 0 0)).map (fun w => ((w.others 1).length, w.disconnects,
      decide ((w.addNewSession 5000 1).queuedPlayer = w.queuedPlayer)))
        = some (1, [(1, 10)], true) := by
    decide +kernel
  obtain ⟨w, e, hw⟩ := Option.map_eq_some_iff.mp hrun
  obtain ⟨hothers, hw⟩ := Prod.mk.inj hw
  obtain ⟨hdisconnects, hqueue⟩ := Prod.mk.inj hw
  obtain ⟨hrecent, -⟩ := hall pre _ w _ List.prefix_rfl e rfl 5000 1 rfl (Nat.le_of_eq hothers.symm)
  obtain ⟨time, htime, hlt⟩ := hrecent (of_decide_eq_true hqueue)
  rw [hdisconnects] at htime
  obtain rfl := (Prod.mk.inj (List.mem_singleton.mp htime)).2
  exact absurd hlt (by decide)

end World

end PCGForUnity
