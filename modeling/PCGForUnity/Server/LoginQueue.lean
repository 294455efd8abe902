/-
PCGForUnity/Server/LoginQueue.lean

The login queue and the sessions that stand in it.  In every state of a run the queue holds
sessions of `m_mSessions`, each once,

    ↔  AddSession_ is never called for the id of a session that is queued then

(`queue_consistent_iff`).

`AddSession_` replaces a session of the same id in `m_mSessions` and does not look for the old
one in the queue.  If that was queued it stays there, stored nowhere else; this is the one way
in which the queue and the map come apart.

Design.  `Stored` holds of every run, whatever ids come: there is one session an id, stored
under its own.  `Queued` is the part that a bad call breaks.  A session is told by its address,
so the old one and the new one of an id differ, and a queued session that was replaced can
never be in the map again.
-/
import PCGForUnity.Server.World

namespace PCGForUnity

namespace World

/-- The queue holds sessions of `m_mSessions`, each once, so the count of the
others is not negative. -/
structure QueueConsistent (w : World) : Prop where
  stored : ∀ s ∈ w.queuedPlayer, w.findSession s.sessionId = some s
  nodup : w.queuedPlayer.Nodup
  length_le : w.queuedPlayer.length ≤ w.sessions.length
  active : w.getActiveSessionCount = UInt32.ofNat (w.sessions.length - w.queuedPlayer.length)

/-- What holds of every run: one session an id, stored under its own, and every
session was made before. -/
structure Stored (w : World) : Prop where
  nodup : (StdMap.keys w.sessions).Nodup
  key : ∀ e ∈ w.sessions, e.1 = e.2.sessionId
  made : ∀ e ∈ w.sessions, e.2.ptr < w.made.length

/-- The queue, as part of the invariant. -/
structure Queued (w : World) : Prop extends Stored w where
  mem : ∀ s ∈ w.queuedPlayer, (s.sessionId, s) ∈ w.sessions
  queue : w.queuedPlayer.Nodup

variable {w w' : World} {now : Int} {s sess : WorldSession} {id : UInt32}

theorem findSession_eq_some_iff (h : (StdMap.keys w.sessions).Nodup) :
    w.findSession id = some s ↔ (id, s) ∈ w.sessions := by
  rw [findSession, Option.map_eq_some_iff]
  constructor
  · rintro ⟨e, he, rfl⟩
    have hid : e.1 = id := of_decide_eq_true (List.find?_some he :)
    exact hid ▸ List.mem_of_find?_eq_some he
  · intro hmem
    have hsome : (w.sessions.find? fun e => e.1 = id).isSome :=
      List.find?_isSome.mpr ⟨_, hmem, decide_eq_true rfl⟩
    obtain ⟨e, he⟩ := Option.isSome_iff_exists.mp hsome
    have hid : e.1 = id := of_decide_eq_true (List.find?_some he :)
    exact ⟨e, he, by rw [StdMap.eq_of_key h (List.mem_of_find?_eq_some he) hmem hid]⟩

theorem length_queuedPlayer_le (hmem : ∀ s ∈ w.queuedPlayer, (s.sessionId, s) ∈ w.sessions)
    (hqueue : w.queuedPlayer.Nodup) : w.queuedPlayer.length ≤ w.sessions.length := by
  have hinj : Function.Injective fun s : WorldSession => (s.sessionId, s) :=
    fun _ _ h => (Prod.mk.inj h).2
  have hsub : w.queuedPlayer.map (fun s => (s.sessionId, s)) ⊆ w.sessions := by
    intro e he
    obtain ⟨s, hs, rfl⟩ := List.mem_map.mp he
    exact hmem s hs
  have hle := (List.subperm_of_subset (hqueue.map hinj) hsub).length_le
  rwa [List.length_map] at hle

/-- There are only so many ids. -/
theorem length_sessions_le (h : w.Stored) : w.sessions.length ≤ 2 ^ 32 := by
  have hinj : Function.Injective UInt32.toNat := fun _ _ heq => UInt32.toNat_inj.mp heq
  have hsub : (StdMap.keys w.sessions).map UInt32.toNat ⊆ List.range (2 ^ 32) := by
    intro n hn
    obtain ⟨id, -, rfl⟩ := List.mem_map.mp hn
    exact List.mem_range.mpr id.toNat_lt
  have hle := (List.subperm_of_subset (h.nodup.map hinj) hsub).length_le
  rwa [List.length_map, List.length_range, StdMap.keys, List.length_map] at hle

theorem getActiveSessionCount_eq (h : w.queuedPlayer.length ≤ w.sessions.length) :
    w.getActiveSessionCount = UInt32.ofNat (w.sessions.length - w.queuedPlayer.length) := by
  rw [getActiveSessionCount, sizeSub_of_le h]

theorem Queued.consistent (h : w.Queued) : w.QueueConsistent where
  stored s hs := (findSession_eq_some_iff h.nodup).mpr (h.mem s hs)
  nodup := h.queue
  length_le := length_queuedPlayer_le h.mem h.queue
  active := getActiveSessionCount_eq (length_queuedPlayer_le h.mem h.queue)

theorem queued_create (limit maxActive maxQueued : UInt32) :
    (create limit maxActive maxQueued).Queued where
  nodup := List.nodup_nil
  key _ he := by cases he
  made _ he := by cases he
  mem _ hs := by cases hs
  queue := List.nodup_nil

/-! ### The steps -/

theorem Queued.removeQueuedPlayer (h : w.Queued) (sess : WorldSession) :
    (w.removeQueuedPlayer sess).1.Queued ∧ sess ∉ (w.removeQueuedPlayer sess).1.queuedPlayer ∧
      (w.removeQueuedPlayer sess).1.sessions = w.sessions := by
  obtain ⟨more, rest, herase, heq, -⟩ := removeQueuedPlayer_cases w sess
  have hrest : rest.Sublist (w.queuedPlayer.erase sess) := by
    rw [herase]
    exact List.sublist_append_right _ _
  have hsub : rest.Sublist w.queuedPlayer := hrest.trans List.erase_sublist
  rw [heq]
  refine ⟨{ h with mem := fun s hs => h.mem s (hsub.mem hs), queue := h.queue.sublist hsub }, ?_, rfl⟩
  exact fun hsess => h.queue.not_mem_erase (hrest.mem hsess)

/-- A session that is not queued leaves `m_mSessions`. -/
theorem Queued.erase (h : w.Queued) {itr : UInt32 × WorldSession} (hitr : itr ∈ w.sessions)
    (hnot : itr.2 ∉ w.queuedPlayer) :
    { w with sessions := StdMap.erase itr.1 w.sessions }.Queued where
  nodup := StdMap.nodup_keys_erase h.nodup _
  key e he := h.key e (StdMap.mem_erase.mp he).1
  made e he := h.made e (StdMap.mem_erase.mp he).1
  mem s hs := by
    refine StdMap.mem_erase.mpr ⟨h.mem s hs, fun heq => hnot ?_⟩
    have hsame := StdMap.eq_of_key h.nodup (h.mem s hs) hitr heq
    rw [← hsame]
    exact hs
  queue := h.queue

/-- Every round of the loop of `UpdateSessions` keeps the invariant. -/
theorem Queued.updateSession (h : w.Queued) (now : Int) (update : WorldSession → Bool)
    {itr : UInt32 × WorldSession} (hitr : itr ∈ w.sessions) :
    (w.updateSession now update itr).Queued ∧
      ∀ e ∈ w.sessions, e.1 ≠ itr.1 → e ∈ (w.updateSession now update itr).sessions := by
  cases hupdate : update itr.2 with
  | true =>
      rw [World.updateSession, hupdate]
      exact ⟨h, fun _ he _ => he⟩
  | false =>
      obtain ⟨disconnects, -, heq⟩ := updateSession_eq w now hupdate
      obtain ⟨h₁, -, hs₁⟩ := h.removeQueuedPlayer itr.2
      have h₂ : { (w.removeQueuedPlayer itr.2).1 with disconnects }.Queued := { h₁ with }
      obtain ⟨h₃, hnot, hs₃⟩ := h₂.removeQueuedPlayer itr.2
      have hsessions := hs₃.trans hs₁
      rw [heq]
      refine ⟨h₃.erase (by rw [hsessions]; exact hitr) hnot, fun e he hne => ?_⟩
      refine StdMap.mem_erase.mpr ⟨?_, hne⟩
      rw [hsessions]
      exact he

/-- The loop of `UpdateSessions`, over sessions that are in the map. -/
theorem Queued.foldl_updateSession (now : Int) (update : WorldSession → Bool)
    {order : List (UInt32 × WorldSession)} (hkeys : (order.map Prod.fst).Nodup) (h : w.Queued)
    (horder : ∀ e ∈ order, e ∈ w.sessions) :
    (order.foldl (World.updateSession now update) w).Queued := by
  induction order generalizing w with
  | nil => exact h
  | cons itr order ih =>
      obtain ⟨hitr, hrest⟩ := List.nodup_cons.mp hkeys
      obtain ⟨h', hstays⟩ := h.updateSession now update (horder itr List.mem_cons_self)
      refine ih hrest h' fun e he => ?_
      refine hstays e (horder e (List.mem_cons_of_mem _ he)) ?_
      rintro heq
      exact hitr (heq ▸ List.mem_map_of_mem he)

theorem mem_sessions_store (h : w.Stored) {e : UInt32 × WorldSession} :
    e ∈ (w.store id).sessions ↔ e = (id, w.newSession id) ∨ e ∈ w.sessions ∧ e.1 ≠ id :=
  StdMap.mem_assign h.nodup

/-- `Stored` is about the map and the sessions made. -/
theorem Stored.congr (h : w.Stored) (hsessions : w'.sessions = w.sessions)
    (hmade : w'.made = w.made) : w'.Stored where
  nodup := hsessions ▸ h.nodup
  key e he := h.key e (hsessions ▸ he)
  made e he := hmade ▸ h.made e (hsessions ▸ he)

theorem Stored.store (h : w.Stored) (id : UInt32) : (w.store id).Stored where
  nodup := StdMap.nodup_keys_assign h.nodup _ _
  key e he := by
    rcases (mem_sessions_store h).mp he with rfl | ⟨he, -⟩
    · rfl
    · exact h.key e he
  made e he := by
    show e.2.ptr < (w.made ++ [id]).length
    rw [List.length_append]
    rcases (mem_sessions_store h).mp he with rfl | ⟨he, -⟩
    · exact Nat.lt_succ_self _
    · exact Nat.lt_succ_of_lt (h.made e he)

/-- The sessions in `m_mSessions` other than the one of this id. -/
def others (w : World) (id : UInt32) : StdMap UInt32 WorldSession := StdMap.erase id w.sessions

/-- The world is full for a new session if as many others stand in the map as may be in. -/
theorem Stored.full_store_iff (h : w.Stored) (id : UInt32) :
    (w.store id).Full ↔ 0 < w.playerLimit ∧ w.playerLimit.toNat ≤ (w.others id).length := by
  have hlength : (w.store id).sessions.length = (w.others id).length + 1 :=
    StdMap.length_assign h.nodup id _
  have hbound := length_sessions_le (h.store id)
  have hcount : (w.store id).getActiveAndQueuedSessionCount - 1
      = UInt32.ofNat (w.others id).length := by
    rw [getActiveAndQueuedSessionCount, hlength, UInt32.ofNat_add]
    exact UInt32.add_sub_cancel _ _
  have hlt : (w.others id).length < 2 ^ 32 := by omega
  rw [Full, hcount, ge_iff_le, UInt32.le_iff_toNat_le, UInt32.toNat_ofNat_of_lt' hlt]
  rfl

/-- `AddSession_` of a session none of whose id is queued. -/
theorem Queued.addNewSession (h : w.Queued) (now : Int)
    (hnot : ∀ s ∈ w.queuedPlayer, s.sessionId ≠ id) : (w.addNewSession now id).Queued := by
  have hnew : w.newSession id ∉ w.queuedPlayer := fun hs => hnot _ hs rfl
  have hstored : (w.store id).Queued :=
    { h.toStored.store id with
      mem := fun q hq => (mem_sessions_store h.toStored).mpr (Or.inr ⟨h.mem q hq, hnot q hq⟩)
      queue := h.queue }
  rw [addNewSession_eq]
  obtain ⟨disconnects, maxActive, maxQueued, -, ⟨heq, -⟩ | ⟨heq, -⟩⟩ :=
    login_cases (w.store id) now (w.newSession id)
  · exact heq ▸ { hstored with }
  · rw [heq]
    exact
      { hstored with
        mem := fun q hq => by
          rcases List.mem_append.mp hq with hq | hq
          · exact hstored.mem q hq
          · obtain rfl := List.mem_singleton.mp hq
            exact (mem_sessions_store h.toStored).mpr (Or.inl rfl)
        queue := by
          rw [← List.concat_eq_append]
          exact h.queue.concat hnew }

/-- A session that is queued when another of its id comes stays in the queue and
is not stored any more. -/
theorem Queued.not_consistent (h : w.Queued) (now : Int) (hs : s ∈ w.queuedPlayer) :
    ¬ (w.addNewSession now s.sessionId).QueueConsistent := by
  intro hcons
  have hsessions : (w.addNewSession now s.sessionId).sessions
      = (w.store s.sessionId).sessions := by
    rw [addNewSession_eq]
    exact (login_frame _ _ _).1
  have hstays : s ∈ (w.addNewSession now s.sessionId).queuedPlayer := by
    rw [addNewSession_eq]
    obtain ⟨disconnects, maxActive, maxQueued, -, ⟨heq, -⟩ | ⟨heq, -⟩⟩ :=
      login_cases (w.store s.sessionId) now (w.newSession s.sessionId)
    · rw [heq]
      exact hs
    · rw [heq]
      exact List.mem_append_left _ hs
  have hnodup := (h.toStored.store s.sessionId).nodup
  have hfind := hcons.stored s hstays
  rw [findSession, hsessions, ← findSession, findSession_eq_some_iff hnodup] at hfind
  rcases (mem_sessions_store h.toStored).mp hfind with heq | ⟨-, hne⟩
  · have hptr : s.ptr = w.made.length := congrArg WorldSession.ptr (Prod.mk.inj heq).2
    have hlt := h.made _ (h.mem s hs)
    rw [hptr] at hlt
    exact Nat.lt_irrefl _ hlt
  · exact hne rfl

theorem Queued.updateEach (h : w.Queued) {order : List (UInt32 × WorldSession)}
    {update : WorldSession → Bool} (hstep : w.updateEach now order update = some w') :
    w'.Queued := by
  rw [World.updateEach] at hstep
  split at hstep
  · rename_i hperm
    obtain rfl := Option.some.inj hstep
    exact h.foldl_updateSession now update ((hperm.map Prod.fst).nodup_iff.mpr h.nodup)
      fun e he => hperm.subset he
  · cases hstep

/-! ### Runs -/

section Runs

variable (limit maxActive maxQueued : UInt32)

/-- In a run, `AddSession_` is called only for ids of which no session is queued. -/
def LogsInNew (ops : List Op) : Prop :=
  ∀ pre now id w, pre ++ [.addSession_ now id] <+: ops →
    pre.foldlM step (create limit maxActive maxQueued) = some w →
    ∀ s ∈ w.queuedPlayer, s.sessionId ≠ id

/-- **When the queue and the map agree.**  In every state of a run the queue holds
sessions of `m_mSessions`, each once, if and only if `AddSession_` is never called
for the id of a session that is queued then. -/
theorem queue_consistent_iff (ops : List Op) :
    (∀ pre w', pre <+: ops → pre.foldlM step (create limit maxActive maxQueued) = some w' →
      w'.QueueConsistent) ↔ LogsInNew limit maxActive maxQueued ops := by
  constructor
  · intro hall
    -- the invariant holds, since a step that broke it would show
    have hqueued : ∀ {pre w'}, pre <+: ops →
        pre.foldlM step (create limit maxActive maxQueued) = some w' → w'.Queued := by
      refine Run.forall_prefix_induction step World.Queued (queued_create _ _ _) ?_
      intro pre op w₁ w₂ hpre hw₁ h hstep
      have hcons : w₂.QueueConsistent := by
        refine hall _ _ hpre ?_
        rw [List.foldlM_append, hw₁]
        show (step w₁ op).bind some = some w₂
        rw [hstep]
        rfl
      cases op with
      | addSession_ now id =>
          obtain rfl := Option.some.inj hstep
          by_cases hnot : ∀ s ∈ w₁.queuedPlayer, s.sessionId ≠ id
          · exact h.addNewSession now hnot
          · obtain ⟨s, hs⟩ := not_forall.mp hnot
            obtain ⟨hmem, hid⟩ := Classical.not_imp.mp hs
            obtain rfl := not_not.mp hid
            exact absurd hcons (h.not_consistent now hmem)
      | updateEach now order update => exact h.updateEach hstep
    intro pre now id w' hpre hw' s hs heq
    obtain rfl := heq
    refine (hqueued ((List.prefix_append pre _).trans hpre) hw').not_consistent now hs ?_
    refine hall _ _ hpre ?_
    rw [List.foldlM_append, hw']
    rfl
  · intro hnew pre w' hpre hw'
    refine Queued.consistent ?_
    refine Run.forall_prefix_induction step World.Queued (queued_create _ _ _) ?_ hpre hw'
    intro pre op w₁ w₂ hpre hw₁ h hstep
    cases op with
    | addSession_ now id =>
        obtain rfl := Option.some.inj hstep
        exact h.addNewSession now (hnew pre now id w₁ hpre hw₁)
    | updateEach now order update => exact h.updateEach hstep

end Runs

/-- With room for one, the second session queues and comes again twice: three are
queued of two sessions. -/
theorem queue_outgrows_sessions :
    ∃ w, [Op.addSession_ 0 1, .addSession_ 0 2, .addSession_ 0 2, .addSession_ 0 2].foldlM step
        (create 1 0 0) = some w ∧
      w.queuedPlayer.length = 3 ∧ w.sessions.length = 2 ∧
      w.getActiveSessionCount = 0xffffffff ∧ ¬ w.QueueConsistent :=
  ⟨_, rfl, rfl, rfl, by decide +kernel, fun h => absurd h.length_le (by decide +kernel)⟩

end World

end PCGForUnity
