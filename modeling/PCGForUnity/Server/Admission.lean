/-
PCGForUnity/Server/Admission.lean

Who is let into the world, when no id comes twice.  In every run with a limit above 0

* at most the limit are in, and exactly the limit while sessions wait;
* a session is queued once, and sessions are let in in the order in which they were queued

(`admits_exactly`).

Design.  A session that leaves is counted as long as it stands in the map, through both calls
of `RemoveQueuedPlayer`.  The first call makes room for one session where there was none, and
the second finds none (`Leaving.removeQueuedPlayer`); so the world is never over its limit,
nor below it while sessions wait.

`Exact` is the invariant between two steps and `Leaving` the one between the two calls, with
the session that leaves neither in nor queued.  `InTurn` keeps the order: the queue is what is
left of all that were queued, behind those that were let in.
-/
import PCGForUnity.Server.LoginQueue

namespace PCGForUnity

namespace World

/-- The sessions in `m_mSessions` that are not queued. -/
def notQueued (w : World) : StdMap UInt32 WorldSession :=
  w.sessions.filter fun e => e.2 ∉ w.queuedPlayer

/-- The queue is what is left of the sessions queued so far, behind those that were let in. -/
structure InTurn (w : World) : Prop extends Queued w where
  fifo : (w.promoted ++ w.queuedPlayer).Sublist w.queued
  once : w.queued.Nodup
  queued : ∀ s ∈ w.queued, s.ptr < w.made.length
  ids : ∀ id ∈ StdMap.keys w.sessions, id ∈ w.made
  gone : ∀ id ∈ StdMap.keys w.disconnects, id ∈ w.made

/-- At most the limit are in, and exactly the limit while sessions wait. -/
structure Exact (limit : UInt32) (w : World) : Prop extends InTurn w where
  limit_eq : w.playerLimit = limit
  le : w.sessions.length ≤ w.queuedPlayer.length + limit.toNat
  full : w.queuedPlayer ≠ [] → w.sessions.length = w.queuedPlayer.length + limit.toNat

/-- A session leaves: it is not queued any more, and the others are as they should be. -/
structure Leaving (limit : UInt32) (w : World) (sess : WorldSession) : Prop extends InTurn w where
  limit_eq : w.playerLimit = limit
  le : w.sessions.length ≤ w.queuedPlayer.length + limit.toNat + 1
  full : w.queuedPlayer ≠ [] → w.sessions.length = w.queuedPlayer.length + limit.toNat + 1
  notMem : sess ∉ w.queuedPlayer

variable {w w' : World} {now : Int} {s sess : WorldSession} {id limit : UInt32}

/-! ### Counting -/

/-- The sessions of the map that are queued are the queue. -/
theorem Queued.filter_perm (h : w.Queued) :
    (w.sessions.filter fun e => e.2 ∈ w.queuedPlayer).Perm
      (w.queuedPlayer.map fun s => (s.sessionId, s)) := by
  have hinj : Function.Injective fun s : WorldSession => (s.sessionId, s) :=
    fun _ _ heq => (Prod.mk.inj heq).2
  refine (List.perm_ext_iff_of_nodup (h.nodup.of_map.filter _) (h.queue.map hinj)).mpr fun e => ?_
  rw [List.mem_filter, decide_eq_true_iff, List.mem_map]
  constructor
  · rintro ⟨he, hs⟩
    exact ⟨e.2, hs, Prod.ext (h.key e he).symm rfl⟩
  · rintro ⟨s, hs, rfl⟩
    exact ⟨h.mem s hs, hs⟩

theorem Queued.length_notQueued (h : w.Queued) :
    w.queuedPlayer.length + w.notQueued.length = w.sessions.length := by
  have hlength := h.filter_perm.length_eq
  rw [List.length_map] at hlength
  have hsplit := List.length_eq_length_filter_add (l := w.sessions)
    fun e => decide (e.2 ∈ w.queuedPlayer)
  simp only [← decide_not] at hsplit
  rw [hsplit, hlength]
  rfl

/-- A session that is not queued is one more than the queue. -/
theorem Queued.length_lt (h : w.Queued) {itr : UInt32 × WorldSession} (hitr : itr ∈ w.sessions)
    (hnot : itr.2 ∉ w.queuedPlayer) : w.queuedPlayer.length < w.sessions.length := by
  rw [← h.length_notQueued]
  refine Nat.lt_add_of_pos_right (List.length_pos_of_mem (a := itr) ?_)
  exact List.mem_filter.mpr ⟨hitr, decide_eq_true hnot⟩

theorem toNat_getActiveSessionCount (h : w.Queued)
    (hlt : w.sessions.length < w.queuedPlayer.length + 2 ^ 32) :
    w.getActiveSessionCount.toNat = w.sessions.length - w.queuedPlayer.length := by
  rw [h.consistent.active]
  exact UInt32.toNat_ofNat_of_lt' (show _ < 2 ^ 32 by omega)

theorem countWithout_of_mem (hmem : sess ∈ w.queuedPlayer) :
    w.countWithout sess = w.getActiveSessionCount := by
  rw [countWithout, decide_eq_true hmem]
  rfl

/-- The session itself is not counted. -/
theorem toNat_countWithout (h : w.Queued) (hnot : sess ∉ w.queuedPlayer)
    (hpos : w.queuedPlayer.length < w.sessions.length)
    (hlt : w.sessions.length < w.queuedPlayer.length + 2 ^ 32) :
    (w.countWithout sess).toNat = w.sessions.length - w.queuedPlayer.length - 1 := by
  have hcount := toNat_getActiveSessionCount h hlt
  have hne : w.getActiveSessionCount ≠ 0 := by
    intro hzero
    rw [hzero] at hcount
    have : (0 : UInt32).toNat = 0 := rfl
    omega
  have hcond : (!decide (sess ∈ w.queuedPlayer) && w.getActiveSessionCount != 0) = true := by
    rw [decide_eq_false hnot, bne_iff_ne.mpr hne]
    rfl
  rw [countWithout, if_pos hcond, UInt32.toNat_sub_of_le _ _ ?_, hcount]
  · rfl
  · rw [UInt32.le_iff_toNat_le, hcount]
    show 1 ≤ _
    omega

/-! ### Leaving -/

theorem InTurn.removeQueuedPlayer (h : w.InTurn) {more rest : List WorldSession}
    (herase : w.queuedPlayer.erase sess = more ++ rest)
    (heq : (w.removeQueuedPlayer sess).1
      = { w with queuedPlayer := rest, promoted := w.promoted ++ more }) :
    (w.removeQueuedPlayer sess).1.InTurn ∧ sess ∉ rest := by
  obtain ⟨hqueued, hnot, -⟩ := h.toQueued.removeQueuedPlayer sess
  rw [heq] at hqueued hnot ⊢
  refine ⟨{ h with toQueued := hqueued, fifo := ?_ }, hnot⟩
  show (w.promoted ++ more ++ rest).Sublist w.queued
  rw [List.append_assoc, ← herase]
  exact (List.erase_sublist.append_left w.promoted).trans h.fifo

/-- The first call of `RemoveQueuedPlayer` for a session that leaves. -/
theorem Exact.removeQueuedPlayer (h : w.Exact limit) (hlimit : 0 < limit)
    {itr : UInt32 × WorldSession} (hitr : itr ∈ w.sessions) :
    (w.removeQueuedPlayer itr.2).1.Leaving limit itr.2 := by
  obtain ⟨more, rest, herase, heq, hwhy⟩ := removeQueuedPlayer_cases w itr.2
  have hremove := congrArg Prod.fst heq
  obtain ⟨hturn, hnot⟩ := h.toInTurn.removeQueuedPlayer herase hremove
  have hlength := congrArg List.length herase
  rw [List.length_append] at hlength
  have hle := h.le
  have hlt := limit.toNat_lt
  -- what is to be shown of the numbers
  suffices hnumbers : w.sessions.length ≤ rest.length + limit.toNat + 1 ∧
      (rest ≠ [] → w.sessions.length = rest.length + limit.toNat + 1) by
    rw [hremove] at hturn ⊢
    exact { toInTurn := hturn, limit_eq := h.limit_eq, le := hnumbers.1, full := hnumbers.2,
            notMem := hnot }
  by_cases hmem : itr.2 ∈ w.queuedPlayer
  · -- it was queued, so the world is full and stays so
    have hfull := h.full (List.ne_nil_of_mem hmem)
    have hpos := List.length_pos_of_mem hmem
    rw [List.length_erase_of_mem hmem] at hlength
    rcases hwhy with ⟨rfl, -⟩ | ⟨popSess, rfl, hroom⟩
    · rw [List.length_nil] at hlength
      omega
    · exfalso
      have hcount := toNat_getActiveSessionCount h.toQueued (by omega)
      rw [countWithout_of_mem hmem, h.limit_eq, UInt32.lt_iff_toNat_lt, hcount] at hroom
      rcases hroom with rfl | hroom
      · exact absurd hlimit (UInt32.lt_irrefl _)
      · omega
  · -- it was in, so there is room for the first of the queue
    have hpos := h.toQueued.length_lt hitr hmem
    have hcount := toNat_countWithout h.toQueued hmem hpos (by omega)
    rw [List.erase_of_not_mem hmem] at hlength
    rcases hwhy with ⟨rfl, hwhy⟩ | ⟨popSess, rfl, -⟩
    · have hrest : rest = [] := by
        refine hwhy.resolve_right (not_not.mpr (Or.inr ?_))
        rw [h.limit_eq, UInt32.lt_iff_toNat_lt, hcount]
        omega
      rw [hrest] at hlength ⊢
      rw [List.length_nil] at hlength ⊢
      exact ⟨by omega, fun hne => absurd rfl hne⟩
    · rw [List.length_singleton] at hlength
      have hfull := h.full (List.ne_nil_of_length_pos (by omega))
      omega

/-- The second call finds no room. -/
theorem Leaving.removeQueuedPlayer (h : w.Leaving limit sess) (hlimit : 0 < limit) :
    (w.removeQueuedPlayer sess).1 = w := by
  obtain ⟨more, rest, herase, heq, hwhy⟩ := removeQueuedPlayer_cases w sess
  rw [List.erase_of_not_mem h.notMem] at herase
  obtain rfl : more = [] := by
    rcases hwhy with ⟨hmore, -⟩ | ⟨popSess, rfl, hroom⟩
    · exact hmore
    · exfalso
      have hlength := congrArg List.length herase
      rw [List.length_append, List.length_singleton] at hlength
      have hfull := h.full (by rw [herase]; exact List.cons_ne_nil _ _)
      have hids := length_sessions_le h.toStored
      have hcount := toNat_countWithout h.toQueued h.notMem (by omega) (by omega)
      rw [h.limit_eq, UInt32.lt_iff_toNat_lt, hcount] at hroom
      rcases hroom with rfl | hroom
      · exact absurd hlimit (UInt32.lt_irrefl _)
      · omega
  rw [heq, List.append_nil, ← List.nil_append rest, ← herase]

/-- Once it is out of the map, the world is as it should be. -/
theorem Leaving.erase {itr : UInt32 × WorldSession} (h : w.Leaving limit itr.2)
    (hitr : itr ∈ w.sessions) : { w with sessions := StdMap.erase itr.1 w.sessions }.Exact limit := by
  have hlength := StdMap.length_erase h.nodup (StdMap.mem_keys.mpr ⟨itr.2, hitr⟩)
  have hle := h.le
  have hfull := h.full
  exact
    { toInTurn := { h.toInTurn with
        toQueued := h.toQueued.erase hitr h.notMem
        ids := fun id hid => by
          obtain ⟨v, hv⟩ := StdMap.mem_keys.mp hid
          exact h.ids id (StdMap.mem_keys.mpr ⟨v, (StdMap.mem_erase.mp hv).1⟩) }
      limit_eq := h.limit_eq
      le := by
        show (StdMap.erase itr.1 w.sessions).length ≤ w.queuedPlayer.length + limit.toNat
        omega
      full := fun hne => by
        have := hfull hne
        show (StdMap.erase itr.1 w.sessions).length = w.queuedPlayer.length + limit.toNat
        omega }

/-- Every round of the loop of `UpdateSessions`. -/
theorem Exact.updateSession (h : w.Exact limit) (hlimit : 0 < limit) (now : Int)
    (update : WorldSession → Bool) {itr : UInt32 × WorldSession} (hitr : itr ∈ w.sessions) :
    (w.updateSession now update itr).Exact limit := by
  cases hupdate : update itr.2 with
  | true =>
      rw [World.updateSession, hupdate]
      exact h
  | false =>
      obtain ⟨disconnects, hdisconnects, heq⟩ := updateSession_eq w now hupdate
      have h₁ := h.removeQueuedPlayer hlimit hitr
      obtain ⟨-, -, hs₁⟩ := h.toQueued.removeQueuedPlayer itr.2
      set w₁ := (w.removeQueuedPlayer itr.2).1
      have hitr₁ : itr ∈ w₁.sessions := by
        rw [hs₁]
        exact hitr
      have hmade : w₁.made = w.made := (removeQueuedPlayer_frame w itr.2).2.2.2
      have h₂ : { w₁ with disconnects }.Leaving limit itr.2 :=
        { h₁ with
          gone := fun id hid => by
            rcases mem_keys_disconnects hdisconnects hid with rfl | hid
            · exact h₁.ids _ (StdMap.mem_keys.mpr ⟨itr.2, by rw [← h₁.key itr hitr₁]; exact hitr₁⟩)
            · rw [hmade]
              exact h.gone id hid }
      rw [heq, h₂.removeQueuedPlayer hlimit]
      exact h₂.erase hitr₁

theorem Exact.foldl_updateSession (hlimit : 0 < limit) (now : Int) (update : WorldSession → Bool)
    {order : List (UInt32 × WorldSession)} (hkeys : (order.map Prod.fst).Nodup) (h : w.Exact limit)
    (horder : ∀ e ∈ order, e ∈ w.sessions) :
    (order.foldl (World.updateSession now update) w).Exact limit := by
  induction order generalizing w with
  | nil => exact h
  | cons itr order ih =>
      obtain ⟨hitr, hrest⟩ := List.nodup_cons.mp hkeys
      have hmem := horder itr List.mem_cons_self
      obtain ⟨-, hstays⟩ := h.toQueued.updateSession now update hmem
      refine ih hrest (h.updateSession hlimit now update hmem) fun e he => ?_
      refine hstays e (horder e (List.mem_cons_of_mem _ he)) ?_
      rintro heq
      exact hitr (heq ▸ List.mem_map_of_mem he)

theorem Exact.updateEach (h : w.Exact limit) (hlimit : 0 < limit)
    {order : List (UInt32 × WorldSession)} {update : WorldSession → Bool}
    (hstep : w.updateEach now order update = some w') : w'.Exact limit := by
  rw [World.updateEach] at hstep
  split at hstep
  · rename_i hperm
    obtain rfl := Option.some.inj hstep
    exact h.foldl_updateSession hlimit now update
      ((hperm.map Prod.fst).nodup_iff.mpr h.nodup) fun e he => hperm.subset he
  · cases hstep

/-! ### Coming -/

theorem InTurn.notMem_keys (h : w.InTurn) (hnew : id ∉ w.made) : id ∉ StdMap.keys w.sessions :=
  fun hid => hnew (h.ids id hid)

/-- The queue and the sessions that were in it stay in turn. -/
theorem InTurn.addNewSession (h : w.InTurn) (now : Int) (hnew : id ∉ w.made) :
    (w.addNewSession now id).InTurn := by
  have hkey := h.notMem_keys hnew
  have hnot : ∀ s ∈ w.queuedPlayer, s.sessionId ≠ id := by
    rintro s hs rfl
    exact hkey (StdMap.mem_keys.mpr ⟨s, h.mem s hs⟩)
  have hqueued := h.toQueued.addNewSession now hnot
  have hids : ∀ i ∈ StdMap.keys (w.store id).sessions, i ∈ w.made ++ [id] := by
    intro i hi
    have hkeys : StdMap.keys (w.store id).sessions = StdMap.keys w.sessions ++ [id] := by
      show StdMap.keys (StdMap.assign id _ w.sessions) = _
      rw [StdMap.keys_assign, if_neg hkey]
    rw [hkeys] at hi
    rcases List.mem_append.mp hi with hi | hi
    · exact List.mem_append_left _ (h.ids i hi)
    · exact List.mem_append_right _ hi
  have hptr : ∀ s ∈ w.queued, s.ptr < (w.made ++ [id]).length := by
    intro s hs
    rw [List.length_append]
    exact Nat.lt_succ_of_lt (h.queued s hs)
  rw [addNewSession_eq] at hqueued ⊢
  obtain ⟨disconnects, maxActive, maxQueued, hsub, hcases⟩ :=
    login_cases (w.store id) now (w.newSession id)
  have hgone : ∀ i ∈ StdMap.keys disconnects, i ∈ w.made ++ [id] := by
    intro i hi
    obtain ⟨t, ht⟩ := StdMap.mem_keys.mp hi
    exact List.mem_append_left _ (h.gone i (StdMap.mem_keys.mpr ⟨t, hsub _ ht⟩))
  rcases hcases with ⟨heq, -⟩ | ⟨heq, -⟩
  · -- it is let in
    rw [heq] at hqueued ⊢
    exact { toQueued := hqueued, fifo := h.fifo, once := h.once, queued := hptr, ids := hids
            gone := hgone }
  · -- it has to wait
    have honce : w.newSession id ∉ w.queued := fun hs => Nat.lt_irrefl _ (h.queued _ hs)
    rw [heq] at hqueued ⊢
    exact
      { toQueued := hqueued
        fifo := by
          show (w.promoted ++ (w.queuedPlayer ++ [w.newSession id])).Sublist
            (w.queued ++ [w.newSession id])
          rw [← List.append_assoc]
          exact h.fifo.append_right _
        once := by
          show (w.queued ++ [w.newSession id]).Nodup
          rw [← List.concat_eq_append]
          exact h.once.concat honce
        queued := fun s hs => by
          rcases List.mem_append.mp hs with hs | hs
          · exact hptr s hs
          · obtain rfl := List.mem_singleton.mp hs
            show w.made.length < (w.made ++ [id]).length
            rw [List.length_append]
            exact Nat.lt_succ_self _
        ids := hids
        gone := hgone }

/-- A session whose id is new. -/
theorem Exact.addNewSession (h : w.Exact limit) (hlimit : 0 < limit) (now : Int)
    (hnew : id ∉ w.made) : (w.addNewSession now id).Exact limit := by
  have hinTurn := h.toInTurn.addNewSession now hnew
  have hothers : w.others id = w.sessions := StdMap.erase_of_notMem (h.notMem_keys hnew)
  have hlength : (w.store id).sessions.length = w.sessions.length + 1 := by
    rw [← hothers]
    exact StdMap.length_assign h.nodup id _
  have hfull : (w.store id).Full ↔ limit.toNat ≤ w.sessions.length := by
    rw [h.toStored.full_store_iff, h.limit_eq, hothers]
    exact and_iff_right hlimit
  have hle := h.le
  rw [addNewSession_eq] at hinTurn ⊢
  obtain ⟨_, _, _, -, hcases⟩ := login_cases (w.store id) now (w.newSession id)
  rcases hcases with ⟨heq, hwhy⟩ | ⟨heq, hwhy⟩
  · -- it is let in
    have hroom : ¬ (w.store id).Full :=
      hwhy.resolve_right fun hid => hnew (h.gone id hid)
    rw [hfull] at hroom
    -- while somebody waits the server is full, so room means that nobody does
    have hempty : w.queuedPlayer = [] := by
      by_contra hne
      have := h.full hne
      omega
    rw [heq] at hinTurn ⊢
    refine ⟨hinTurn, h.limit_eq, ?_, fun hne => absurd hempty hne⟩
    show (w.store id).sessions.length ≤ w.queuedPlayer.length + limit.toNat
    omega
  · -- it has to wait, and the sessions that are in are as many as the limit
    have hmany := hfull.mp hwhy
    have hin : w.sessions.length = w.queuedPlayer.length + limit.toNat := by
      by_cases hne : w.queuedPlayer = []
      · rw [hne, List.length_nil] at hle ⊢
        omega
      · exact h.full hne
    have hwaits : (w.store id).sessions.length
        = (w.queuedPlayer ++ [w.newSession id]).length + limit.toNat := by
      rw [List.length_append, List.length_singleton]
      omega
    rw [heq] at hinTurn ⊢
    exact ⟨hinTurn, h.limit_eq, Nat.le_of_eq hwaits, fun _ => hwaits⟩

/-! ### Runs -/

/-- The id of the session that `AddSession_` is called for. -/
def Op.id? : Op → Option UInt32
  | .addSession_ _ id => some id
  | .updateEach _ _ _ => none

theorem exact_create (limit maxActive maxQueued : UInt32) :
    (create limit maxActive maxQueued).Exact limit where
  toInTurn :=
    { toQueued := queued_create limit maxActive maxQueued
      fifo := List.Sublist.refl _
      once := List.nodup_nil
      queued := fun _ hs => by cases hs
      ids := fun _ hid => by cases hid
      gone := fun _ hid => by cases hid }
  limit_eq := rfl
  le := Nat.zero_le _
  full hne := absurd rfl hne

/-- The sessions made so far are those that came. -/
theorem made_step {op : Op} (hstep : step w op = some w') : w'.made = w.made ++ op.id?.toList := by
  cases op with
  | addSession_ now id =>
      obtain rfl := Option.some.inj hstep
      rw [addNewSession_eq]
      exact (login_frame _ _ _).2.1
  | updateEach now order update =>
      rw [step, World.updateEach] at hstep
      split at hstep
      · obtain rfl := Option.some.inj hstep
        show (order.foldl (World.updateSession now update) w).made = w.made ++ []
        rw [List.append_nil]
        exact List.foldlRecOn (motive := fun w₁ => w₁.made = w.made) order
          (World.updateSession now update) rfl
          fun w₁ hmade itr _ => (made_updateSession w₁ now update itr).trans hmade
      · cases hstep

theorem Exact.step (h : w.Exact limit) (hlimit : 0 < limit) {op : Op}
    (hnew : ∀ id, op.id? = some id → id ∉ w.made) (hstep : World.step w op = some w') :
    w'.Exact limit := by
  cases op with
  | addSession_ now id =>
      obtain rfl := Option.some.inj hstep
      exact h.addNewSession hlimit now (hnew id rfl)
  | updateEach now order update => exact h.updateEach hlimit hstep

/-- A run in which no id comes twice. -/
theorem Exact.run {ops : List Op} (h : w.Exact limit) (hlimit : 0 < limit)
    (hids : (w.made ++ ops.filterMap Op.id?).Nodup) (hrun : ops.foldlM World.step w = some w') :
    w'.Exact limit := by
  induction ops generalizing w with
  | nil => exact Option.some.inj hrun ▸ h
  | cons op ops ih =>
      rw [List.foldlM_cons] at hrun
      obtain ⟨w₁, hop, hrest⟩ := Option.bind_eq_some_iff.mp hrun
      have hsplit : w.made ++ (op :: ops).filterMap Op.id?
          = w₁.made ++ ops.filterMap Op.id? := by
        rw [made_step hop, List.append_assoc]
        cases op <;> rfl
      rw [hsplit] at hids
      refine ih (h.step hlimit (fun id hid => ?_) hop) hids hrest
      have hmade := hids.of_append_left
      rw [made_step hop, hid] at hmade
      exact fun hmem => (List.nodup_append.mp hmade).2.2 id hmem id (List.mem_singleton_self id) rfl

/-- **Admission is exact and fair.**  In every run in which no id comes twice, at
most the limit are in, exactly the limit while sessions wait, and the sessions are
let in in the order in which they were queued. -/
theorem admits_exactly (limit maxActive maxQueued : UInt32) (hlimit : 0 < limit) (ops : List Op)
    (hids : (ops.filterMap Op.id?).Nodup) (w : World)
    (hrun : ops.foldlM step (create limit maxActive maxQueued) = some w) :
    w.notQueued.length ≤ limit.toNat ∧
      (w.queuedPlayer ≠ [] → w.notQueued.length = limit.toNat) ∧
      w.queued.Nodup ∧ (w.promoted ++ w.queuedPlayer).Sublist w.queued := by
  have h := (exact_create limit maxActive maxQueued).run hlimit hids hrun
  have hcount := h.toQueued.length_notQueued
  refine ⟨?_, fun hne => ?_, h.once, h.fifo⟩
  · have := h.le
    omega
  · have := h.full hne
    omega

/-- With room for one, the second session waits until the first leaves. -/
theorem admits_exactly_of_two :
    let ops : List Op := [.addSession_ 0 1, .addSession_ 0 2,
      .updateEach 5 [(2, ⟨1, 2⟩), (1, ⟨0, 1⟩)] fun s => s.sessionId = 2]
    ∃ w, ops.foldlM step (create 1 0 0) = some w ∧ w.promoted = [⟨1, 2⟩] ∧
      w.notQueued.length ≤ 1 ∧ (w.promoted ++ w.queuedPlayer).Sublist w.queued := by
  intro ops
  obtain ⟨w, hw⟩ : ∃ w, ops.foldlM step (create 1 0 0) = some w := ⟨_, rfl⟩
  obtain ⟨hle, -, -, hfifo⟩ := admits_exactly 1 0 0 (by decide) ops (by decide) w hw
  obtain rfl := Option.some.inj hw
  exact ⟨_, rfl, rfl, hle, hfifo⟩

end World

end PCGForUnity
