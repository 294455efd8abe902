/-
PCGForUnity/Server/QueueFlags.lean

`m_bInQueue`, by which a session knows that it is queued, and the idle timeout that does not
count while it is.  In a run in which no id comes twice, every session is flagged exactly
while it is queued, and idle once its time is over unless it is queued,

    ↔  UpdateSessions never lets in a session that stays

(`flags_true_iff`).

`AddQueuedPlayer` sets the flag and `RemoveQueuedPlayer` clears it for the session it is called
for, but not for the one it lets in.  So a session that was queued keeps the flag once it is
in, and is never idle.

Design.  `FlaggedWorld` is a `World` with two members of its sessions beside it, and forgetting
them gives back the run below, with the results of `Admission`.  The condition is about the
state before a step: nobody of the queue who stays is let in if nobody who is in leaves
(`Exact.stay_queued_iff`).
-/
import PCGForUnity.Network.SocketConfig
import PCGForUnity.Server.Admission

namespace PCGForUnity

/-- `World`, with two members of its sessions: `m_bInQueue` and `m_nTimeOutTime`. -/
structure FlaggedWorld where
  world : World
  inQueue : WorldSession → Bool
  timeOutTime : WorldSession → Int

namespace FlaggedWorld

open World (hasRecentlyDisconnected)

/-! ### The functions as coded -/

/-- `WORLD_SESSION_TIMEOUT` -/
def worldSessionTimeout : Int := 18

/-- The constructor, with what the sessions start with. -/
def create (playerLimit maxActiveSessionCount maxQueuedSessionCount : UInt32)
    (inQueue : WorldSession → Bool) (timeOutTime : WorldSession → Int) : FlaggedWorld :=
  { world := .create playerLimit maxActiveSessionCount maxQueuedSessionCount, inQueue, timeOutTime }

/-- `SetInQueue` -/
def setInQueue (w : FlaggedWorld) (s : WorldSession) (state : Bool) : FlaggedWorld :=
  { w with inQueue := fun s' => if s' = s then state else w.inQueue s' }

/-- `m_timeOutTime` of a session. -/
def setTimeOutTime (w : FlaggedWorld) (s : WorldSession) (time : Int) : FlaggedWorld :=
  { w with timeOutTime := fun s' => if s' = s then time else w.timeOutTime s' }

/-- `ResetTimeOutTime` -/
def resetTimeOutTime (w : FlaggedWorld) (now : Int) (s : WorldSession) : FlaggedWorld :=
  w.setTimeOutTime s (now + 30000)

/-- `IsConnectionIdle` -/
def isConnectionIdle (w : FlaggedWorld) (now : Int) (s : WorldSession) : Bool :=
  decide (w.timeOutTime s < now) && !w.inQueue s

/-- `WorldSession::Update`, `alive` being what the socket says. -/
def update (w : FlaggedWorld) (now : Int) (alive : WorldSession → Bool) (s : WorldSession) : Bool :=
  if w.isConnectionIdle now s then false else alive s

/-- `AddQueuedPlayer`: the flag is set, too. -/
def addQueuedPlayer (w : FlaggedWorld) (sess : WorldSession) : FlaggedWorld :=
  let w := w.setInQueue sess true
  { w with world := w.world.addQueuedPlayer sess }

/-- `RemoveQueuedPlayer`, of which `found` says whether the session was in the queue. -/
def removeQueuedPlayer (w : FlaggedWorld) (now : Int) (sess : WorldSession) :
    FlaggedWorld × Bool :=
  let (world, found) := w.world.removeQueuedPlayer sess
  let w := if found then (w.setInQueue sess false).resetTimeOutTime now sess else w
  ({ w with world }, found)

/-- `UpdateMaxSessionCounters` -/
def updateMaxSessionCounters (w : FlaggedWorld) : FlaggedWorld :=
  { w with world := w.world.updateMaxSessionCounters }

/-- The end of `AddSession_`, the session being in `m_mSessions`. -/
def login (w : FlaggedWorld) (now : Int) (s : WorldSession) : FlaggedWorld :=
  let sessions := w.world.getActiveAndQueuedSessionCount - 1
  let pLimit := w.world.playerLimit
  if pLimit > 0 ∧ sessions ≥ pLimit then
    let (recently, disconnects) := hasRecentlyDisconnected now s.sessionId w.world.disconnects
    let w := { w with world := { w.world with disconnects } }
    if !recently then (w.addQueuedPlayer s).updateMaxSessionCounters
    else w.updateMaxSessionCounters
  else w.updateMaxSessionCounters

/-- `AddSession_` of a session that the constructor just made. -/
def addNewSession (w : FlaggedWorld) (now : Int) (id : UInt32) : FlaggedWorld :=
  let s := w.world.newSession id
  let w := (w.setInQueue s false).setTimeOutTime s (now + worldSessionTimeout)
  let w := { w with world := { w.world with made := w.world.made ++ [id] } }
  if !w.world.removeSession id then w
  else
    login { w with world := { w.world with sessions := StdMap.assign id s w.world.sessions } } now s

/-- The loop body of `UpdateSessions`. -/
def updateSession (now : Int) (alive : WorldSession → Bool) (w : FlaggedWorld)
    (itr : UInt32 × WorldSession) : FlaggedWorld :=
  if !w.update now alive itr.2 then
    let (w, found) := w.removeQueuedPlayer now itr.2
    let w :=
      if !found then
        { w with world := { w.world with
            disconnects := StdMap.assign itr.2.sessionId now w.world.disconnects } }
      else w
    let (w, _) := w.removeQueuedPlayer now itr.2
    { w with world := { w.world with sessions := StdMap.erase itr.1 w.world.sessions } }
  else w

/-- The loop of `UpdateSessions`, in the order of its iterator. -/
def updateEach (w : FlaggedWorld) (now : Int) (order : List (UInt32 × WorldSession))
    (alive : WorldSession → Bool) : Option FlaggedWorld :=
  if order.Perm w.world.sessions then some (order.foldl (updateSession now alive) w) else none

/-- `OnReceivePacket` of a session. -/
def onReceivePacket (w : FlaggedWorld) (now : Int) (s : WorldSession) (cmd : ℕ) : FlaggedWorld :=
  if cmd = c2sHeartbeat then w.setTimeOutTime s (now + worldSessionTimeout) else w

/-- `AddSession_`, the part of `UpdateSessions` after its calls of that, and packets. -/
inductive Op
  | addSession_ (now : Int) (id : UInt32)
  | updateEach (now : Int) (order : List (UInt32 × WorldSession)) (alive : WorldSession → Bool)
  | onReceivePacket (now : Int) (s : WorldSession) (cmd : ℕ)

/-- An operation on the world. -/
def step (w : FlaggedWorld) : Op → Option FlaggedWorld
  | .addSession_ now id => some (w.addNewSession now id)
  | .updateEach now order alive => w.updateEach now order alive
  | .onReceivePacket now s cmd => some (w.onReceivePacket now s cmd)

/-- The id of the session that `AddSession_` is called for. -/
def Op.id? : Op → Option UInt32
  | addSession_ _ id => some id
  | _ => none

/-! ### The world below -/

variable {w w' : FlaggedWorld} {now : Int} {s sess : WorldSession} {id : UInt32}
  {alive : WorldSession → Bool} {order : List (UInt32 × WorldSession)} {op : Op}

/-- The flags of the others stay. -/
theorem removeQueuedPlayer_other (w : FlaggedWorld) (now : Int) (h : s ≠ sess) :
    (w.removeQueuedPlayer now sess).1.inQueue s = w.inQueue s ∧
      (w.removeQueuedPlayer now sess).1.timeOutTime s = w.timeOutTime s := by
  rw [removeQueuedPlayer]
  generalize w.world.removeQueuedPlayer sess = r
  obtain ⟨world, found⟩ := r
  cases found with
  | false => exact ⟨rfl, rfl⟩
  | true => exact ⟨if_neg h, if_neg h⟩

/-- With the flags of before, the loop body is that of the world. -/
theorem updateSession_world (now : Int) (alive : WorldSession → Bool) (w : FlaggedWorld)
    {itr : UInt32 × WorldSession} {update : WorldSession → Bool}
    (h : w.update now alive itr.2 = update itr.2) :
    (w.updateSession now alive itr).world = w.world.updateSession now update itr := by
  rw [updateSession, World.updateSession, h]
  cases update itr.2 with
  | true => rfl
  | false =>
      simp only [Bool.not_false, if_true]
      have hworld : w.world.removeQueuedPlayer itr.2 =
          ((w.removeQueuedPlayer now itr.2).1.world, (w.removeQueuedPlayer now itr.2).2) := rfl
      rw [hworld]
      rcases w.removeQueuedPlayer now itr.2 with ⟨w₁, found⟩
      cases found <;> rfl

/-- It leaves the flags of the others, and those of a session that stays. -/
theorem updateSession_other (now : Int) (alive : WorldSession → Bool) (w : FlaggedWorld)
    {itr : UInt32 × WorldSession} (h : s ≠ itr.2 ∨ w.update now alive itr.2 = true) :
    (w.updateSession now alive itr).inQueue s = w.inQueue s ∧
      (w.updateSession now alive itr).timeOutTime s = w.timeOutTime s := by
  rw [updateSession]
  cases hstays : w.update now alive itr.2 with
  | true => exact ⟨rfl, rfl⟩
  | false =>
      have hne : s ≠ itr.2 := h.resolve_right (Bool.eq_false_iff.mp hstays)
      obtain ⟨hq, ht⟩ := removeQueuedPlayer_other w now hne
      simp only [Bool.not_false, if_true]
      rcases hr : w.removeQueuedPlayer now itr.2 with ⟨w₁, found⟩
      rw [hr] at hq ht
      cases found with
      | true =>
          obtain ⟨hq', ht'⟩ := removeQueuedPlayer_other w₁ now hne
          exact ⟨hq'.trans hq, ht'.trans ht⟩
      | false =>
          obtain ⟨hq', ht'⟩ := removeQueuedPlayer_other { w₁ with world := { w₁.world with
            disconnects := StdMap.assign itr.2.sessionId now w₁.world.disconnects } } now hne
          exact ⟨hq'.trans hq, ht'.trans ht⟩

/-- What `Update` returns depends on the session's own members. -/
theorem update_congr (hq : w'.inQueue s = w.inQueue s) (ht : w'.timeOutTime s = w.timeOutTime s) :
    w'.update now alive s = w.update now alive s := by
  rw [update, update, isConnectionIdle, isConnectionIdle, hq, ht]

/-- The loop is that of the world, with what `Update` returns before it, and leaves the
flags of a session that it does not visit or that stays. -/
theorem foldl_updateSession (now : Int) (alive : WorldSession → Bool)
    (horder : (order.map Prod.snd).Nodup) {update : WorldSession → Bool}
    (h : ∀ itr ∈ order, w.update now alive itr.2 = update itr.2) :
    (order.foldl (updateSession now alive) w).world
        = order.foldl (World.updateSession now update) w.world ∧
      ∀ s, s ∉ order.map Prod.snd ∨ update s = true →
        (order.foldl (updateSession now alive) w).inQueue s = w.inQueue s ∧
        (order.foldl (updateSession now alive) w).timeOutTime s = w.timeOutTime s := by
  induction order generalizing w with
  | nil => exact ⟨rfl, fun _ _ => ⟨rfl, rfl⟩⟩
  | cons itr order ih =>
      obtain ⟨hitr, hrest⟩ := List.nodup_cons.mp horder
      have hupdate := h itr List.mem_cons_self
      -- the sessions behind are others, so their `Update` returns what it did
      obtain ⟨hworld, hflags⟩ := ih (w := w.updateSession now alive itr) hrest fun itr' hitr' => by
        have hne : itr'.2 ≠ itr.2 := fun heq => hitr (heq ▸ List.mem_map_of_mem hitr')
        obtain ⟨hq, ht⟩ := updateSession_other now alive w (Or.inl hne)
        rw [update_congr hq ht]
        exact h itr' (List.mem_cons_of_mem _ hitr')
      rw [List.foldl_cons, List.foldl_cons, hworld, updateSession_world now alive w hupdate]
      refine ⟨rfl, fun s hs => ?_⟩
      have hhead : s ≠ itr.2 ∨ w.update now alive itr.2 = true := by
        rcases hs with hs | hs
        · exact Or.inl fun heq => hs (heq ▸ List.mem_cons_self)
        · by_cases heq : s = itr.2
          · right
            rw [hupdate, ← heq]
            exact hs
          · exact Or.inl heq
      obtain ⟨hq, ht⟩ := updateSession_other now alive w hhead
      obtain ⟨hq', ht'⟩ := hflags s (hs.imp_left fun hs hmem => hs (List.mem_cons_of_mem _ hmem))
      exact ⟨hq'.trans hq, ht'.trans ht⟩

/-- `AddSession_` sets the flag of the session if it queues it, and changes no other. -/
theorem login_spec (w : FlaggedWorld) (now : Int) (s : WorldSession) :
    (w.login now s).world = w.world.login now s ∧
      ((w.login now s).inQueue = w.inQueue ∧
          (w.world.login now s).queuedPlayer = w.world.queuedPlayer ∨
        (w.login now s).inQueue = (w.setInQueue s true).inQueue ∧
          (w.world.login now s).queuedPlayer = w.world.queuedPlayer ++ [s]) := by
  rw [login, World.login]
  split
  · rcases hasRecentlyDisconnected now s.sessionId w.world.disconnects with ⟨recently, disconnects⟩
    cases recently with
    | false => exact ⟨rfl, Or.inr ⟨rfl, rfl⟩⟩
    | true => exact ⟨rfl, Or.inl ⟨rfl, rfl⟩⟩
  · exact ⟨rfl, Or.inl ⟨rfl, rfl⟩⟩

theorem addNewSession_world (w : FlaggedWorld) (now : Int) (id : UInt32) :
    (w.addNewSession now id).world = w.world.addNewSession now id := by
  rw [addNewSession, World.addNewSession, World.addSession_]
  simp only [World.removeSession_eq, Bool.not_true, Bool.false_eq_true, if_false]
  exact (login_spec _ _ _).1

/-- `UpdateSessions` is that of the world, and the flags of the sessions that stay do so. -/
theorem updateEach_spec (h : w.world.Queued) (e : w.updateEach now order alive = some w') :
    w.world.updateEach now order (w.update now alive) = some w'.world ∧
      ∀ s, w.update now alive s = true → w'.inQueue s = w.inQueue s := by
  rw [updateEach] at e
  rw [World.updateEach]
  split at e
  · rename_i hperm
    obtain rfl := Option.some.inj e
    have hkeys : (order.map Prod.fst).Nodup := (hperm.map Prod.fst).nodup_iff.mpr h.nodup
    have hids : order.map Prod.fst = (order.map Prod.snd).map WorldSession.sessionId := by
      rw [List.map_map]
      exact List.map_congr_left fun e he => h.key e (hperm.subset he)
    obtain ⟨hworld, hflags⟩ := foldl_updateSession now alive (List.Nodup.of_map _ (hids ▸ hkeys))
      (w := w) fun _ _ => rfl
    rw [if_pos hperm, hworld]
    exact ⟨rfl, fun s hs => (hflags s (Or.inr hs)).1⟩
  · cases e

/-- The sessions made so far are those that came. -/
theorem made_step (e : w.step op = some w') :
    w'.world.made = w.world.made ++ op.id?.toList := by
  cases op with
  | addSession_ now id =>
      obtain rfl := Option.some.inj e
      have e' : w.world.step (.addSession_ now id) = some (w.addNewSession now id).world :=
        congrArg some (addNewSession_world w now id).symm
      exact World.made_step e'
  | updateEach now order alive =>
      rw [step, updateEach] at e
      split at e
      · obtain rfl := Option.some.inj e
        show (order.foldl (updateSession now alive) w).world.made = w.world.made ++ []
        rw [List.append_nil]
        refine List.foldlRecOn (motive := fun w₁ => w₁.world.made = w.world.made) order
          (updateSession now alive) rfl fun w₁ hmade itr _ => ?_
        have hworld : (w₁.updateSession now alive itr).world
            = w₁.world.updateSession now (fun _ => w₁.update now alive itr.2) itr :=
          updateSession_world now alive w₁ rfl
        rw [hworld, World.made_updateSession]
        exact hmade
      · cases e
  | onReceivePacket now s cmd =>
      obtain rfl := Option.some.inj e
      rw [step, onReceivePacket] at e
      show (w.onReceivePacket now s cmd).world.made = w.world.made ++ []
      rw [List.append_nil, onReceivePacket]
      split <;> rfl

theorem made_run {ops : List Op} (hrun : ops.foldlM step w = some w') :
    w'.world.made = w.world.made ++ ops.filterMap Op.id? := by
  induction ops generalizing w with
  | nil =>
      obtain rfl := Option.some.inj hrun
      exact (List.append_nil _).symm
  | cons op ops ih =>
      rw [List.foldlM_cons] at hrun
      obtain ⟨w₁, hop, hrest⟩ := Option.bind_eq_some_iff.mp hrun
      rw [ih hrest, made_step hop, List.append_assoc]
      cases op <;> rfl

end FlaggedWorld

/-! ### Who is left by the loop -/

namespace World

variable {w w' : World} {now : Int} {update : WorldSession → Bool} {limit : UInt32}
  {order : List (UInt32 × WorldSession)}

theorem mem_sessions_updateSession (h : w.Queued) {itr e : UInt32 × WorldSession}
    (hitr : itr ∈ w.sessions) :
    e ∈ (w.updateSession now update itr).sessions ↔
      e ∈ w.sessions ∧ (e ≠ itr ∨ update e.2 = true) := by
  cases hupdate : update itr.2 with
  | true =>
      rw [updateSession, hupdate]
      refine (and_iff_left_of_imp fun _ => ?_).symm
      by_cases heq : e = itr
      · exact Or.inr (heq ▸ hupdate)
      · exact Or.inl heq
  | false =>
      obtain ⟨disconnects, -, heq⟩ := updateSession_eq w now hupdate
      obtain ⟨h₁, -, hs₁⟩ := h.removeQueuedPlayer itr.2
      have h₂ : { (w.removeQueuedPlayer itr.2).1 with disconnects }.Queued := { h₁ with }
      obtain ⟨-, -, hs₃⟩ := h₂.removeQueuedPlayer itr.2
      rw [heq]
      show e ∈ StdMap.erase itr.1 _ ↔ _
      rw [hs₃, StdMap.mem_erase]
      show e ∈ (w.removeQueuedPlayer itr.2).1.sessions ∧ _ ↔ _
      rw [hs₁]
      refine and_congr_right fun he => ⟨fun hne => Or.inl fun heq => hne (congrArg Prod.fst heq), ?_⟩
      rintro (hne | hstays) hkey
      · exact hne (StdMap.eq_of_key h.nodup he hitr hkey)
      · rw [StdMap.eq_of_key h.nodup he hitr hkey, hupdate] at hstays
        cases hstays

/-- The loop body takes from the queue. -/
theorem queue_sublist_updateSession (w : World) (now : Int) (update : WorldSession → Bool)
    (itr : UInt32 × WorldSession) :
    (w.updateSession now update itr).queuedPlayer.Sublist w.queuedPlayer ∧
      (w.updateSession now update itr).playerLimit = w.playerLimit := by
  have hremove (w : World) : (w.removeQueuedPlayer itr.2).1.queuedPlayer.Sublist w.queuedPlayer ∧
      (w.removeQueuedPlayer itr.2).1.playerLimit = w.playerLimit := by
    obtain ⟨more, rest, herase, heq, -⟩ := removeQueuedPlayer_cases w itr.2
    have hrest : rest.Sublist (w.queuedPlayer.erase itr.2) := by
      rw [herase]
      exact List.sublist_append_right _ _
    rw [heq]
    exact ⟨hrest.trans List.erase_sublist, rfl⟩
  cases hupdate : update itr.2 with
  | true =>
      rw [updateSession, hupdate]
      exact ⟨List.Sublist.refl _, rfl⟩
  | false =>
      obtain ⟨disconnects, -, heq⟩ := updateSession_eq w now hupdate
      obtain ⟨hsub, hlimit⟩ := hremove { (w.removeQueuedPlayer itr.2).1 with disconnects }
      obtain ⟨hsub', hlimit'⟩ := hremove w
      rw [heq]
      exact ⟨hsub.trans hsub', hlimit.trans hlimit'⟩

theorem foldl_updateSession_spec (now : Int) (update : WorldSession → Bool)
    (hkeys : (order.map Prod.fst).Nodup) (h : w.Queued)
    (horder : ∀ e ∈ order, e ∈ w.sessions) :
    (∀ e, e ∈ (order.foldl (updateSession now update) w).sessions ↔
        e ∈ w.sessions ∧ (e ∉ order ∨ update e.2 = true)) ∧
      (order.foldl (updateSession now update) w).queuedPlayer.Sublist w.queuedPlayer ∧
      (order.foldl (updateSession now update) w).playerLimit = w.playerLimit := by
  induction order generalizing w with
  | nil =>
      refine ⟨fun e => ?_, List.Sublist.refl _, rfl⟩
      exact (and_iff_left (Or.inl List.not_mem_nil)).symm
  | cons itr order ih =>
      obtain ⟨hitr, hrest⟩ := List.nodup_cons.mp hkeys
      have hmem := horder itr List.mem_cons_self
      obtain ⟨h', hstays⟩ := h.updateSession now update hmem
      obtain ⟨hsub, hlimit⟩ := queue_sublist_updateSession w now update itr
      obtain ⟨hsessions, hsub', hlimit'⟩ := ih hrest h' fun e he =>
        hstays e (horder e (List.mem_cons_of_mem _ he)) fun heq =>
          hitr (heq ▸ List.mem_map_of_mem he)
      refine ⟨fun e => ?_, hsub'.trans hsub, hlimit'.trans hlimit⟩
      rw [List.foldl_cons, hsessions, mem_sessions_updateSession h hmem, List.mem_cons, not_or,
        and_assoc]
      refine and_congr_right fun _ => ?_
      rw [← and_or_right]

/-- The sessions that stay are stored, and the queue is taken from those of it that stay. -/
theorem Queued.updateEach_spec (h : w.Queued) (e : w.updateEach now order update = some w') :
    (∀ e, e ∈ w'.sessions ↔ e ∈ w.sessions ∧ update e.2 = true) ∧
      w'.queuedPlayer.Sublist (w.queuedPlayer.filter update) ∧
      w'.playerLimit = w.playerLimit := by
  have h' := h.updateEach e
  rw [World.updateEach] at e
  split at e
  · rename_i hperm
    obtain rfl := Option.some.inj e
    obtain ⟨hsessions, hsub, hlimit⟩ := foldl_updateSession_spec now update
      ((hperm.map Prod.fst).nodup_iff.mpr h.nodup) h fun e he => hperm.subset he
    have hstays : ∀ e, e ∈ (order.foldl (World.updateSession now update) w).sessions ↔
        e ∈ w.sessions ∧ update e.2 = true := by
      intro e
      rw [hsessions]
      refine and_congr_right fun he => or_iff_right fun hnot => hnot ?_
      exact hperm.symm.subset he
    refine ⟨hstays, ?_, hlimit⟩
    rw [← List.filter_eq_self.mpr fun s hs => ((hstays _).mp (h'.mem s hs)).2]
    exact hsub.filter update
  · cases e

/-- Of the sessions that stay, those that were queued and those that were not. -/
theorem Queued.length_stay (h : w.Queued) (update : WorldSession → Bool) :
    (w.sessions.filter fun e => update e.2).length
      = (w.queuedPlayer.filter update).length
        + (w.notQueued.filter fun e => update e.2).length := by
  have hqueue := (h.filter_perm.filter fun e => update e.2).length_eq
  rw [List.filter_map, List.length_map] at hqueue
  have hsplit := List.length_eq_length_filter_add (l := w.sessions.filter fun e => update e.2)
    fun e => decide (e.2 ∈ w.queuedPlayer)
  simp only [← decide_not] at hsplit
  rw [hsplit, notQueued, List.filter_comm, hqueue,
    List.filter_comm fun e : UInt32 × WorldSession => decide (e.2 ∉ w.queuedPlayer)]
  rfl

/-- **Who of the queue is let in.**  Nobody of the queue who stays is let in if nobody who is
in leaves, or nobody of the queue stays; and else somebody is. -/
theorem Exact.stay_queued_iff (h : w.Exact limit) (hlimit : 0 < limit)
    (e : w.updateEach now order update = some w') :
    (∀ s ∈ w.queuedPlayer, update s = true → s ∈ w'.queuedPlayer) ↔
      (∀ e ∈ w.sessions, e.2 ∉ w.queuedPlayer → update e.2 = true) ∨
        ∀ s ∈ w.queuedPlayer, update s = false := by
  have h' := h.updateEach hlimit e
  obtain ⟨hstays, hsub, -⟩ := h.toQueued.updateEach_spec e
  have hcount := h.toQueued.length_stay update
  have hin := h.toQueued.length_notQueued
  have hlength : w'.sessions.length = (w.sessions.filter fun e => update e.2).length := by
    refine List.Perm.length_eq ((List.perm_ext_iff_of_nodup h'.nodup.of_map
      (h.nodup.of_map.filter _)).mpr fun e => ?_)
    rw [hstays, List.mem_filter]
  have hstay : (w.notQueued.filter fun e => update e.2).length ≤ w.notQueued.length :=
    List.length_filter_le _ _
  have hqueue := hsub.length_le
  constructor
  · intro hall
    by_contra hno
    obtain ⟨hleaves, hsurvives⟩ := not_or.mp hno
    obtain ⟨s, hs⟩ := not_forall.mp hsurvives
    obtain ⟨hs, hupdate⟩ := Classical.not_imp.mp hs
    have hupdate := eq_true_of_ne_false hupdate
    -- somebody waits before and after, so as many are in
    have hsame : (w.queuedPlayer.filter update).length ≤ w'.queuedPlayer.length := by
      refine (List.subperm_of_subset (h.queue.filter _) fun s hs => ?_).length_le
      obtain ⟨hs, hupdate⟩ := List.mem_filter.mp hs
      exact hall s hs hupdate
    have hfull := h.full (List.ne_nil_of_mem hs)
    have hfull' := h'.full (List.ne_nil_of_mem (hall s hs hupdate))
    -- but one of those who were in has left
    refine hleaves fun e he hnot => ?_
    have hall : w.notQueued.filter (fun e => update e.2) = w.notQueued :=
      List.Sublist.eq_of_length List.filter_sublist (by omega)
    have hmem : e ∈ w.notQueued := List.mem_filter.mpr ⟨he, decide_eq_true hnot⟩
    rw [← hall] at hmem
    exact (List.mem_filter.mp hmem).2
  · rintro (hnobody | hnone) s hs hupdate
    · -- as many are in as before, so as many of the queue wait as stay
      have hall : w.notQueued.filter (fun e => update e.2) = w.notQueued := by
        refine List.filter_eq_self.mpr fun e he => ?_
        obtain ⟨he, hnot⟩ := List.mem_filter.mp he
        exact hnobody e he (of_decide_eq_true hnot)
      have hfull := h.full (List.ne_nil_of_mem hs)
      have hle := h'.le
      rw [hall] at hcount
      rw [hsub.eq_of_length (by omega)]
      exact List.mem_filter.mpr ⟨hs, hupdate⟩
    · rw [hnone s hs] at hupdate
      cases hupdate

end World

namespace FlaggedWorld

variable {w w' : FlaggedWorld} {now : Int} {s sess : WorldSession} {id limit : UInt32}
  {alive : WorldSession → Bool} {order : List (UInt32 × WorldSession)} {op : Op}

/-! ### The flags -/

/-- A session is flagged exactly if it is queued. -/
def FlagsTrue (w : FlaggedWorld) : Prop :=
  ∀ e ∈ w.world.sessions, w.inQueue e.2 = true ↔ e.2 ∈ w.world.queuedPlayer

/-- For a session that is not queued the idle timeout counts. -/
def IdlesOut (w : FlaggedWorld) : Prop :=
  ∀ e ∈ w.world.sessions, e.2 ∉ w.world.queuedPlayer →
    ∀ now, w.isConnectionIdle now e.2 = true ↔ w.timeOutTime e.2 < now

/-- In `UpdateSessions` nobody who is in leaves, or nobody who waits stays. -/
def LetsNobodyIn (w : FlaggedWorld) : Op → Prop
  | .updateEach now _ alive =>
      (∀ e ∈ w.world.sessions, e.2 ∉ w.world.queuedPlayer → w.update now alive e.2 = true) ∨
        ∀ s ∈ w.world.queuedPlayer, w.update now alive s = false
  | _ => True

theorem FlagsTrue.idlesOut (h : w.FlagsTrue) : w.IdlesOut := by
  intro e he hnot now
  have hflag : w.inQueue e.2 = false := Bool.eq_false_iff.mpr (mt (h e he).mp hnot)
  rw [isConnectionIdle, hflag, Bool.not_false, Bool.and_true, decide_eq_true_iff]

/-- The flags before the login of a new session. -/
theorem addNewSession_eq (w : FlaggedWorld) (now : Int) (id : UInt32) :
    ∃ w₁ : FlaggedWorld, w₁.world = w.world.store id ∧
      (∀ s, w₁.inQueue s = if s = w.world.newSession id then false else w.inQueue s) ∧
      w.addNewSession now id = w₁.login now (w.world.newSession id) := by
  let w₁ := (w.setInQueue (w.world.newSession id) false).setTimeOutTime (w.world.newSession id)
    (now + worldSessionTimeout)
  refine ⟨{ w₁ with world := w.world.store id }, rfl, fun _ => rfl, ?_⟩
  rw [addNewSession]
  simp only [World.removeSession_eq, Bool.not_true, Bool.false_eq_true, if_false]
  rfl

/-- A new session is flagged if it is queued, and the others keep their flags. -/
theorem FlagsTrue.addNewSession (h : w.FlagsTrue) (hw : w.world.Queued) (now : Int) (id : UInt32) :
    (w.addNewSession now id).FlagsTrue := by
  obtain ⟨w₁, hworld, hflags, hadd⟩ := addNewSession_eq w now id
  set s := w.world.newSession id
  have hother : ∀ e ∈ w.world.sessions, e.2 ≠ s := by
    intro e he heq
    have hlt := hw.made e he
    rw [heq] at hlt
    exact Nat.lt_irrefl _ hlt
  have hnot : s ∉ w.world.queuedPlayer := fun hs => hother _ (hw.mem s hs) rfl
  obtain ⟨hlogin, hcases⟩ := login_spec w₁ now s
  have hsessions : (w₁.login now s).world.sessions = (w.world.store id).sessions := by
    rw [hlogin, hworld]
    exact (World.login_frame _ _ _).1
  intro e he
  rw [hadd, hsessions, World.mem_sessions_store hw.toStored] at he
  rw [hadd, hlogin]
  rcases hcases with ⟨hq, hqueue⟩ | ⟨hq, hqueue⟩
  · rw [hq, hqueue, hworld, hflags]
    rcases he with rfl | ⟨he, -⟩
    · rw [if_pos rfl]
      exact iff_of_false Bool.false_ne_true hnot
    · rw [if_neg (hother e he)]
      exact h e he
  · rw [hq, hqueue, hworld, List.mem_append, List.mem_singleton]
    show (if e.2 = s then true else w₁.inQueue e.2) = true ↔ _
    rw [hflags]
    rcases he with rfl | ⟨he, -⟩
    · rw [if_pos rfl]
      exact iff_of_true rfl (Or.inr rfl)
    · rw [if_neg (hother e he), if_neg (hother e he), h e he]
      exact (or_iff_left (hother e he)).symm

/-- Everybody's flag stays, so it becomes wrong for the sessions that are let in. -/
theorem FlagsTrue.updateEach_iff (h : w.FlagsTrue) (hw : w.world.Queued)
    (e : w.updateEach now order alive = some w') :
    w'.FlagsTrue ↔ ∀ s ∈ w.world.queuedPlayer, w.update now alive s = true →
      s ∈ w'.world.queuedPlayer := by
  obtain ⟨hworld, hflags⟩ := updateEach_spec hw e
  obtain ⟨hstays, hsub, -⟩ := hw.updateEach_spec hworld
  constructor
  · intro h' s hs hupdate
    have hmem := (hstays _).mpr ⟨hw.mem s hs, hupdate⟩
    refine (h' _ hmem).mp ?_
    rw [hflags s hupdate]
    exact (h _ (hw.mem s hs)).mpr hs
  · intro hall e he
    obtain ⟨he, hupdate⟩ := (hstays e).mp he
    rw [hflags e.2 hupdate, h e he]
    constructor
    · intro hs
      exact hall e.2 hs hupdate
    · intro hs
      exact (List.mem_filter.mp (hsub.mem hs)).1

/-! ### Runs -/

/-- What holds while the flags are true. -/
structure Sound (limit : UInt32) (w : FlaggedWorld) : Prop where
  flags : w.FlagsTrue
  queued : w.world.Queued
  exact : 0 < limit → w.world.Exact limit
  free : limit = 0 → w.world.playerLimit = 0 ∧ w.world.queuedPlayer = []

theorem sound_create (limit maxActive maxQueued : UInt32) (inQueue : WorldSession → Bool)
    (timeOutTime : WorldSession → Int) :
    (create limit maxActive maxQueued inQueue timeOutTime).Sound limit where
  flags _ he := absurd he List.not_mem_nil
  queued := World.queued_create limit maxActive maxQueued
  exact _ := World.exact_create limit maxActive maxQueued
  free h := ⟨h, rfl⟩

/-- Without a limit nobody waits. -/
theorem Sound.of_free (hzero : limit = 0) (hflags : w.FlagsTrue) (hqueued : w.world.Queued)
    (hlimit : w.world.playerLimit = 0) (hqueue : w.world.queuedPlayer = []) : w.Sound limit where
  flags := hflags
  queued := hqueued
  exact hpos := absurd hzero (UInt32.pos_iff_ne_zero.mp hpos)
  free _ := ⟨hlimit, hqueue⟩

theorem Sound.of_exact (hzero : limit ≠ 0) (hflags : w.FlagsTrue) (hexact : w.world.Exact limit) :
    w.Sound limit where
  flags := hflags
  queued := hexact.toQueued
  exact _ := hexact
  free h := absurd h hzero

theorem Sound.addNewSession (h : w.Sound limit) (now : Int) (hnew : id ∉ w.world.made) :
    (w.addNewSession now id).Sound limit := by
  have hflags := h.flags.addNewSession h.queued now id
  have hworld := addNewSession_world w now id
  by_cases hzero : limit = 0
  · obtain ⟨hlimit, hqueue⟩ := h.free hzero
    have hqueued : (w.world.addNewSession now id).Queued :=
      h.queued.addNewSession now fun s hs => by
        rw [hqueue] at hs
        cases hs
    refine .of_free hzero hflags (hworld ▸ hqueued) ?_ ?_
    · rw [hworld, World.addNewSession_eq]
      exact (World.login_frame _ _ _).2.2.trans hlimit
    · rw [hworld, World.addNewSession_eq, World.login_of_no_limit (w := w.world.store id) hlimit]
      exact hqueue
  · have hpos : 0 < limit := UInt32.pos_iff_ne_zero.mpr hzero
    exact .of_exact hzero hflags (hworld ▸ (h.exact hpos).addNewSession hpos now hnew)

/-- Only the flags can come apart, and do so if somebody is let in. -/
theorem Sound.updateEach (h : w.Sound limit) (e : w.updateEach now order alive = some w') :
    (w'.FlagsTrue → w'.Sound limit) ∧
      (w'.FlagsTrue ↔ w.LetsNobodyIn (.updateEach now order alive)) := by
  have hworld := (updateEach_spec h.queued e).1
  have hflags := h.flags.updateEach_iff h.queued e
  have hqueued := h.queued.updateEach hworld
  by_cases hzero : limit = 0
  · -- nobody waits
    obtain ⟨hlimit, hqueue⟩ := h.free hzero
    obtain ⟨-, hsub, hlimit'⟩ := h.queued.updateEach_spec hworld
    rw [hqueue] at hsub hflags
    refine ⟨fun h' => ?_, ?_⟩
    · exact .of_free hzero h' hqueued (hlimit'.trans hlimit) (List.sublist_nil.mp hsub)
    · refine hflags.trans (iff_of_true (fun s hs => absurd hs List.not_mem_nil) (Or.inr ?_))
      intro s hs
      rw [hqueue] at hs
      cases hs
  · have hpos : 0 < limit := UInt32.pos_iff_ne_zero.mpr hzero
    have hexact := (h.exact hpos).updateEach hpos hworld
    refine ⟨fun h' => .of_exact hzero h' hexact, ?_⟩
    exact hflags.trans ((h.exact hpos).stay_queued_iff hpos hworld)

theorem Sound.onReceivePacket (h : w.Sound limit) (now : Int) (s : WorldSession) (cmd : ℕ) :
    (w.onReceivePacket now s cmd).Sound limit := by
  rw [FlaggedWorld.onReceivePacket]
  split
  · exact ⟨h.flags, h.queued, h.exact, h.free⟩
  · exact h

theorem Sound.step (h : w.Sound limit) (hnew : ∀ id, op.id? = some id → id ∉ w.world.made)
    (e : w.step op = some w') :
    (w'.FlagsTrue → w'.Sound limit) ∧ (w'.FlagsTrue ↔ w.LetsNobodyIn op) := by
  cases op with
  | addSession_ now id =>
      obtain rfl := Option.some.inj e
      have h' := h.addNewSession now (hnew id rfl)
      exact ⟨fun _ => h', iff_of_true h'.flags trivial⟩
  | updateEach now order alive => exact h.updateEach e
  | onReceivePacket now s cmd =>
      obtain rfl := Option.some.inj e
      have h' := h.onReceivePacket now s cmd
      exact ⟨fun _ => h', iff_of_true h'.flags trivial⟩

/-- **When the flags tell the truth.**  In a run in which no id comes twice every session is
flagged exactly while it is queued, and is idle once its time is over unless it is queued, if
and only if `UpdateSessions` never lets in a session that stays. -/
theorem flags_true_iff (limit maxActive maxQueued : UInt32) (inQueue : WorldSession → Bool)
    (timeOutTime : WorldSession → Int) (ops : List Op) (hids : (ops.filterMap Op.id?).Nodup) :
    (∀ pre w, pre <+: ops →
        pre.foldlM step (create limit maxActive maxQueued inQueue timeOutTime) = some w →
        w.FlagsTrue ∧ w.IdlesOut) ↔
      ∀ pre op w, pre ++ [op] <+: ops →
        pre.foldlM step (create limit maxActive maxQueued inQueue timeOutTime) = some w →
        ∀ w', w.step op = some w' → w.LetsNobodyIn op := by
  refine Run.forall_prefix_iff_of step (Sound limit) _
    (fun w op => ∀ id, op.id? = some id → id ∉ w.world.made)
    (fun w op => ∀ w', w.step op = some w' → w.LetsNobodyIn op)
    (fun w h => ⟨h.flags, h.flags.idlesOut⟩) ?_ ?_
    (sound_create limit maxActive maxQueued inQueue timeOutTime) ?_
  · intro w op w' h hnew hop e
    obtain ⟨hsound, hflags⟩ := h.step hnew e
    exact hsound (hflags.mpr (hop w' e))
  · intro w op h hnew hbad
    obtain ⟨w', hw'⟩ := not_forall.mp hbad
    obtain ⟨e, hlets⟩ := Classical.not_imp.mp hw'
    exact ⟨w', e, fun hgood => hlets ((h.step hnew e).2.mp hgood.1)⟩
  · -- an id that comes has not come before
    intro pre op w hpre hrun id hid hmem
    rw [made_run hrun] at hmem
    have hprefix := hids.sublist (hpre.filterMap Op.id?).sublist
    rw [List.filterMap_append, List.filterMap_cons, hid] at hprefix
    exact (List.nodup_append.mp hprefix).2.2 id hmem id (List.mem_singleton_self id) rfl

/-- Both leave, the one who waits first. -/
theorem flags_true_iff_of_two :
    let start := create 1 0 0 (fun _ => false) (fun _ => 0)
    let ops : List Op := [.addSession_ 0 1, .addSession_ 0 2,
      .updateEach 5 [(2, ⟨1, 2⟩), (1, ⟨0, 1⟩)] fun _ => false]
    (∀ pre w, pre <+: ops → pre.foldlM step start = some w → w.FlagsTrue ∧ w.IdlesOut) ↔
      ∀ pre op w, pre ++ [op] <+: ops → pre.foldlM step start = some w →
        ∀ w', w.step op = some w' → w.LetsNobodyIn op :=
  flags_true_iff 1 0 0 _ _ _ (by decide)

/-- The one who waits is let in when the other leaves, and keeps the flag. -/
theorem let_in_flagged :
    let start := create 1 0 0 (fun _ => false) (fun _ => 0)
    let ops : List Op := [.addSession_ 0 1, .addSession_ 0 2,
      .updateEach 5 [(1, ⟨0, 1⟩), (2, ⟨1, 2⟩)] fun s => s.sessionId = 2]
    ¬ ∀ pre w, pre <+: ops → pre.foldlM step start = some w → w.FlagsTrue ∧ w.IdlesOut := by
  intro start ops hall
  have hrun : (ops.foldlM step start).map (fun w =>
      (w.world.sessions, w.world.queuedPlayer, w.inQueue ⟨1, 2⟩))
        = some ([(2, ⟨1, 2⟩)], [], true) := by
    decide +kernel
  obtain ⟨w, e, hw⟩ := Option.map_eq_some_iff.mp hrun
  obtain ⟨hsessions, hw⟩ := Prod.mk.inj hw
  obtain ⟨hqueue, hflag⟩ := Prod.mk.inj hw
  have hmem : (2, ⟨1, 2⟩) ∈ w.world.sessions := by
    rw [hsessions]
    exact List.mem_singleton_self _
  have hqueued := ((hall ops w List.prefix_rfl e).1 _ hmem).mp hflag
  rw [hqueue] at hqueued
  cases hqueued

end FlaggedWorld

end PCGForUnity
