/-
PCGForUnity/Server/World.lean

The sessions of `World` and its login queue (`World.cpp`).

Design.  A session is told by its address and its id; what its `Update` returns is left
open, and so is the order in which a hash map is gone through, both being parameters of the
step that runs `UpdateSessions`.  `made`, `queued` and `promoted` are no members of the
class: they record which sessions were made and which calls were made for them, so that
"first come, first in" can be said.

Left out: the ECS (`Server/SessionTimers` has the timers of sessions), the kicking of
sessions, which closes their sockets, and `InitializeSession` and `SendAuthWaitQue`, which
are empty.  Counters have 32 bits as in the code.

The lemmas at the end say what each operation does to each member; the modules on the queue,
the limit and the flags use these and do not unfold the operations.
-/
import PCGForUnity.Lib.Run
import PCGForUnity.Lib.StdMap
import PCGForUnity.Network.MessageBuffer

namespace PCGForUnity

/-- The members of `WorldSession` that are used here. -/
structure WorldSession where
  ptr : ℕ
  sessionId : UInt32
deriving DecidableEq, Repr

/-- `PlayerLoading` -/
def WorldSession.playerLoading (_ : WorldSession) : Bool := false

/-- The members of `World`.  `made` are the ids of the sessions made so far,
`queued` the sessions that `AddQueuedPlayer` was called for and `promoted` those
that `RemoveQueuedPlayer` let in. -/
structure World where
  sessions : StdMap UInt32 WorldSession
  disconnects : StdMap UInt32 Int
  queuedPlayer : List WorldSession
  playerLimit : UInt32
  maxActiveSessionCount : UInt32
  maxQueuedSessionCount : UInt32
  made : List UInt32
  queued : List WorldSession
  promoted : List WorldSession
deriving DecidableEq, Repr

namespace World

/-- The constructor, with the members it leaves unset. -/
def create (playerLimit maxActiveSessionCount maxQueuedSessionCount : UInt32) : World :=
  { sessions := []
    disconnects := []
    queuedPlayer := []
    playerLimit
    maxActiveSessionCount
    maxQueuedSessionCount
    made := []
    queued := []
    promoted := [] }

/-- `GetActiveAndQueuedSessionCount` -/
def getActiveAndQueuedSessionCount (w : World) : UInt32 := UInt32.ofNat w.sessions.length

/-- `GetActiveSessionCount`: the difference of two `size_t` values, cut to 32 bits. -/
def getActiveSessionCount (w : World) : UInt32 :=
  UInt32.ofNat (sizeSub w.sessions.length w.queuedPlayer.length)

/-- `GetQueuedSessionCount` -/
def getQueuedSessionCount (w : World) : UInt32 := UInt32.ofNat w.queuedPlayer.length

/-- `RemoveSession`: whether a session of that id may be replaced. -/
def removeSession (w : World) (id : UInt32) : Bool :=
  match w.sessions.find? fun e => e.1 = id with
  | some e => !e.2.playerLoading
  | none => true

/-- `FindSession` -/
def findSession (w : World) (id : UInt32) : Option WorldSession :=
  (w.sessions.find? fun e => e.1 = id).map Prod.snd

/-- `AddQueuedPlayer` -/
def addQueuedPlayer (w : World) (sess : WorldSession) : World :=
  { w with queuedPlayer := w.queuedPlayer ++ [sess], queued := w.queued ++ [sess] }

/-- The end of `RemoveQueuedPlayer`: the first of the queue is let in. -/
def acceptFirst (w : World) (sessions : UInt32) : World :=
  match w.queuedPlayer with
  | [] => w
  | popSess :: rest =>
      if w.playerLimit = 0 ∨ sessions < w.playerLimit then
        { w with queuedPlayer := rest, promoted := w.promoted ++ [popSess] }
      else w

/-- `RemoveQueuedPlayer`, and whether the session was in the queue. -/
def removeQueuedPlayer (w : World) (sess : WorldSession) : World × Bool :=
  let sessions := w.getActiveSessionCount
  let found := decide (sess ∈ w.queuedPlayer)
  let w := { w with queuedPlayer := w.queuedPlayer.erase sess }
  let sessions := if !found && sessions != 0 then sessions - 1 else sessions
  (w.acceptFirst sessions, found)

/-- `HasRecentlyDisconnected`, over the entries of `m_disconnects`, of which those
that are over are erased. -/
def hasRecentlyDisconnected (now : Int) (id : UInt32) :
    StdMap UInt32 Int → Bool × StdMap UInt32 Int
  | [] => (false, [])
  | (i, time) :: m =>
      if time - now < 1000 then
        if i = id then (true, (i, time) :: m)
        else
          let (found, m) := hasRecentlyDisconnected now id m
          (found, (i, time) :: m)
      else hasRecentlyDisconnected now id m

/-- `UpdateMaxSessionCounters` -/
def updateMaxSessionCounters (w : World) : World :=
  { w with
    maxActiveSessionCount := max w.maxActiveSessionCount w.getActiveSessionCount
    maxQueuedSessionCount := max w.maxQueuedSessionCount w.getQueuedSessionCount }

/-- The end of `AddSession_`, the session being in `m_mSessions`. -/
def login (w : World) (now : Int) (s : WorldSession) : World :=
  let sessions := w.getActiveAndQueuedSessionCount - 1
  let pLimit := w.playerLimit
  if pLimit > 0 ∧ sessions ≥ pLimit then
    let (recently, disconnects) := hasRecentlyDisconnected now s.sessionId w.disconnects
    let w := { w with disconnects }
    if !recently then (w.addQueuedPlayer s).updateMaxSessionCounters
    else w.updateMaxSessionCounters
  else w.updateMaxSessionCounters

/-- `AddSession_` -/
def addSession_ (w : World) (now : Int) (s : WorldSession) : World :=
  if !w.removeSession s.sessionId then w
  else login { w with sessions := StdMap.assign s.sessionId s w.sessions } now s

/-- `make_shared<WorldSession>` -/
def newSession (w : World) (id : UInt32) : WorldSession := { ptr := w.made.length, sessionId := id }

/-- `AddSession_` of a session that was made for it, as the server does. -/
def addNewSession (w : World) (now : Int) (id : UInt32) : World :=
  addSession_ { w with made := w.made ++ [id] } now (w.newSession id)

/-- The loop body of `UpdateSessions`; `update` are the results of the sessions' `Update`. -/
def updateSession (now : Int) (update : WorldSession → Bool) (w : World)
    (itr : UInt32 × WorldSession) : World :=
  if !update itr.2 then
    let (w, found) := w.removeQueuedPlayer itr.2
    let w :=
      if !found then { w with disconnects := StdMap.assign itr.2.sessionId now w.disconnects }
      else w
    let (w, _) := w.removeQueuedPlayer itr.2
    { w with sessions := StdMap.erase itr.1 w.sessions }
  else w

/-- The loop of `UpdateSessions`, which visits the sessions in some order. -/
def updateEach (w : World) (now : Int) (order : List (UInt32 × WorldSession))
    (update : WorldSession → Bool) : Option World :=
  if order.Perm w.sessions then some (order.foldl (updateSession now update) w) else none

/-- `UpdateSessions`, with the ids of the sessions in `addSessQueue`. -/
def updateSessions (w : World) (now : Int) (added : List UInt32)
    (order : List (UInt32 × WorldSession)) (update : WorldSession → Bool) : Option World :=
  (added.foldl (fun w id => w.addNewSession now id) w).updateEach now order update

/-! ### Runs -/

/-- `AddSession_`, and the part of `UpdateSessions` after its calls of that. -/
inductive Op
  | addSession_ (now : Int) (id : UInt32)
  | updateEach (now : Int) (order : List (UInt32 × WorldSession)) (update : WorldSession → Bool)

/-- An operation on the world. -/
def step (w : World) : Op → Option World
  | .addSession_ now id => some (w.addNewSession now id)
  | .updateEach now order update => w.updateEach now order update

/-- `UpdateSessions` is a run of calls of `AddSession_` and the rest. -/
theorem updateSessions_eq_foldlM (w : World) (now : Int) (added : List UInt32)
    (order : List (UInt32 × WorldSession)) (update : WorldSession → Bool) :
    w.updateSessions now added order update
      = (added.map (Op.addSession_ now) ++ [Op.updateEach now order update]).foldlM step w := by
  induction added generalizing w with
  | nil =>
      show w.updateEach now order update = (w.updateEach now order update).bind some
      exact (Option.bind_fun_some _).symm
  | cons id added ih => exact ih (w.addNewSession now id)

/-! ### What the operations do -/

variable {w : World} {now : Int} {sess s : WorldSession}

theorem removeSession_eq (w : World) (id : UInt32) : w.removeSession id = true := by
  rw [removeSession]
  split <;> rfl

/-- The world with a new session, before its login. -/
def store (w : World) (id : UInt32) : World :=
  { w with
    sessions := StdMap.assign id (w.newSession id) w.sessions
    made := w.made ++ [id] }

theorem addNewSession_eq (w : World) (now : Int) (id : UInt32) :
    w.addNewSession now id = (w.store id).login now (w.newSession id) := by
  rw [addNewSession, addSession_, removeSession_eq]
  rfl

/-- Either the queue is left alone or its first session is let in. -/
theorem acceptFirst_cases (w : World) (sessions : UInt32) :
    w.acceptFirst sessions = w ∧
        (w.queuedPlayer = [] ∨ ¬ (w.playerLimit = 0 ∨ sessions < w.playerLimit)) ∨
      ∃ popSess rest, w.queuedPlayer = popSess :: rest ∧
        (w.playerLimit = 0 ∨ sessions < w.playerLimit) ∧
        w.acceptFirst sessions =
          { w with queuedPlayer := rest, promoted := w.promoted ++ [popSess] } := by
  rw [acceptFirst]
  split
  · rename_i hqueue
    exact Or.inl ⟨rfl, Or.inl hqueue⟩
  · rename_i popSess rest hqueue
    split
    · rename_i hroom
      exact Or.inr ⟨popSess, rest, hqueue, hroom, rfl⟩
    · rename_i hfull
      exact Or.inl ⟨rfl, Or.inr hfull⟩

/-- The count that `RemoveQueuedPlayer` compares with the limit. -/
def countWithout (w : World) (sess : WorldSession) : UInt32 :=
  if !decide (sess ∈ w.queuedPlayer) && w.getActiveSessionCount != 0 then
    w.getActiveSessionCount - 1
  else w.getActiveSessionCount

/-- `RemoveQueuedPlayer` takes the session out of the queue, and then lets in the
first one or none. -/
theorem removeQueuedPlayer_cases (w : World) (sess : WorldSession) :
    ∃ more rest, w.queuedPlayer.erase sess = more ++ rest ∧
      w.removeQueuedPlayer sess =
        ({ w with queuedPlayer := rest, promoted := w.promoted ++ more },
          decide (sess ∈ w.queuedPlayer)) ∧
      (more = [] ∧ (rest = [] ∨ ¬ (w.playerLimit = 0 ∨ w.countWithout sess < w.playerLimit)) ∨
        ∃ popSess, more = [popSess] ∧
          (w.playerLimit = 0 ∨ w.countWithout sess < w.playerLimit)) := by
  rcases acceptFirst_cases { w with queuedPlayer := w.queuedPlayer.erase sess }
    (w.countWithout sess) with ⟨heq, hwhy⟩ | ⟨popSess, rest, hqueue, hroom, heq⟩
  · refine ⟨[], w.queuedPlayer.erase sess, rfl, ?_, Or.inl ⟨rfl, hwhy⟩⟩
    rw [List.append_nil]
    exact congrArg (·, decide (sess ∈ w.queuedPlayer)) heq
  · exact ⟨[popSess], rest, hqueue, congrArg (·, decide (sess ∈ w.queuedPlayer)) heq,
      Or.inr ⟨popSess, rfl, hroom⟩⟩

/-- `RemoveQueuedPlayer` changes nothing but the queue. -/
theorem removeQueuedPlayer_frame (w : World) (sess : WorldSession) :
    (w.removeQueuedPlayer sess).1.sessions = w.sessions ∧
      (w.removeQueuedPlayer sess).1.disconnects = w.disconnects ∧
      (w.removeQueuedPlayer sess).1.playerLimit = w.playerLimit ∧
      (w.removeQueuedPlayer sess).1.made = w.made := by
  obtain ⟨more, rest, -, heq, -⟩ := removeQueuedPlayer_cases w sess
  rw [heq]
  exact ⟨rfl, rfl, rfl, rfl⟩

/-- A session that leaves is taken out of the queue twice, and then out of the map.  If it was
not queued, the time is noted. -/
theorem updateSession_eq (w : World) (now : Int) {update : WorldSession → Bool} {itr : UInt32 × WorldSession}
    (h : update itr.2 = false) :
    ∃ disconnects, (disconnects = w.disconnects ∨
        disconnects = StdMap.assign itr.2.sessionId now w.disconnects) ∧
      w.updateSession now update itr =
        let w₂ := ({ (w.removeQueuedPlayer itr.2).1 with disconnects }.removeQueuedPlayer itr.2).1
        { w₂ with sessions := StdMap.erase itr.1 w₂.sessions } := by
  rw [updateSession, if_pos (by rw [h]; rfl), ← (removeQueuedPlayer_frame w itr.2).2.1]
  generalize w.removeQueuedPlayer itr.2 = r
  obtain ⟨w₁, found⟩ := r
  cases found with
  | true => exact ⟨w₁.disconnects, Or.inl rfl, rfl⟩
  | false => exact ⟨_, Or.inr rfl, rfl⟩

theorem made_updateSession (w : World) (now : Int) (update : WorldSession → Bool)
    (itr : UInt32 × WorldSession) : (w.updateSession now update itr).made = w.made := by
  cases hupdate : update itr.2 with
  | true =>
      rw [World.updateSession, hupdate]
      rfl
  | false =>
      obtain ⟨disconnects, -, heq⟩ := updateSession_eq w now hupdate
      rw [heq]
      exact (removeQueuedPlayer_frame _ _).2.2.2.trans (removeQueuedPlayer_frame w itr.2).2.2.2

/-- The ids of the entries after that. -/
theorem mem_keys_disconnects {id i : UInt32} {disconnects : StdMap UInt32 Int}
    (h : disconnects = w.disconnects ∨ disconnects = StdMap.assign id now w.disconnects)
    (hi : i ∈ StdMap.keys disconnects) : i = id ∨ i ∈ StdMap.keys w.disconnects := by
  rcases h with rfl | rfl
  · exact Or.inr hi
  · rw [StdMap.keys_assign] at hi
    split at hi
    · exact Or.inr hi
    · exact (List.mem_append.mp hi).symm.imp_left List.mem_singleton.mp

/-- `HasRecentlyDisconnected` only erases. -/
theorem mem_of_mem_hasRecentlyDisconnected {now : Int} {id : UInt32} {m : StdMap UInt32 Int}
    {e : UInt32 × Int} (h : e ∈ (hasRecentlyDisconnected now id m).2) : e ∈ m := by
  induction m with
  | nil => exact h
  | cons hd m ih =>
      rw [hasRecentlyDisconnected] at h
      split at h
      · split at h
        · exact h
        · rcases List.mem_cons.mp h with rfl | h
          · exact List.mem_cons_self
          · exact List.mem_cons_of_mem _ (ih h)
      · exact List.mem_cons_of_mem _ (ih h)

/-- `HasRecentlyDisconnected` knows only ids that are in the map. -/
theorem mem_keys_of_hasRecentlyDisconnected {now : Int} {id : UInt32} {m : StdMap UInt32 Int}
    (h : (hasRecentlyDisconnected now id m).1 = true) : id ∈ StdMap.keys m := by
  induction m with
  | nil => cases h
  | cons hd m ih =>
      rw [hasRecentlyDisconnected] at h
      split at h
      · split at h
        · rename_i heq
          exact heq ▸ List.mem_cons_self
        · exact List.mem_cons_of_mem _ (ih h)
      · exact List.mem_cons_of_mem _ (ih h)

/-- `AddSession_` finds the world full. -/
def Full (w : World) : Prop :=
  w.playerLimit > 0 ∧ w.getActiveAndQueuedSessionCount - 1 ≥ w.playerLimit

/-- `AddSession_` queues the session, or not. -/
theorem login_cases (w : World) (now : Int) (s : WorldSession) :
    ∃ disconnects maxActive maxQueued, (∀ e ∈ disconnects, e ∈ w.disconnects) ∧
      (w.login now s = { w with
            disconnects
            maxActiveSessionCount := maxActive
            maxQueuedSessionCount := maxQueued } ∧
          (¬ w.Full ∨ s.sessionId ∈ StdMap.keys w.disconnects) ∨
        w.login now s = { w with
            disconnects
            maxActiveSessionCount := maxActive
            maxQueuedSessionCount := maxQueued
            queuedPlayer := w.queuedPlayer ++ [s]
            queued := w.queued ++ [s] } ∧
          w.Full) := by
  rw [login]
  split
  · rename_i hfull
    have hsub : ∀ e ∈ (hasRecentlyDisconnected now s.sessionId w.disconnects).2,
        e ∈ w.disconnects := fun _ => mem_of_mem_hasRecentlyDisconnected
    have hkey : (hasRecentlyDisconnected now s.sessionId w.disconnects).1 = true →
        s.sessionId ∈ StdMap.keys w.disconnects := mem_keys_of_hasRecentlyDisconnected
    generalize hasRecentlyDisconnected now s.sessionId w.disconnects = r at hsub hkey ⊢
    obtain ⟨recently, disconnects⟩ := r
    cases recently with
    | false => exact ⟨disconnects, _, _, hsub, Or.inr ⟨rfl, hfull⟩⟩
    | true => exact ⟨disconnects, _, _, hsub, Or.inl ⟨rfl, Or.inr (hkey rfl)⟩⟩
  · rename_i hroom
    exact ⟨_, _, _, fun _ he => he, Or.inl ⟨rfl, Or.inl hroom⟩⟩

/-- The session is made and stored before. -/
theorem login_frame (w : World) (now : Int) (s : WorldSession) :
    (w.login now s).sessions = w.sessions ∧ (w.login now s).made = w.made ∧
      (w.login now s).playerLimit = w.playerLimit := by
  obtain ⟨disconnects, maxActive, maxQueued, -, ⟨heq, -⟩ | ⟨heq, -⟩⟩ := login_cases w now s
  · rw [heq]
    exact ⟨rfl, rfl, rfl⟩
  · rw [heq]
    exact ⟨rfl, rfl, rfl⟩

/-- Without a limit the world is never full. -/
theorem login_of_no_limit (hlimit : w.playerLimit = 0) (now : Int) (s : WorldSession) :
    (w.login now s).queuedPlayer = w.queuedPlayer := by
  obtain ⟨disconnects, maxActive, maxQueued, -, ⟨heq, -⟩ | ⟨-, hfull⟩⟩ := login_cases w now s
  · rw [heq]
  · have hpos : w.playerLimit > 0 := hfull.1
    rw [hlimit] at hpos
    exact absurd hpos (UInt32.lt_irrefl 0)

end World

end PCGForUnity
