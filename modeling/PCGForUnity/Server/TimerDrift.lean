/-
PCGForUnity/Server/TimerDrift.lean

No time is lost between the two timers of a session (`timers_do_not_drift`).  For a session
that is added in the first of some ticks and stays, with its callbacks,

    heartbeats sent           =  time before the last tick / 6000
    what the timers stand at  ≡  time that passed,  modulo their intervals

whatever the lengths of the ticks are, up to the interval of the heartbeat.

Design.  A timer that has passed stops until it is reset, and the heartbeat is looked at only
in the ticks after the update timer has passed.  But the interval of the heartbeat is a
multiple of the other one: whenever it passes the update timer does too, so both are reset in
the same tick (`Clock.updateAlive`).  `Clock` has the time that was accounted for and the time
since.

The sessions reach their timers by pointers that callbacks move.  `runs_have_results` shows
that none of them dangles as long as no id was given twice, so that the runs that the result
is about are those of the world.
-/
import PCGForUnity.Server.LoginQueue
import PCGForUnity.Server.SessionTimers
import Mathlib.Data.Int.ModEq

namespace PCGForUnity

namespace Timers

open IntervalTimer

variable {t t' : Timers} {ptr total diff : ℕ}

/-- A timer that runs until it has passed. -/
def running (id : UInt32) (interval current : ℕ) : Component IntervalTimer :=
  component id (decide (current < interval)) interval current

section Running

variable {id : UInt32} {interval current : ℕ}

theorem passed_running : (running id interval current).members.passed = decide (interval ≤ current) :=
  decide_eq_decide.mpr Int.ofNat_le

theorem reset_running (hpos : 0 < interval) (h : interval ≤ current) :
    IntervalTimer.reset (running id interval current) = running id interval (current % interval) := by
  rw [running, reset_component, if_pos (Int.ofNat_le.mpr h), running,
    decide_eq_true (Nat.mod_lt current hpos)]
  rfl

theorem onUpdateTimer_running (h : current < interval) (diff : ℕ) :
    onUpdateTimer diff (running id interval current) = running id interval (current + diff) := by
  have hdirty : (!decide ((current : ℤ) + diff ≥ interval)) = decide (current + diff < interval) := by
    rw [← decide_not]
    exact decide_eq_decide.mpr (by omega)
  rw [running, decide_eq_true h, onUpdateTimer_component, hdirty]
  rfl

end Running

/-- The clock of a session: its timers were last looked at after `total` ms, which made all the
heartbeats, and ran for `diff` ms since. -/
structure Clock (t : Timers) (ptr total diff : ℕ) : Prop where
  timer : t.aData.data[2 * ptr]? =
    some (running (UInt32.ofNat (2 * ptr)) 50 (total % 50 + diff))
  heartBeatTimer : t.aData.data[2 * ptr + 1]? =
    some (running (UInt32.ofNat (2 * ptr + 1)) 6000 (total % 6000 + diff))
  heartBeats : (t.session ptr).heartBeats = total / 6000

/-- Timers that were looked at both run. -/
theorem Clock.onUpdate (h : t.Clock ptr total 0) (diff : ℕ) :
    (t.onUpdate diff).Clock ptr total diff := by
  have hmap (i : ℕ) : (t.onUpdate diff).aData.data[i]? = (t.aData.data[i]?).map (onUpdateTimer diff) :=
    List.getElem?_map ..
  refine ⟨?_, ?_, h.heartBeats⟩
  · rw [hmap, h.timer, Option.map_some, onUpdateTimer_running (by omega)]
    rfl
  · rw [hmap, h.heartBeatTimer, Option.map_some, onUpdateTimer_running (by omega)]
    rfl

/-- A visit of the session looks at its timers: none of the time is lost. -/
theorem Clock.updateAlive (h : t.Clock ptr total diff) (hdiff : diff ≤ 6000)
    (htimer : (t.session ptr).timer = some ⟨t.aData.allocation, 2 * ptr⟩)
    (hheart : (t.session ptr).heartBeatTimer = some ⟨t.aData.allocation, 2 * ptr + 1⟩) :
    ∃ t', t.updateAlive ptr = some t' ∧ t'.Clock ptr (total + diff) 0 := by
  obtain ⟨hslot, hslot', hbeats⟩ := h
  have hderef : t.deref ⟨t.aData.allocation, 2 * ptr⟩ = _ := deref_eq_some_iff.mpr ⟨rfl, hslot⟩
  have hlt : 2 * ptr < t.aData.data.length := (List.getElem?_eq_some_iff.mp hslot).1
  have hlt' : 2 * ptr + 1 < t.aData.data.length := (List.getElem?_eq_some_iff.mp hslot').1
  rw [Timers.updateAlive, htimer]
  dsimp only
  rw [hderef, Option.bind_eq_bind, Option.bind_some, passed_running]
  by_cases hpassed : 50 ≤ total % 50 + diff
  · -- the reset keeps the rest of the division by the interval; then comes the heartbeat
    rw [decide_eq_true hpassed, Bool.not_true, if_neg Bool.false_ne_true]
    set t₁ := t.reset ⟨t.aData.allocation, 2 * ptr⟩
      (running (UInt32.ofNat (2 * ptr)) 50 (total % 50 + diff)) with ht₁
    have hslot₁ : t₁.aData.data[2 * ptr]? =
        some (running (UInt32.ofNat (2 * ptr)) 50 ((total + diff) % 50 + 0)) := by
      show (t.aData.data.set _ _)[2 * ptr]? = _
      rw [List.getElem?_set_self hlt, reset_running (by omega) hpassed]
      congr 2
      omega
    have hslot₁' : t₁.aData.data[2 * ptr + 1]? = _ :=
      (List.getElem?_set_ne (by omega : 2 * ptr ≠ 2 * ptr + 1)).trans hslot'
    have hderef' : t₁.deref ⟨t.aData.allocation, 2 * ptr + 1⟩ = _ :=
      deref_eq_some_iff.mpr ⟨rfl, hslot₁'⟩
    have hheart₁ : (t₁.session ptr).heartBeatTimer = _ := hheart
    rw [updateHeartBeat, hheart₁]
    dsimp only
    rw [hderef', Option.bind_eq_bind, Option.bind_some, passed_running]
    by_cases hbeat : 6000 ≤ total % 6000 + diff
    -- one heartbeat at most is due, as the visits are no more than 6000 apart
    · refine ⟨_, if_pos (decide_eq_true hbeat), ?_, ?_, ?_⟩
      · exact (List.getElem?_set_ne (by omega : 2 * ptr + 1 ≠ 2 * ptr)).trans hslot₁
      · show (t₁.aData.data.set _ _)[2 * ptr + 1]? = _
        rw [List.getElem?_set_self (by rw [ht₁]; exact List.length_set.symm ▸ hlt'),
          reset_running (by omega) hbeat]
        congr 2
        omega
      · show (if ptr = ptr then _ else _ : SessionTimers).heartBeats = _
        rw [if_pos rfl]
        show (t.session ptr).heartBeats + 1 = _
        rw [hbeats]
        omega
    · refine ⟨t₁, by rw [decide_eq_false hbeat]; rfl, hslot₁, ?_, ?_⟩
      · rw [hslot₁']
        congr 2
        omega
      · show (t.session ptr).heartBeats = _
        rw [hbeats]
        omega
  · -- then the heartbeat has not passed either
    refine ⟨t, by rw [decide_eq_false hpassed]; rfl, ?_, ?_, ?_⟩
    · rw [hslot]
      congr 2
      omega
    · rw [hslot']
      congr 2
      omega
    · rw [hbeats]
      omega

/-- A session has its callbacks. -/
theorem Inv.keepsTimers_iff (h : t.Inv) (hptr : 2 * ptr + 1 < t.size) :
    t.KeepsTimers ptr ↔ t.Registered (2 * ptr) ∧ t.Registered (2 * ptr + 1) := by
  have hid := (t.timerId_even ptr).symm.trans (h.timerId (2 * ptr) (by omega))
  have hid' := (t.timerId_odd ptr).symm.trans (h.timerId (2 * ptr + 1) hptr)
  rw [KeepsTimers, hid, hid', Registered, Registered, Nat.mul_div_cancel_left ptr Nat.two_pos,
    show (2 * ptr + 1) / 2 = ptr by omega]

/-- Then it is told of its timers. -/
theorem Inv.told_of_keepsTimers (h : t.Inv) (hptr : 2 * ptr + 1 < t.size)
    (hkeeps : t.KeepsTimers ptr) :
    (t.session ptr).timer = some ⟨t.aData.allocation, 2 * ptr⟩ ∧
      (t.session ptr).heartBeatTimer = some ⟨t.aData.allocation, 2 * ptr + 1⟩ := by
  obtain ⟨hreg, hreg'⟩ := (h.keepsTimers_iff hptr).mp hkeeps
  rw [← timer_even, ← timer_odd]
  exact ⟨(h.told _ (by omega) hreg).1, (h.told _ hptr hreg').1⟩

theorem Runs.keepsTimers_iff (h : t.Runs t') (ptr : ℕ) : t'.KeepsTimers ptr ↔ t.KeepsTimers ptr := by
  rw [KeepsTimers, KeepsTimers, h.eventMap, ← timerId_even, ← timerId_odd, ← timerId_even,
    ← timerId_odd, h.timerId, h.timerId]

/-- The clock of a session that has its callbacks. -/
def Keeping (t : Timers) (ptr total diff : ℕ) : Prop :=
  t.KeepsTimers ptr → t.Clock ptr total diff

/-- Making a timer of another session does not touch the clock. -/
theorem Keeping.kept (h : t.Keeping ptr total diff) (hinv : t.Inv) (hinv' : t'.Inv)
    (hkept : t.Kept t') (hptr : 2 * ptr + 1 < t.size) : t'.Keeping ptr total diff := by
  intro hkeeps
  obtain ⟨hreg, hreg'⟩ := (hinv'.keepsTimers_iff (hptr.trans_le hkept.size_le)).mp hkeeps
  obtain ⟨htimer, hheart, hbeats⟩ := h ((hinv.keepsTimers_iff hptr).mpr
    ⟨hkept.registered _ (by omega) hreg, hkept.registered _ hptr hreg'⟩)
  exact ⟨(hkept.slot _ (by omega) hreg).trans htimer, (hkept.slot _ hptr hreg').trans hheart,
    (hkept.heartBeats ptr).trans hbeats⟩

/-- Nor does the visit of another session. -/
theorem Keeping.visits {q : ℕ} (h : t.Keeping ptr total diff) (hinv : t.Inv)
    (hvisits : t.Visits q t') (hne : ptr ≠ q) (hptr : 2 * ptr + 1 < t.size) :
    t'.Keeping ptr total diff := by
  intro hkeeps
  have hkeeps := (hvisits.keepsTimers_iff ptr).mp hkeeps
  obtain ⟨hreg, hreg'⟩ := (hinv.keepsTimers_iff hptr).mp hkeeps
  obtain ⟨htimer, hheart, hbeats⟩ := h hkeeps
  exact ⟨(hvisits.other _ (by omega) (by omega) hreg).trans htimer,
    (hvisits.other _ hptr (by omega) hreg').trans hheart,
    (hvisits.heartBeats ptr hne).trans hbeats⟩

theorem Keeping.updateAlive (h : t.Keeping ptr total diff) (hinv : t.Inv)
    (hptr : 2 * ptr + 1 < t.size) (hdiff : diff ≤ 6000) (e : t.updateAlive ptr = some t') :
    t'.Keeping ptr (total + diff) 0 := by
  intro hkeeps
  have hkeeps := ((hinv.updateAlive e).keepsTimers_iff ptr).mp hkeeps
  obtain ⟨htimer, hheart⟩ := hinv.told_of_keepsTimers hptr hkeeps
  obtain ⟨t'', e', hclock⟩ := (h hkeeps).updateAlive hdiff htimer hheart
  obtain rfl := Option.some.inj (e.symm.trans e')
  exact hclock

theorem Keeping.onUpdate (h : t.Keeping ptr total 0) (diff : ℕ) :
    (t.onUpdate diff).Keeping ptr total diff := by
  intro hkeeps
  exact (h (((runs_onUpdate t diff).keepsTimers_iff ptr).mp hkeeps)).onUpdate diff

end Timers

/-! ### The sessions of a world -/

namespace World

/-- A stored session has the id that was given when it was made. -/
structure Numbered (w : World) : Prop extends Stored w where
  numbered : ∀ e ∈ w.sessions, w.made[e.2.ptr]? = some e.2.sessionId

variable {w w' : World} {s : WorldSession}

/-- So no two sessions of the map have the same address. -/
theorem Numbered.eq_of_ptr (h : w.Numbered) {e e' : UInt32 × WorldSession} (he : e ∈ w.sessions)
    (he' : e' ∈ w.sessions) (hptr : e.2.ptr = e'.2.ptr) : e = e' := by
  apply StdMap.eq_of_key h.nodup he he'
  have hid := h.numbered e he
  rw [hptr, h.numbered e' he'] at hid
  rw [h.key e he, h.key e' he', Option.some.inj hid]

theorem Numbered.addNewSession (h : w.Numbered) (now : ℤ) (id : UInt32) :
    (w.addNewSession now id).Numbered ∧ (w.addNewSession now id).made = w.made ++ [id] := by
  rw [addNewSession_eq]
  obtain ⟨hsessions, hmade, -⟩ := login_frame (w.store id) now (w.newSession id)
  refine ⟨{ (h.toStored.store id).congr hsessions hmade with numbered := fun e he => ?_ }, hmade⟩
  rw [hsessions] at he
  rw [hmade]
  show (w.made ++ [id])[e.2.ptr]? = _
  rcases (mem_sessions_store h.toStored).mp he with rfl | ⟨he, -⟩
  · exact List.getElem?_concat_length
  · rw [List.getElem?_append_left (h.made e he)]
    exact h.numbered e he

theorem Numbered.updateSession (h : w.Numbered) (now : ℤ) (update : WorldSession → Bool)
    (itr : UInt32 × WorldSession) :
    (w.updateSession now update itr).Numbered ∧
      (w.updateSession now update itr).made = w.made := by
  cases hupdate : update itr.2 with
  | true =>
      rw [World.updateSession, hupdate]
      exact ⟨h, rfl⟩
  | false =>
      obtain ⟨disconnects, -, heq⟩ := updateSession_eq w now hupdate
      obtain ⟨hsessions, -, -, hmade⟩ := removeQueuedPlayer_frame w itr.2
      obtain ⟨hsessions', -, -, hmade'⟩ :=
        removeQueuedPlayer_frame { (w.removeQueuedPlayer itr.2).1 with disconnects } itr.2
      have hmade := hmade'.trans hmade
      have hsub : ∀ e ∈ StdMap.erase itr.1 w.sessions, e ∈ w.sessions :=
        fun e he => (StdMap.mem_erase.mp he).1
      rw [heq]
      dsimp only
      rw [hsessions'.trans hsessions]
      refine ⟨⟨⟨StdMap.nodup_keys_erase h.nodup _, fun e he => h.key e (hsub e he),
        fun e he => ?_⟩, fun e he => ?_⟩, hmade⟩
      · exact hmade ▸ h.made e (hsub e he)
      · exact hmade ▸ h.numbered e (hsub e he)

end World

namespace TimedWorld

/-- The invariant: two timers were made for every session. -/
structure Inv (w : TimedWorld) : Prop where
  numbered : w.world.Numbered
  timers : w.timers.Inv
  size : w.timers.size = 2 * w.world.made.length
  fresh : ∀ ptr ≥ w.world.made.length, (w.timers.session ptr).heartBeats = 0

/-- The clock of a session that was made. -/
def Keeping (w : TimedWorld) (ptr total diff : ℕ) : Prop :=
  ptr < w.world.made.length → w.timers.Keeping ptr total diff

variable {w w' : TimedWorld} {s : WorldSession} {now : ℤ} {id : UInt32} {total diff : ℕ}
  {alive : WorldSession → Bool} {itr : UInt32 × WorldSession} {t : Tick}

theorem inv_create (dirty : Bool) (limit maxActive maxQueued : UInt32) :
    (create dirty limit maxActive maxQueued).Inv where
  numbered :=
    { (World.queued_create limit maxActive maxQueued).toStored with
      numbered := fun e he => by cases he }
  timers := Timers.inv_create dirty
  size := rfl
  fresh _ _ := rfl

/-- `AddSession_`: the clock of the new session stands at zero. -/
theorem Inv.addNewSession (h : w.Inv) (e : w.addNewSession now id = some w') :
    w'.Inv ∧ w'.world.made.length = w.world.made.length + 1 ∧
      ∀ ptr total diff, (w.world.made.length ≤ ptr → total = 0 ∧ diff = 0) →
        w.Keeping ptr total diff → w'.Keeping ptr total diff := by
  obtain ⟨t', hrun, hinv, hkept, hsize, hslot, hslot'⟩ := h.timers.initilize h.size
  obtain ⟨hnumbered, hmade⟩ := h.numbered.addNewSession now id
  have heq : w.addNewSession now id = some ⟨w.world.addNewSession now id, t'⟩ := by
    rw [TimedWorld.addNewSession, show (w.world.newSession id).ptr = w.world.made.length from rfl,
      hrun]
    rfl
  obtain rfl := Option.some.inj (heq.symm.trans e)
  have hlength : (w.world.addNewSession now id).made.length = w.world.made.length + 1 := by
    rw [hmade, List.length_append]
    rfl
  refine ⟨⟨hnumbered, hinv, ?_, fun q hq => ?_⟩, hlength, fun ptr total diff hnew hkeeping hptr => ?_⟩
  · show t'.size = 2 * (w.world.addNewSession now id).made.length
    rw [hlength, hsize]
    rfl
  · have hq : (w.world.addNewSession now id).made.length ≤ q := hq
    exact (hkept.heartBeats q).trans (h.fresh q (by omega))
  · have hptr : ptr < (w.world.addNewSession now id).made.length := hptr
    rw [hlength] at hptr
    rcases Nat.lt_succ_iff_lt_or_eq.mp hptr with hlt | rfl
    · exact (hkeeping hlt).kept h.timers hinv hkept (by rw [h.size]; omega)
    · obtain ⟨rfl, rfl⟩ := hnew (Nat.le_refl _)
      exact fun _ => ⟨hslot, hslot', (hkept.heartBeats _).trans (h.fresh _ (Nat.le_refl _))⟩

/-- A round of the loop of `UpdateSessions`: it looks at the clock of the session visited. -/
theorem Inv.updateSession (h : w.Inv) (hitr : itr.2.ptr < w.world.made.length)
    (e : w.updateSession now alive itr = some w') :
    w'.Inv ∧ w'.world.made = w.world.made ∧
      ∀ ptr total diff, w.Keeping ptr total diff →
        (ptr ≠ itr.2.ptr → w'.Keeping ptr total diff) ∧
        (ptr = itr.2.ptr → alive itr.2 = true → diff ≤ 6000 →
          w'.Keeping ptr (total + diff) 0) := by
  rw [TimedWorld.updateSession] at e
  obtain ⟨t', ht', e⟩ := Option.bind_eq_some_iff.mp e
  obtain rfl := Option.some.inj e
  obtain ⟨hnumbered, hmade⟩ := h.numbered.updateSession now alive itr
  have hmade' : (w.world.updateSession now alive itr).made.length = w.world.made.length := by
    rw [hmade]
  have hvisits : w.timers.Visits itr.2.ptr t' := h.timers.update ht'
  refine ⟨⟨hnumbered, h.timers.runs hvisits.toRuns, ?_, fun q hq => ?_⟩, hmade,
    fun ptr total diff hkeeping => ⟨fun hne hptr => ?_, ?_⟩⟩
  · rw [hvisits.size, h.size, ← hmade]
  · have hq : w.world.made.length ≤ q := hmade ▸ hq
    exact (hvisits.heartBeats q (by omega)).trans (h.fresh q hq)
  · have hptr : ptr < w.world.made.length := hmade' ▸ hptr
    exact (hkeeping hptr).visits h.timers hvisits hne (by rw [h.size]; omega)
  · rintro rfl halive hdiff hptr
    have hptr : itr.2.ptr < w.world.made.length := hmade' ▸ hptr
    rw [halive, Timers.update, if_pos rfl] at ht'
    exact (hkeeping hptr).updateAlive h.timers (by rw [h.size]; omega) hdiff ht'

/-- The visits of sessions other than one. -/
theorem Inv.foldlM_updateSession {order : List (UInt32 × WorldSession)} (h : w.Inv)
    (horder : ∀ itr ∈ order, itr.2.ptr < w.world.made.length)
    (hrun : order.foldlM (TimedWorld.updateSession now alive) w = some w') :
    w'.Inv ∧ w'.world.made = w.world.made ∧
      ∀ ptr total diff, (∀ itr ∈ order, ptr ≠ itr.2.ptr) → w.Keeping ptr total diff →
        w'.Keeping ptr total diff := by
  refine Run.foldlM_invariant (TimedWorld.updateSession now alive)
    (fun v => v.Inv ∧ v.world.made = w.world.made ∧
      ∀ ptr total diff, (∀ itr ∈ order, ptr ≠ itr.2.ptr) → w.Keeping ptr total diff →
        v.Keeping ptr total diff) ?_ ⟨h, rfl, fun _ _ _ _ => id⟩ hrun
  rintro v itr v' hmem ⟨hinv, hmade, hkeeps⟩ e
  obtain ⟨hinv', hmade', hother⟩ := hinv.updateSession (hmade ▸ horder itr hmem) e
  exact ⟨hinv', hmade'.trans hmade, fun ptr total diff hne hkeeping =>
    (hother ptr total diff (hkeeps ptr total diff hne hkeeping)).1 (hne itr hmem)⟩

/-- The timers run on. -/
theorem Inv.onUpdate (h : w.Inv) (timeDiff : ℤ) :
    TimedWorld.Inv { w with timers := w.timers.onUpdate timeDiff } :=
  { h with
    timers := h.timers.runs (Timers.runs_onUpdate w.timers timeDiff)
    size := (Timers.runs_onUpdate w.timers timeDiff).size.trans h.size }

/-- The parts of a tick. -/
theorem update_eq_some (e : w.update t = some w') :
    ∃ w₁ w₂, t.added.foldlM (TimedWorld.addNewSession t.now) w = some w₁ ∧
      t.order.Perm w₁.world.sessions ∧
      t.order.foldlM (TimedWorld.updateSession t.now t.alive) w₁ = some w₂ ∧
      w' = { w₂ with timers := w₂.timers.onUpdate t.diff.toInt32.toInt } := by
  rw [TimedWorld.update] at e
  obtain ⟨w₂, hsessions, e⟩ := Option.bind_eq_some_iff.mp e
  rw [updateSessions] at hsessions
  obtain ⟨w₁, hadded, hsessions⟩ := Option.bind_eq_some_iff.mp hsessions
  split at hsessions
  · rename_i hperm
    exact ⟨w₁, w₂, hadded, hperm, hsessions, (Option.some.inj e).symm⟩
  · cases hsessions

/-- A tick keeps the invariant. -/
theorem Inv.step (h : w.Inv) (e : w.update t = some w') : w'.Inv := by
  obtain ⟨w₁, w₂, hadded, hperm, hvisited, rfl⟩ := update_eq_some e
  have hinv₁ : w₁.Inv := Run.foldlM_invariant (TimedWorld.addNewSession t.now) Inv
    (fun v id v' _ hinv e => (hinv.addNewSession e).1) h hadded
  have hlt (itr : UInt32 × WorldSession) (hitr : itr ∈ t.order) :
      itr.2.ptr < w₁.world.made.length := hinv₁.numbered.made itr (hperm.subset hitr)
  exact (hinv₁.foldlM_updateSession hlt hvisited).1.onUpdate _

theorem toInt_toInt32 {diff : UInt32} (h : diff.toNat < 2 ^ 31) :
    diff.toInt32.toInt = diff.toNat := by
  show diff.toBitVec.toInt = _
  exact BitVec.toInt_eq_toNat_of_lt (by show 2 * diff.toNat < 2 ^ 32; omega)

/-- A tick in which a session is visited: its clock is looked at once, and goes on. -/
theorem Inv.update (h : w.Inv) (hkeeping : w.Keeping s.ptr total diff)
    (hnew : w.world.made.length ≤ s.ptr → total = 0 ∧ diff = 0) (hdiff : diff ≤ 6000)
    (hmem : (s.sessionId, s) ∈ t.order) (halive : t.alive s = true) (ht : t.diff.toNat ≤ 6000)
    (e : w.update t = some w') :
    w'.Inv ∧ s.ptr < w'.world.made.length ∧ w'.Keeping s.ptr (total + diff) t.diff.toNat := by
  obtain ⟨w₁, w₂, hadded, hperm, hvisited, rfl⟩ := update_eq_some e
  -- the sessions that are added, the one among them or before
  obtain ⟨hinv₁, hkeeping₁, -⟩ := Run.foldlM_invariant (TimedWorld.addNewSession t.now)
    (fun v => v.Inv ∧ v.Keeping s.ptr total diff ∧
      (v.world.made.length ≤ s.ptr → total = 0 ∧ diff = 0))
    (fun v id v' _ ⟨hinv, hkeeping, hnew⟩ e => by
      obtain ⟨hinv', hlength, hkeeps⟩ := hinv.addNewSession e
      exact ⟨hinv', hkeeps _ _ _ hnew hkeeping, fun hle => hnew (by omega)⟩) ⟨h, hkeeping, hnew⟩ hadded
  have hlt (itr : UInt32 × WorldSession) (hitr : itr ∈ t.order) :
      itr.2.ptr < w₁.world.made.length := hinv₁.numbered.made itr (hperm.subset hitr)
  have hs := hlt _ hmem
  have hnodup : t.order.Nodup :=
    hperm.nodup_iff.mpr (List.Nodup.of_map Prod.fst hinv₁.numbered.nodup)
  -- those visited before it and after it are others
  obtain ⟨before, after, horder⟩ := List.append_of_mem hmem
  rw [horder, List.nodup_middle] at hnodup
  have hother (itr : UInt32 × WorldSession) (hitr : itr ∈ before ++ after) :
      itr ∈ t.order ∧ s.ptr ≠ itr.2.ptr := by
    have hitr' : itr ∈ t.order := by
      rw [horder]
      exact List.perm_middle.mem_iff.mpr (List.mem_cons_of_mem _ hitr)
    refine ⟨hitr', fun heq => (List.nodup_cons.mp hnodup).1 ?_⟩
    rw [hinv₁.numbered.eq_of_ptr (hperm.subset hmem) (hperm.subset hitr') heq]
    exact hitr
  rw [horder, List.foldlM_append] at hvisited
  obtain ⟨v, hbefore, hvisited⟩ := Option.bind_eq_some_iff.mp hvisited
  rw [List.foldlM_cons] at hvisited
  obtain ⟨v', hself, hafter⟩ := Option.bind_eq_some_iff.mp hvisited
  obtain ⟨hinv, hmade, hkeeps⟩ := hinv₁.foldlM_updateSession
    (fun itr hitr => hlt itr (hother itr (List.mem_append_left _ hitr)).1) hbefore
  obtain ⟨hinv', hmade', hlooks⟩ := hinv.updateSession (hmade ▸ hs) hself
  have hmade' := hmade'.trans hmade
  obtain ⟨hinv₂, hmade₂, hkeeps₂⟩ := hinv'.foldlM_updateSession
    (fun itr hitr => hmade' ▸ hlt itr (hother itr (List.mem_append_right _ hitr)).1) hafter
  have hs₂ : s.ptr < w₂.world.made.length := by
    rw [hmade₂, hmade']
    exact hs
  refine ⟨hinv₂.onUpdate _, hs₂, fun _ => ?_⟩
  have hkeeping₂ : w₂.Keeping s.ptr (total + diff) 0 :=
    hkeeps₂ _ _ _ (fun itr hitr => (hother itr (List.mem_append_right _ hitr)).2)
      ((hlooks _ _ _ (hkeeps _ _ _
        (fun itr hitr => (hother itr (List.mem_append_left _ hitr)).2) hkeeping₁)).2
        rfl halive hdiff)
  rw [toInt_toInt32 (by omega)]
  exact (hkeeping₂ hs₂).onUpdate _

/-- The session is visited in the tick, neither idle nor disconnected, and no more than
`HEART_BEAT_INTERVAL` passes. -/
structure Stays (s : WorldSession) (t : Tick) : Prop where
  mem : (s.sessionId, s) ∈ t.order
  alive : t.alive s = true
  diff_le : t.diff.toNat ≤ 6000

/-- The time that passed in some ticks. -/
def elapsed (ticks : List Tick) : ℕ := (ticks.map fun t => t.diff.toNat).sum

/-- What passed before the last tick was looked at. -/
theorem Inv.run {ticks : List Tick} (hne : ticks ≠ []) (h : w.Inv)
    (hkeeping : w.Keeping s.ptr total diff)
    (hnew : w.world.made.length ≤ s.ptr → total = 0 ∧ diff = 0) (hdiff : diff ≤ 6000)
    (hstays : ∀ t ∈ ticks, Stays s t) (hrun : ticks.foldlM TimedWorld.update w = some w') :
    ∃ last, w'.Inv ∧ s.ptr < w'.world.made.length ∧
      w'.Keeping s.ptr (total + diff + elapsed ticks.dropLast) last ∧
      elapsed ticks.dropLast + last = elapsed ticks := by
  induction ticks generalizing w total diff with
  | nil => exact absurd rfl hne
  | cons t ticks ih =>
      obtain ⟨hmem, halive, ht⟩ := hstays t List.mem_cons_self
      rw [List.foldlM_cons] at hrun
      obtain ⟨w₁, e, hrun⟩ := Option.bind_eq_some_iff.mp hrun
      obtain ⟨hinv, hptr, hkeeping'⟩ := h.update hkeeping hnew hdiff hmem halive ht e
      cases ticks with
      | nil =>
          obtain rfl := Option.some.inj hrun
          exact ⟨t.diff.toNat, hinv, hptr, hkeeping', by simp [elapsed]⟩
      | cons t' ticks =>
          obtain ⟨last, hinv', hptr', hkeeping', hsum⟩ := ih (List.cons_ne_nil _ _) hinv hkeeping'
            (fun hle => absurd hptr (by omega)) ht
            (fun u hu => hstays u (List.mem_cons_of_mem _ hu)) hrun
          have hcons (ts : List Tick) : elapsed (t :: ts) = t.diff.toNat + elapsed ts :=
            List.sum_cons
          refine ⟨last, hinv', hptr', ?_, ?_⟩
          · rw [List.dropLast_cons_of_ne_nil (List.cons_ne_nil _ _), hcons]
            rwa [← Nat.add_assoc]
          · rw [List.dropLast_cons_of_ne_nil (List.cons_ne_nil _ _), hcons, hcons]
            omega

/-! ### Runs have results -/

/-- As long as no id was given twice every session has its callbacks. -/
theorem Inv.keepsTimers (h : w.Inv) (hids : w.world.made.length ≤ 2 ^ 31) {ptr : ℕ}
    (hptr : ptr < w.world.made.length) : w.timers.KeepsTimers ptr := by
  have hreg (i : ℕ) (hi : i < w.timers.size) : w.timers.Registered i := by
    refine (h.timers.registered i hi).mpr fun j hj hij heq => ?_
    rw [h.size] at hi hj
    have hmod := congrArg UInt32.toNat heq
    rw [UInt32.toNat_ofNat', UInt32.toNat_ofNat'] at hmod
    omega
  have hlt : 2 * ptr + 1 < w.timers.size := by
    rw [h.size]
    omega
  exact (h.timers.keepsTimers_iff hlt).mpr ⟨hreg _ (by omega), hreg _ hlt⟩

/-- A session that has its callbacks can be visited. -/
theorem Inv.exists_update (h : w.Inv) {ptr : ℕ} (hptr : ptr < w.world.made.length)
    (hkeeps : w.timers.KeepsTimers ptr) (b : Bool) : ∃ t', w.timers.update b ptr = some t' := by
  have hlt : 2 * ptr + 1 < w.timers.size := by
    rw [h.size]
    omega
  obtain ⟨htimer, hheart⟩ := h.timers.told_of_keepsTimers hlt hkeeps
  have hheartBeat (t : Timers) (hinv : t.Inv) (hsize : t.size = w.timers.size)
      (halloc : t.aData.allocation = w.timers.aData.allocation)
      (hsession : t.session ptr = w.timers.session ptr) : ∃ t', t.updateHeartBeat ptr = some t' := by
    obtain ⟨dirty, iv, current, hslot⟩ := hinv.slot (2 * ptr + 1) (hsize ▸ hlt)
    have hderef : t.deref ⟨w.timers.aData.allocation, 2 * ptr + 1⟩ = _ :=
      Timers.deref_eq_some_iff.mpr ⟨halloc.symm, hslot⟩
    rw [Timers.updateHeartBeat, hsession, hheart]
    dsimp only
    rw [hderef, Option.bind_eq_bind, Option.bind_some]
    split
    · exact ⟨_, rfl⟩
    · exact ⟨_, rfl⟩
  obtain ⟨dirty, iv, current, hslot⟩ := h.timers.slot (2 * ptr) (by omega)
  have hderef : w.timers.deref ⟨w.timers.aData.allocation, 2 * ptr⟩ = _ :=
    Timers.deref_eq_some_iff.mpr ⟨rfl, hslot⟩
  rw [Timers.update]
  split
  · rw [Timers.updateAlive, htimer]
    dsimp only
    rw [hderef, Option.bind_eq_bind, Option.bind_some]
    split
    · exact ⟨_, rfl⟩
    · have hreset := h.timers.reset ((w.timers.timer_even ptr).trans htimer) hderef
      exact hheartBeat _ (h.timers.runs hreset.toRuns) hreset.size rfl rfl
  · exact ⟨_, rfl⟩

theorem Inv.exists_added (h : w.Inv) (now : ℤ) (added : List UInt32) :
    ∃ w', added.foldlM (TimedWorld.addNewSession now) w = some w' ∧ w'.Inv ∧
      w'.world = added.foldl (fun w id => w.addNewSession now id) w.world := by
  induction added generalizing w with
  | nil => exact ⟨w, rfl, h, rfl⟩
  | cons id added ih =>
      obtain ⟨t', hrun, -⟩ := h.timers.initilize h.size
      have heq : TimedWorld.addNewSession now w id = some ⟨w.world.addNewSession now id, t'⟩ := by
        rw [TimedWorld.addNewSession,
          show (w.world.newSession id).ptr = w.world.made.length from rfl, hrun]
        rfl
      obtain ⟨w', hrest, hinv, hworld⟩ := ih (h.addNewSession heq).1
      refine ⟨w', ?_, hinv, hworld⟩
      rw [List.foldlM_cons, heq]
      exact hrest

theorem Inv.exists_visited (h : w.Inv) (hids : w.world.made.length ≤ 2 ^ 31)
    {order : List (UInt32 × WorldSession)}
    (horder : ∀ itr ∈ order, itr.2.ptr < w.world.made.length) :
    ∃ w', order.foldlM (TimedWorld.updateSession now alive) w = some w' ∧
      w'.world = order.foldl (World.updateSession now alive) w.world := by
  induction order generalizing w with
  | nil => exact ⟨w, rfl, rfl⟩
  | cons itr order ih =>
      have hitr := horder itr List.mem_cons_self
      obtain ⟨t', hupdate⟩ := h.exists_update hitr (h.keepsTimers hids hitr) (alive itr.2)
      have heq : TimedWorld.updateSession now alive w itr
          = some ⟨w.world.updateSession now alive itr, t'⟩ := by
        rw [TimedWorld.updateSession, hupdate]
        rfl
      obtain ⟨hinv, hmade, -⟩ := h.updateSession hitr heq
      obtain ⟨w', hrest, hworld⟩ := ih hinv (hmade ▸ hids)
        (fun e he => hmade ▸ horder e (List.mem_cons_of_mem _ he))
      refine ⟨w', ?_, hworld⟩
      rw [List.foldlM_cons, heq]
      exact hrest

/-- The part of a tick that is about the sessions in the map and the queue. -/
def tickWorld (v : World) (t : Tick) : Option World :=
  v.updateSessions t.now t.added t.order t.alive

theorem foldl_updateSession_made (now : ℤ) (alive : WorldSession → Bool)
    (order : List (UInt32 × WorldSession)) (v : World) :
    (order.foldl (World.updateSession now alive) v).made = v.made := by
  induction order generalizing v with
  | nil => rfl
  | cons itr order ih => rw [List.foldl_cons, ih, World.made_updateSession]

theorem foldl_addNewSession_made (now : ℤ) (added : List UInt32) (v : World) :
    (added.foldl (fun v id => v.addNewSession now id) v).made = v.made ++ added := by
  induction added generalizing v with
  | nil => exact (List.append_nil _).symm
  | cons id added ih =>
      rw [List.foldl_cons, ih, World.addNewSession_eq, (World.login_frame _ _ _).2.1]
      exact List.append_assoc ..

theorem tickWorld_eq_some {v v' : World} (e : tickWorld v t = some v') :
    let v₁ := t.added.foldl (fun v id => v.addNewSession t.now id) v
    t.order.Perm v₁.sessions ∧ t.order.foldl (World.updateSession t.now t.alive) v₁ = v' ∧
      v'.made = v.made ++ t.added := by
  rw [tickWorld, World.updateSessions, World.updateEach] at e
  split at e
  · rename_i hperm
    have hv' := Option.some.inj e
    exact ⟨hperm, hv', by rw [← hv', foldl_updateSession_made, foldl_addNewSession_made]⟩
  · cases e

/-- **Runs have results.**  As long as no id was given twice, no session is left with a pointer to
a slot that moved: a world has every run with its timers that it has without, and the sessions keep
their callbacks. -/
theorem runs_have_results {ticks : List Tick} {v : World} (h : w.Inv)
    (hrun : ticks.foldlM tickWorld w.world = some v) (hids : v.made.length ≤ 2 ^ 31) :
    ∃ w', ticks.foldlM update w = some w' ∧ w'.Inv ∧ w'.world = v ∧
      ∀ ptr < v.made.length, w'.timers.KeepsTimers ptr := by
  induction ticks using List.reverseRecOn generalizing v with
  | nil =>
      obtain rfl := Option.some.inj hrun
      exact ⟨w, rfl, h, rfl, fun ptr hptr => h.keepsTimers hids hptr⟩
  | append_singleton ticks t ih =>
      obtain ⟨u, hu, htick⟩ := Run.foldlM_concat.mp hrun
      obtain ⟨hperm, hfold, hmade⟩ := tickWorld_eq_some htick
      have hu_ids : u.made.length ≤ 2 ^ 31 := by
        rw [hmade, List.length_append] at hids
        omega
      obtain ⟨w₁, hrun₁, hinv₁, hworld₁, -⟩ := ih hu hu_ids
      obtain ⟨w₂, hadded, hinv₂, hworld₂⟩ := hinv₁.exists_added t.now t.added
      rw [hworld₁] at hworld₂
      rw [← hworld₂] at hperm hfold
      have hmade₂ : w₂.world.made = v.made := by
        rw [← hfold, foldl_updateSession_made]
      obtain ⟨w₃, hvisited, hworld₃⟩ := hinv₂.exists_visited (hmade₂ ▸ hids)
        (fun itr hitr => hinv₂.numbered.made itr (hperm.subset hitr))
      have hupdate : w₁.update t = some
          { w₃ with timers := w₃.timers.onUpdate t.diff.toInt32.toInt } := by
        rw [TimedWorld.update, updateSessions, hadded, Option.bind_eq_bind, Option.bind_some,
          if_pos hperm, hvisited]
        rfl
      have hinv := hinv₁.step hupdate
      refine ⟨_, Run.foldlM_concat.mpr ⟨w₁, hrun₁, hupdate⟩, hinv, hworld₃.trans hfold,
        fun ptr hptr => hinv.keepsTimers ?_ ?_⟩
      · exact (hworld₃.trans hfold) ▸ hids
      · exact (hworld₃.trans hfold) ▸ hptr

/-- **Session timers do not drift.**  For a session that is added to a world in the first of some
ticks and stays in it with its callbacks, as many heartbeats are sent as whole intervals passed
before the last tick, and its timers stand at the time that passed, but for whole intervals. -/
theorem timers_do_not_drift (dirty : Bool) (limit maxActive maxQueued : UInt32)
    {pre ticks : List Tick} {w₀ w : TimedWorld} {s : WorldSession}
    (hpre : pre.foldlM update (create dirty limit maxActive maxQueued) = some w₀)
    (hnew : w₀.world.made.length ≤ s.ptr) (hne : ticks ≠ [])
    (hstays : ∀ t ∈ ticks, Stays s t) (hrun : ticks.foldlM update w₀ = some w)
    (hkeeps : w.timers.KeepsTimers s.ptr) :
    (w.timers.session s.ptr).heartBeats = elapsed ticks.dropLast / 6000 ∧
      ∃ timer heartBeatTimer, w.timers.timerOf s.ptr = some timer ∧
        w.timers.heartBeatTimerOf s.ptr = some heartBeatTimer ∧
        timer.members.interval = 50 ∧ heartBeatTimer.members.interval = 6000 ∧
        timer.members.current ≡ elapsed ticks [ZMOD timer.members.interval] ∧
        heartBeatTimer.members.current ≡ elapsed ticks
          [ZMOD heartBeatTimer.members.interval] := by
  have hinv₀ : w₀.Inv := Run.foldlM_invariant TimedWorld.update Inv
    (fun _ _ _ _ hinv e => hinv.step e) (inv_create dirty limit maxActive maxQueued) hpre
  have hkeeping₀ : w₀.Keeping s.ptr 0 0 := fun hptr => absurd hptr (by omega)
  obtain ⟨last, hinv, hptr, hkeeping, hsum⟩ := hinv₀.run hne hkeeping₀ (fun _ => ⟨rfl, rfl⟩)
    (Nat.zero_le _) hstays hrun
  rw [Nat.add_zero, Nat.zero_add] at hkeeping
  obtain ⟨hslot, hslot', hbeats⟩ := hkeeping hptr hkeeps
  obtain ⟨htimer, hheart⟩ := hinv.timers.told_of_keepsTimers (by rw [hinv.size]; omega) hkeeps
  have hcongr (n : ℕ) : ((elapsed ticks.dropLast % n + last : ℕ) : ℤ) ≡ elapsed ticks [ZMOD n] := by
    rw [Int.natCast_modEq_iff, ← hsum]
    exact (Nat.mod_modEq _ n).add_right last
  have htimerOf : w.timers.timerOf s.ptr = some (Timers.running (UInt32.ofNat (2 * s.ptr)) 50
      (elapsed ticks.dropLast % 50 + last)) := by
    rw [Timers.timerOf, htimer]
    exact Timers.deref_eq_some_iff.mpr ⟨rfl, hslot⟩
  have hheartOf : w.timers.heartBeatTimerOf s.ptr = some (Timers.running
      (UInt32.ofNat (2 * s.ptr + 1)) 6000 (elapsed ticks.dropLast % 6000 + last)) := by
    rw [Timers.heartBeatTimerOf, hheart]
    exact Timers.deref_eq_some_iff.mpr ⟨rfl, hslot'⟩
  exact ⟨hbeats, _, _, htimerOf, hheartOf, rfl, rfl, hcongr 50, hcongr 6000⟩

/-- A session that is added in the first of three ticks, another one in the second. -/
def threeTicks : List Tick :=
  [⟨0, [7], [(7, ⟨0, 7⟩)], fun _ => true, 5990⟩,
    ⟨0, [8], [(7, ⟨0, 7⟩), (8, ⟨1, 8⟩)], fun _ => true, 30⟩,
    ⟨0, [], [(8, ⟨1, 8⟩), (7, ⟨0, 7⟩)], fun _ => true, 60⟩]

theorem timers_do_not_drift_threeTicks :
    ∃ w, threeTicks.foldlM update (create true 0 0 0) = some w ∧
      (w.timers.session 0).heartBeats = 1 := by
  have hrun : ((threeTicks.foldlM update (create true 0 0 0)).any fun w =>
      decide (w.timers.KeepsTimers 0)) = true := by decide +kernel
  obtain ⟨w, hw, hkeeps⟩ := (Option.any_eq_true _ _).mp hrun
  have hstays : ∀ t ∈ threeTicks, Stays ⟨0, 7⟩ t := by
    intro t ht
    simp only [threeTicks, List.mem_cons, List.not_mem_nil, or_false] at ht
    rcases ht with rfl | rfl | rfl <;> exact ⟨by decide, rfl, by decide⟩
  have hpre : [].foldlM update (create true 0 0 0) = some (create true 0 0 0) := rfl
  have hnew : (create true 0 0 0).world.made.length ≤ (⟨0, 7⟩ : WorldSession).ptr := Nat.le_refl 0
  exact ⟨w, hw, (timers_do_not_drift true 0 0 0 hpre hnew (List.cons_ne_nil _ _) hstays hw
    (of_decide_eq_true hkeeps)).1⟩

end TimedWorld

end PCGForUnity
