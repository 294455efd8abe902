/-
PCGForUnity/Server/Shutdown.lean

The shutdown countdown of `Server` (`Server.h`, `Server.cpp`): `ShutDownAfter` and
`ShutdownServ` set a timer, and each `_UpdateGameTime` takes the seconds off it that have
passed since the last.  On a server in state `NORMAL`

    the countdown of a call keeps its law over a run of ticks   ↔   Call.Exact

for each of the two calls (`countsDown_iff`).

The timer is a number of seconds for `_UpdateGameTime` and for `ShutdownServ`, but
`ShutDownAfter` adds the uptime of the server to it.  And when the timer is over, the state is
set before the mask is asked whether the server has to be idle for it.

Design.  The law says of each tick how much is left and whether the server stops, from the time
the call was given and the ticks so far; it does not look at the timer.  The timer is a
`uint32`, as in the code, so what is left never goes below zero.
-/
import Mathlib.Data.List.Induction
import Mathlib.Algebra.BigOperators.Group.List.Basic
import Mathlib.Algebra.Order.Ring.Nat

namespace PCGForUnity

/-- `ServerState`. -/
inductive ServerState
  | normal
  | shutdown
  | delayedShutdown
deriving DecidableEq, Repr

/-- `SHUTDOWN_MASK_IDLE`. -/
def shutdownMaskIdle : UInt32 := 2

/-- The members of `Server`. -/
structure Server where
  state : ServerState
  exitCode : UInt8
  shutdownTimer : UInt32
  shutdownMask : UInt32
deriving DecidableEq, Repr

/-- What `_UpdateGameTime` reads: the seconds that the game time has moved on by, in the
`uint32` it takes them for, and `GetActiveAndQueuedSessionCount`. -/
structure ServerTick where
  elapsed : UInt32
  sessionCount : UInt32
deriving DecidableEq, Repr

namespace Server

/-! ### The countdown as coded -/

/-- The constructor. -/
def create : Server :=
  { state := .normal, exitCode := 0, shutdownTimer := 0, shutdownMask := 0 }

/-- `IsStopped` -/
def isStopped (s : Server) : Bool := s.state = .shutdown

/-- `ShutDownAfter`, at the game time `gameMSTime` (`GetGameTimeMS`). -/
def shutDownAfter (s : Server) (gameMSTime seconds : UInt32) : Server :=
  { s with shutdownTimer := gameMSTime / 1000 + seconds }

/-- `ShutdownServ`, with whether it calls `OnServerShutDown` of the world. -/
def shutdownServ (s : Server) (time options : UInt32) (exitcode : UInt8) : Server × Bool :=
  if s.isStopped then (s, false)
  else
    let s := { s with shutdownMask := options, exitCode := exitcode }
    if time = 0 then (s, true)
    else ({ s with shutdownTimer := time }, false)

/-- `_UpdateGameTime`. -/
def updateGameTime (s : Server) (t : ServerTick) : Server :=
  if !s.isStopped && s.shutdownTimer > 0 && t.elapsed > 0 then
    if s.shutdownTimer ≤ t.elapsed then
      let s := { s with state := .delayedShutdown }
      if s.shutdownMask &&& shutdownMaskIdle = 0 ∨ t.sessionCount = 0 then
        { s with state := .delayedShutdown }
      else { s with shutdownTimer := 1 }
    else { s with shutdownTimer := s.shutdownTimer - t.elapsed }
  else s

/-! ### Runs of the countdown -/

variable {s : Server} {t : ServerTick} {ticks pre : List ServerTick} {n : ℕ} {mask : UInt32}

/-- The seconds that have passed over some ticks. -/
def seconds (ticks : List ServerTick) : ℕ := (ticks.map fun t => t.elapsed.toNat).sum

@[simp] theorem seconds_nil : seconds [] = 0 := rfl

@[simp] theorem seconds_cons (t : ServerTick) (ticks : List ServerTick) :
    seconds (t :: ticks) = t.elapsed.toNat + seconds ticks := by
  simp [seconds]

@[simp] theorem seconds_append (l₁ l₂ : List ServerTick) :
    seconds (l₁ ++ l₂) = seconds l₁ + seconds l₂ := by
  simp [seconds]

/-- No tick ends the delayed shutdown. -/
theorem updateGameTime_delayed (h : s.state = .delayedShutdown) (t : ServerTick) :
    (s.updateGameTime t).state = .delayedShutdown := by
  unfold updateGameTime
  split
  · split
    · dsimp only
      split <;> rfl
    · exact h
  · exact h

theorem foldl_delayed (h : s.state = .delayedShutdown) (ticks : List ServerTick) :
    (ticks.foldl updateGameTime s).state = .delayedShutdown := by
  induction ticks generalizing s with
  | nil => exact h
  | cons t ticks ih => exact ih (updateGameTime_delayed h t)

/-- A tick that the timer outlasts. -/
theorem updateGameTime_running (h : s.state = .normal)
    (hlt : s.shutdownTimer = 0 ∨ t.elapsed.toNat < s.shutdownTimer.toNat) :
    (s.updateGameTime t).state = .normal
      ∧ (s.updateGameTime t).shutdownTimer.toNat = s.shutdownTimer.toNat - t.elapsed.toNat := by
  unfold updateGameTime
  split
  · rename_i hon
    simp only [Bool.and_eq_true, decide_eq_true_eq] at hon
    have hne : s.shutdownTimer ≠ 0 := fun e => by simp [e] at hon
    have hlt := hlt.resolve_left hne
    rw [if_neg (by rw [UInt32.le_iff_toNat_le]; omega)]
    refine ⟨h, UInt32.toNat_sub_of_le _ _ ?_⟩
    rw [UInt32.le_iff_toNat_le]
    omega
  · rename_i hoff
    refine ⟨h, ?_⟩
    simp only [isStopped, h, Bool.and_eq_true, decide_eq_true_eq, UInt32.lt_iff_toNat_lt] at hoff
    rcases hlt with h0 | hlt
    · simp [h0]
    · have : ¬ 0 < t.elapsed.toNat := fun hpos => hoff ⟨⟨by simp, by simp; omega⟩, hpos⟩
      omega

/-- A tick at which the timer is over: the state is set whatever the mask says. -/
theorem updateGameTime_overdue (h : s.state = .normal) (hpos : s.shutdownTimer ≠ 0)
    (hle : s.shutdownTimer.toNat ≤ t.elapsed.toNat) :
    (s.updateGameTime t).state = .delayedShutdown := by
  have htimer : 0 < s.shutdownTimer.toNat :=
    Nat.pos_of_ne_zero fun e => hpos (UInt32.toNat_inj.mp e)
  unfold updateGameTime
  rw [if_pos, if_pos (UInt32.le_iff_toNat_le.mpr hle)]
  · dsimp only
    split <;> rfl
  · simp only [isStopped, h, Bool.and_eq_true, decide_eq_true_eq, UInt32.lt_iff_toNat_lt]
    exact ⟨⟨by simp, htimer⟩, show 0 < t.elapsed.toNat by omega⟩

/-- The state after some ticks: delayed shutdown once the timer's seconds are over. -/
theorem foldl_state (h : s.state = .normal) (ticks : List ServerTick) :
    (ticks.foldl updateGameTime s).state
      = if s.shutdownTimer ≠ 0 ∧ s.shutdownTimer.toNat ≤ seconds ticks then .delayedShutdown
        else .normal := by
  induction ticks generalizing s with
  | nil =>
      rw [if_neg]
      · exact h
      · rintro ⟨hne, hle⟩
        exact hne (UInt32.toNat_inj.mp (Nat.le_zero.mp hle))
  | cons t ticks ih =>
      rw [List.foldl_cons]
      by_cases hover : s.shutdownTimer ≠ 0 ∧ s.shutdownTimer.toNat ≤ t.elapsed.toNat
      · rw [foldl_delayed (updateGameTime_overdue h hover.1 hover.2) ticks, if_pos]
        exact ⟨hover.1, by rw [seconds_cons]; omega⟩
      · have hlt : s.shutdownTimer = 0 ∨ t.elapsed.toNat < s.shutdownTimer.toNat := by
          by_cases h0 : s.shutdownTimer = 0
          · exact Or.inl h0
          · exact Or.inr (Nat.lt_of_not_le fun hle => hover ⟨h0, hle⟩)
        obtain ⟨hstate, htimer⟩ := updateGameTime_running h hlt
        rw [ih hstate]
        refine if_congr ?_ rfl rfl
        rw [seconds_cons, htimer, ne_eq, ne_eq, ← UInt32.toNat_inj, ← UInt32.toNat_inj, htimer]
        rcases hlt with h0 | hlt
        · simp [h0]
        · show _ ≠ 0 ∧ _ ↔ _ ≠ 0 ∧ _
          omega

/-! ### The law of the countdown -/

/-- A tick with time in it, at which `n` seconds are over since the call and the server
is idle if the mask asks for it, has been among `ticks`. -/
def Due (n : ℕ) (mask : UInt32) (ticks : List ServerTick) : Prop :=
  ∃ pre t, pre ++ [t] <+: ticks ∧ 0 < t.elapsed ∧ n ≤ seconds pre + t.elapsed.toNat
    ∧ (mask &&& shutdownMaskIdle = 0 ∨ t.sessionCount = 0)

/-- The state is `DELAYED_SHUTDOWN` from the first such tick on, and `NORMAL` before. -/
def CountsDown (s : Server) (n : ℕ) (mask : UInt32) (ticks : List ServerTick) : Prop :=
  ∀ pre, pre <+: ticks →
    (Due n mask pre → (pre.foldl updateGameTime s).state = .delayedShutdown)
      ∧ (¬ Due n mask pre → (pre.foldl updateGameTime s).state = .normal)

theorem Due.le_seconds (h : Due n mask ticks) : n ≤ seconds ticks := by
  obtain ⟨pre, t, ⟨post, rfl⟩, -, hn, -⟩ := h
  simp only [seconds_append, seconds_cons]
  omega

/-- The tick at which the sum reaches `n`. -/
theorem exists_reaching (hpos : 0 < n) (h : n ≤ seconds ticks) :
    ∃ pre t, pre ++ [t] <+: ticks ∧ seconds pre < n ∧ n ≤ seconds pre + t.elapsed.toNat := by
  induction ticks using List.reverseRecOn with
  | nil => exact absurd h (Nat.not_le.mpr hpos)
  | append_singleton ticks t ih =>
      by_cases hle : n ≤ seconds ticks
      · obtain ⟨pre, t', hpre, hrest⟩ := ih hle
        exact ⟨pre, t', hpre.trans (List.prefix_append ticks [t]), hrest⟩
      · refine ⟨ticks, t, List.prefix_rfl, Nat.lt_of_not_le hle, ?_⟩
        simpa using h

/-- The law, in terms of the value that the timer was set to. -/
theorem countsDown_iff_seconds (h : s.state = .normal) :
    CountsDown s n mask ticks ↔
      ∀ pre, pre <+: ticks →
        (Due n mask pre ↔ s.shutdownTimer ≠ 0 ∧ s.shutdownTimer.toNat ≤ seconds pre) := by
  refine forall_congr' fun pre => imp_congr_right fun _ => ?_
  rw [foldl_state h]
  by_cases hover : s.shutdownTimer ≠ 0 ∧ s.shutdownTimer.toNat ≤ seconds pre
  · rw [if_pos hover]
    simp [hover]
  · rw [if_neg hover]
    simp [hover]

/-- Without `SHUTDOWN_MASK_IDLE` the seconds alone decide. -/
theorem due_iff_of_not_idle (hpos : 0 < n) (hmask : mask &&& shutdownMaskIdle = 0) :
    Due n mask ticks ↔ n ≤ seconds ticks := by
  refine ⟨Due.le_seconds, fun h => ?_⟩
  obtain ⟨pre, t, hpre, hlt, hle⟩ := exists_reaching hpos h
  refine ⟨pre, t, hpre, ?_, hle, Or.inl hmask⟩
  rw [UInt32.lt_iff_toNat_lt]
  show 0 < t.elapsed.toNat
  omega

/-- With any mask they do as long as the server is idle at the tick that reaches `n`. -/
theorem due_iff_seconds_iff (mask : UInt32) (hpos : 0 < n) :
    (∀ pre, pre <+: ticks → (Due n mask pre ↔ n ≤ seconds pre)) ↔
      ∀ pre t, pre ++ [t] <+: ticks → seconds pre < n → n ≤ seconds pre + t.elapsed.toNat →
        mask &&& shutdownMaskIdle = 0 ∨ t.sessionCount = 0 := by
  constructor
  · intro h pre t hpre hlt hle
    have hdue := (h (pre ++ [t]) hpre).mpr (by simpa using hle)
    obtain ⟨pre', t', hpre', -, hle', hidle⟩ := hdue
    -- a tick before the last has not reached `n`
    rcases List.prefix_concat_iff.mp hpre' with hlast | hbefore
    · obtain ⟨rfl, ht⟩ := List.append_inj' hlast rfl
      obtain rfl : t' = t := List.singleton_inj.mp ht
      exact hidle
    · obtain ⟨post, rfl⟩ := hbefore
      simp only [seconds_append, seconds_cons] at hlt
      omega
  · intro h pre hpre
    refine ⟨Due.le_seconds, fun hle => ?_⟩
    obtain ⟨pre', t, hpre', hlt, hreach⟩ := exists_reaching hpos hle
    refine ⟨pre', t, hpre', ?_, hreach, h pre' t (hpre'.trans hpre) hlt hreach⟩
    rw [UInt32.lt_iff_toNat_lt]
    show 0 < t.elapsed.toNat
    omega

/-! ### The two calls -/

/-- A call that starts the countdown; `ShutDownAfter` is called at some game time. -/
inductive Call
  | shutDownAfter (gameMSTime seconds : UInt32)
  | shutdownServ (time options : UInt32) (exitcode : UInt8)
deriving DecidableEq, Repr

/-- The seconds that a call asks for. -/
def Call.time : Call → UInt32
  | .shutDownAfter _ seconds => seconds
  | .shutdownServ time _ _ => time

/-- The mask that a call sets or, for `ShutDownAfter`, finds. -/
def Call.options : Call → UInt32
  | .shutDownAfter _ _ => 0
  | .shutdownServ _ options _ => options

/-- A call. -/
def call (s : Server) : Call → Server
  | .shutDownAfter gameMSTime seconds => s.shutDownAfter gameMSTime seconds
  | .shutdownServ time options exitcode => (s.shutdownServ time options exitcode).1

/-- When a countdown keeps the law.  After `ShutDownAfter`, if no sum of the elapsed
seconds lies on one side of `n` and on the other of the timer, which is the uptime more;
after `ShutdownServ`, if the server is idle at the tick that reaches `n`, or need not be. -/
def Call.Exact (ticks : List ServerTick) : Call → Prop
  | .shutDownAfter gameMSTime n =>
      ∀ pre, pre <+: ticks →
        (n.toNat ≤ seconds pre
          ↔ gameMSTime / 1000 + n ≠ 0 ∧ (gameMSTime / 1000 + n).toNat ≤ seconds pre)
  | .shutdownServ n options _ =>
      ∀ pre t, pre ++ [t] <+: ticks → seconds pre < n.toNat →
        n.toNat ≤ seconds pre + t.elapsed.toNat →
        options &&& shutdownMaskIdle = 0 ∨ t.sessionCount = 0

/-- **Exactness of the countdown.**  On a server in state `NORMAL` the countdown of a
call keeps its law over a run of ticks exactly under `Call.Exact`. -/
theorem countsDown_iff (c : Call) (h : s.state = .normal) (hpos : c.time ≠ 0) :
    CountsDown (s.call c) c.time.toNat c.options ticks ↔ c.Exact ticks := by
  have hn : 0 < c.time.toNat := Nat.pos_of_ne_zero fun e => hpos (UInt32.toNat_inj.mp e)
  cases c with
  | shutDownAfter gameMSTime n =>
      rw [countsDown_iff_seconds (by exact h)]
      refine forall_congr' fun pre => imp_congr_right fun _ => ?_
      have hdue : Due n.toNat 0 pre ↔ n.toNat ≤ seconds pre := due_iff_of_not_idle hn (by decide)
      exact iff_congr hdue Iff.rfl
  | shutdownServ n options exitcode =>
      have hcall : s.call (.shutdownServ n options exitcode)
          = { s with shutdownMask := options, exitCode := exitcode, shutdownTimer := n } := by
        have hn : n ≠ 0 := hpos
        simp [call, shutdownServ, isStopped, h, hn]
      rw [hcall, countsDown_iff_seconds (by exact h)]
      refine Iff.trans ?_ (due_iff_seconds_iff options hn)
      refine forall_congr' fun pre => imp_congr_right fun _ => iff_congr Iff.rfl ?_
      exact and_iff_right hpos

/-- Before the first second of the server is over the sums are never apart. -/
theorem Call.exact_of_uptime {gameMSTime n : UInt32} (h : gameMSTime < 1000) (hn : n ≠ 0)
    (ticks : List ServerTick) : (Call.shutDownAfter gameMSTime n).Exact ticks := by
  have huptime : gameMSTime / 1000 = 0 := by
    apply UInt32.toNat_inj.mp
    rw [UInt32.toNat_div]
    exact Nat.div_eq_of_lt (UInt32.lt_iff_toNat_lt.mp h)
  intro pre _
  rw [huptime, UInt32.zero_add]
  exact (and_iff_right hn).symm

/-- Two seconds asked for with `SHUTDOWN_MASK_IDLE`, and the players have left when they
are over. -/
theorem countsDown_iff_of_idle :
    CountsDown (create.call (.shutdownServ 2 shutdownMaskIdle 0)) 2 shutdownMaskIdle
      [{ elapsed := 1, sessionCount := 5 }, { elapsed := 3, sessionCount := 0 }] := by
  refine (countsDown_iff (.shutdownServ 2 shutdownMaskIdle 0) rfl (by decide)).mpr ?_
  intro pre t hpre hlt hle
  rcases pre with - | ⟨t₁, - | ⟨t₂, pre⟩⟩
  · obtain rfl := (List.cons_prefix_cons.mp hpre).1
    exact absurd hle (by decide)
  · obtain rfl := (List.cons_prefix_cons.mp (List.cons_prefix_cons.mp hpre).2).1
    exact Or.inr rfl
  · exact absurd hpre.length_le (by simp)

/-- Six seconds asked for when the server is up for ten: after eight it still runs.  And
two with `SHUTDOWN_MASK_IDLE`: it stops with five players on. -/
theorem counts_uptime_and_players :
    ¬ CountsDown (create.call (.shutDownAfter 10000 6)) 6 0
        [{ elapsed := 8, sessionCount := 0 }]
      ∧ ¬ CountsDown (create.call (.shutdownServ 2 shutdownMaskIdle 0)) 2 shutdownMaskIdle
        [{ elapsed := 2, sessionCount := 5 }] := by
  constructor
  · intro h
    have hdue : Due 6 0 [{ elapsed := 8, sessionCount := 0 }] :=
      ⟨[], _, List.prefix_rfl, by decide, by decide, Or.inr rfl⟩
    exact absurd ((h _ List.prefix_rfl).1 hdue) (by decide)
  · intro h
    refine absurd ((h _ List.prefix_rfl).2 ?_) (by decide)
    rintro ⟨pre, t, hpre, -, -, hidle⟩
    have hlen := hpre.length_le
    rcases pre with - | ⟨t', pre⟩
    · obtain rfl := (List.cons_prefix_cons.mp hpre).1
      exact absurd hidle (by decide)
    · simp at hlen

end Server

end PCGForUnity
