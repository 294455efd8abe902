/-
PCGForUnity/Network/Kcp/Schedule.lean

`ikcp_check` says when to call `ikcp_update` again.  A program that calls it only then puts
out the same datagrams as one that calls it all the time, as long as nothing is sent or
read in between (`scheduled_eq_updates`): what the calls before that time change is
`current` alone.

* `update_before_check`: before the time that `ikcp_check` says, an update sets `current`
  and does nothing else;
* `check_cases`: the time it says is now, or it is ahead by no more than the next flush is.

Design.  Times are 32-bit numbers that wrap, so the times of a run go `Forward`, each by less
than a quarter of the range.  `updates` is the program that calls all the time and
`scheduled` the one that skips the times before the one it was told; they are compared by
induction on the times, with blocks that are equal but for `current`.  `ikcp_check` does not
read `current`, so the next time it says is the same for both.
-/
import Mathlib.Data.List.Chain
import PCGForUnity.Network.Kcp.Output

namespace PCGForUnity

namespace IKCPCB

/-- `ikcp_update` at each of the times, with all the datagrams put out. -/
def updates (long : LongWidth) (kcp : IKCPCB) : List UInt32 → IKCPCB × List (List Byte)
  | [] => (kcp, [])
  | now :: times =>
      let r := kcp.update long now
      let rest := r.1.updates long times
      (rest.1, r.2 ++ rest.2)

/-- `ikcp_update` at those of the times that have reached what `ikcp_check` said last. -/
def scheduled (long : LongWidth) (kcp : IKCPCB) (next : UInt32) :
    List UInt32 → IKCPCB × List (List Byte)
  | [] => (kcp, [])
  | now :: times =>
      if itimediff long now next ≥ 0 then
        let r := kcp.update long now
        let rest := r.1.scheduled long (r.1.check long now) times
        (rest.1, r.2 ++ rest.2)
      else kcp.scheduled long next times

/-- Time goes on, less than 12 days at once. -/
def Forward (before after : UInt32) : Prop := (after - before).toNat < 2 ^ 30

variable {kcp : IKCPCB} {now before : UInt32}

/-- Every time that the loop of `ikcp_check` finds is ahead. -/
theorem nextResend_pos (segs : List SndSeg) {tmPacket t : Int32} (hpos : 0 < tmPacket)
    (h : nextResend .bits32 before segs tmPacket = some t) : 0 < t := by
  induction segs generalizing tmPacket with
  | nil =>
      obtain rfl := Option.some.inj h
      exact hpos
  | cons seg segs ih =>
      rw [nextResend] at h
      split at h
      · cases h
      · rename_i hdiff
        refine ih ?_ h
        split
        · exact Int32.not_le.mp hdiff
        · exact hpos

/-- What `ikcp_check` says is now, or a time on the way to `ts_flush`, which is less than 10
seconds away. -/
theorem check_cases (hupdated : kcp.updated ≠ 0) (before : UInt32) :
    kcp.check .bits32 before = before ∨
      (kcp.tsFlush - before).toNat ≤ 10000 ∧
        ∃ m : UInt32, m.toNat ≤ (kcp.tsFlush - before).toNat ∧
          kcp.check .bits32 before = before + m := by
  rw [check, if_neg hupdated]
  dsimp only
  have hself : itimediff .bits32 before before ≥ 0 := by
    show Serial.signed (before - before) ≥ 0
    rw [UInt32.sub_self]
    decide
  by_cases hfar : itimediff .bits32 before kcp.tsFlush ≥ 10000 ∨
      itimediff .bits32 before kcp.tsFlush < -10000
  · rw [if_pos hfar, if_pos hself]
    exact Or.inl rfl
  rw [if_neg hfar]
  by_cases hreached : itimediff .bits32 before kcp.tsFlush ≥ 0
  · rw [if_pos hreached]
    exact Or.inl rfl
  rw [if_neg hreached]
  rw [not_or] at hfar
  -- the distance to `ts_flush`
  have hdist := Serial.signed_eq (before - kcp.tsFlush)
  have hback := Serial.signed_eq (kcp.tsFlush - before)
  have hnear : (kcp.tsFlush - before).toNat ≤ 10000 ∧
      itimediff .bits32 kcp.tsFlush before = (kcp.tsFlush - before).toNat := by
    rw [itimediff] at hfar hreached ⊢
    have hsum : (kcp.tsFlush - before).toNat = (2 ^ 32 - (before - kcp.tsFlush).toNat) % 2 ^ 32 := by
      simp only [UInt32.toNat_sub]
      have := before.toNat_lt
      have := kcp.tsFlush.toNat_lt
      omega
    have := (before - kcp.tsFlush).toNat_lt
    split at hdist <;> split at hback <;> omega
  rcases hsegs : nextResend .bits32 before kcp.sndBuf 0x7fffffff with - | tmPacket
  · exact Or.inl rfl
  have hpos := nextResend_pos kcp.sndBuf (by decide) hsegs
  refine Or.inr ⟨hnear.1, _, ?_, rfl⟩
  -- the least of the three is at most that distance
  set tmFlush := Int32.ofInt (itimediff .bits32 kcp.tsFlush before) with htmFlush
  have htoInt : tmFlush.toInt = (kcp.tsFlush - before).toNat := by
    rw [htmFlush, hnear.2, Int32.toInt_ofInt_of_le]
    · have := hnear.1
      omega
    · have := hnear.1
      omega
  have hleast : ((if tmPacket < tmFlush then tmPacket else tmFlush).toUInt32).toNat
      ≤ (kcp.tsFlush - before).toNat := by
    rw [Int32.lt_iff_toInt_lt] at hpos
    have hzero : (0 : Int32).toInt = 0 := rfl
    split
    · rename_i hlt
      rw [Int32.lt_iff_toInt_lt] at hlt
      have hnat := Serial.toNat_toUInt32 (x := tmPacket) (by omega)
      omega
    · have hnat := Serial.toNat_toUInt32 (x := tmFlush) (by omega)
      omega
  generalize (if tmPacket < tmFlush then tmPacket else tmFlush).toUInt32 = minimal at hleast ⊢
  split
  · rename_i hge
    exact (UInt32.le_iff_toNat_le.mp hge).trans hleast
  · exact hleast

/-- Before that time `ts_flush` is not reached. -/
theorem lt_of_before_check (hupdated : kcp.updated ≠ 0) (hfar : (now - before).toNat < 2 ^ 31)
    (hnext : itimediff .bits32 now (kcp.check .bits32 before) < 0) :
    (now - before).toNat < (kcp.tsFlush - before).toNat ∧
      (kcp.tsFlush - before).toNat ≤ 10000 := by
  rcases check_cases hupdated before with hcheck | ⟨hnear, m, hm, hcheck⟩
  · rw [hcheck, itimediff, Serial.signed_eq, if_pos hfar] at hnext
    omega
  · rw [hcheck, itimediff, Serial.sub_add_eq, Serial.signed_eq, UInt32.toNat_sub] at hnext
    have := m.toNat_lt
    split at hnext <;> omega

/-- **Before the time that `ikcp_check` says an update does nothing** but set `current`. -/
theorem update_before_check (hupdated : kcp.updated ≠ 0) (hfar : (now - before).toNat < 2 ^ 31)
    (hnext : itimediff .bits32 now (kcp.check .bits32 before) < 0) :
    kcp.update .bits32 now = ({ kcp with current := now }, []) := by
  obtain ⟨hlt, hnear⟩ := lt_of_before_check hupdated hfar hnext
  have hslap : ((now - kcp.tsFlush).toInt32).toInt
      = ((now - before).toNat : ℤ) - (kcp.tsFlush - before).toNat := by
    have hsigned := Serial.signed_eq (now - kcp.tsFlush)
    rw [← Serial.sub_sub_sub now kcp.tsFlush before, UInt32.toNat_sub] at hsigned
    rw [← Serial.sub_sub_sub now kcp.tsFlush before]
    rw [Serial.signed] at hsigned
    split at hsigned <;> omega
  have hzero : (0 : Int32).toInt = 0 := rfl
  have hten : (10000 : Int32).toInt = 10000 := rfl
  have hminus : (-10000 : Int32).toInt = -10000 := rfl
  have hstays : kcp.slap .bits32 now = (kcp.tsFlush, (now - kcp.tsFlush).toInt32) := by
    have hnot : ¬ ((now - kcp.tsFlush).toInt32 ≥ 10000 ∨ (now - kcp.tsFlush).toInt32 < -10000) := by
      rw [not_or, ge_iff_le, Int32.le_iff_toInt_le, Int32.lt_iff_toInt_lt]
      omega
    simp only [slap, if_neg hupdated, ofInt_itimediff, if_neg hnot]
  have hnone : ¬ (now - kcp.tsFlush).toInt32 ≥ 0 := by
    rw [ge_iff_le, Int32.le_iff_toInt_le]
    omega
  rw [update, hstays, if_neg hupdated]
  dsimp only
  rw [if_neg hnone]

/-- The time of the last call does not matter for an update. -/
theorem update_current (long : LongWidth) (kcp : IKCPCB) (last now : UInt32) :
    update long { kcp with current := last } now = kcp.update long now := rfl

theorem with_current (h : kcp.current = now) : { kcp with current := now } = kcp := by
  rw [← h]

/-- After an update there has been one, at that time. -/
theorem updated_update (long : LongWidth) (kcp : IKCPCB) (now : UInt32) :
    (kcp.update long now).1.updated ≠ 0 ∧ (kcp.update long now).1.current = now := by
  have hupdated : (if kcp.updated = 0 then (1 : UInt32) else kcp.updated) ≠ 0 := by
    split
    · decide
    · assumption
  have hflush (k : IKCPCB) : (k.flush long).1.updated = k.updated ∧
      (k.flush long).1.current = k.current :=
    ⟨congrArg Settings.updated (settings_flush long k), congrArg Settings.current (settings_flush long k)⟩
  rw [update]
  split
  · rw [(hflush _).1, (hflush _).2]
    exact ⟨hupdated, rfl⟩
  · exact ⟨hupdated, rfl⟩

/-- The two programs from an update at `start` on: the one has called it in between, last at
`last`. -/
theorem updates_eq {times : List UInt32} (hupdated : kcp.updated ≠ 0) {start last : UInt32}
    (hlast : (last - start).toNat ≤ 10000) (htimes : (last :: times).IsChain Forward) :
    ∃ current, updates .bits32 { kcp with current := last } times
      = ({ (kcp.scheduled .bits32 (kcp.check .bits32 start) times).1 with current },
          (kcp.scheduled .bits32 (kcp.check .bits32 start) times).2) := by
  induction times generalizing kcp start last with
  | nil => exact ⟨last, rfl⟩
  | cons now times ih =>
      obtain ⟨hforward, hrest⟩ := List.isChain_cons_cons.mp htimes
      have hfar : (now - start).toNat = (now - last).toNat + (last - start).toNat := by
        rw [Forward] at hforward
        simp only [UInt32.toNat_sub] at hforward hlast ⊢
        have := now.toNat_lt
        have := last.toNat_lt
        have := start.toNat_lt
        omega
      rw [Forward] at hforward
      rw [updates, scheduled, update_current]
      by_cases hreached : itimediff .bits32 now (kcp.check .bits32 start) ≥ 0
      · -- both call it
        obtain ⟨hupdated', hcurrent⟩ := updated_update .bits32 kcp now
        obtain ⟨current, heq⟩ := @ih (kcp.update .bits32 now).1 hupdated' now _
          (by rw [UInt32.sub_self]; exact Nat.zero_le _) hrest
        rw [if_pos hreached]
        rw [with_current hcurrent] at heq
        exact ⟨current, by rw [heq]⟩
      · have hbefore := Int.not_le.mp hreached
        have hnear := @lt_of_before_check _ now _ hupdated (by omega) hbefore
        obtain ⟨current, heq⟩ := @ih _ hupdated start now (by omega) hrest
        rw [if_neg hreached, @update_before_check _ now _ hupdated (by omega) hbefore]
        exact ⟨current, heq⟩

/-- **Calling `ikcp_update` when `ikcp_check` says is as good as calling it all the time**, from
an update on: the same datagrams are put out, and the control blocks differ in `current` alone. -/
theorem scheduled_eq_updates (kcp : IKCPCB) (start : UInt32) {times : List UInt32}
    (htimes : (start :: times).IsChain Forward) :
    let k := (kcp.update .bits32 start).1
    (k.scheduled .bits32 (k.check .bits32 start) times).2 = (k.updates .bits32 times).2 ∧
      ∃ current, (k.updates .bits32 times).1
        = { (k.scheduled .bits32 (k.check .bits32 start) times).1 with current } := by
  intro k
  obtain ⟨hupdated, hcurrent⟩ := updated_update .bits32 kcp start
  obtain ⟨current, heq⟩ := @updates_eq k _ hupdated start start
    (by rw [UInt32.sub_self]; exact Nat.zero_le _) htimes
  rw [with_current hcurrent] at heq
  rw [heq]
  exact ⟨rfl, current, rfl⟩

theorem scheduled_eq_updates_resend :
    let k := ((((create 1).setNodelay 1 10 2 1).send [7, 8]).1.update .bits32 0).1
    let times : List UInt32 := [1, 5, 9, 10, 15, 21, 40, 400]
    (k.scheduled .bits32 (k.check .bits32 0) times).2 = (k.updates .bits32 times).2 ∧
      (k.updates .bits32 times).2.length = 1 := by
  refine ⟨(scheduled_eq_updates (((create 1).setNodelay 1 10 2 1).send [7, 8]).1 0 ?_).1, ?_⟩
  · simp only [List.isChain_cons_cons, List.isChain_singleton, Forward]
    decide
  · decide +kernel

end IKCPCB

end PCGForUnity
