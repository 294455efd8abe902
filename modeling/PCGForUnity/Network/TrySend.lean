/-
PCGForUnity/Network/TrySend.lean

`SocketTrySend`: a blocking send of a whole buffer over a socket that takes as much of it as it
likes.  A call reports truly

    ↔  the counts of send do not sum to half of the buffer or more without being all of it

(`reports_truly_iff`).

The loop keeps a running total in `rt.nbytes` and counts `nbytes` down, and takes the buffer
for sent when the total has reached what is *left* of it.  So the first sum of counts that is
at least half of the buffer ends the call with `nresult = 0`.

Design.  What the system answers is the input of the model: for each pass of the loop the
result of `send`, and the time the call has taken so far.  A call that runs out of answers has
no result.  The bytes that were given to the system are recorded, and a report is true if it is
about them.
-/
import PCGForUnity.Network.MessageBuffer

namespace PCGForUnity

/-- What `send` answers: a count, zero, `ETRYAGAIN` or another error. -/
inductive SendResult
  | sent (n : Nat)
  | zero
  | tryAgain
  | error
deriving DecidableEq, Repr

/-- One pass of the loop: the answer of `send`, and `start.GetSpaninMilliseconds()`
after it. -/
structure SendRound where
  result : SendResult
  span : UInt32
deriving DecidableEq, Repr

/-- The bytes that `send` took in a pass. -/
def SendRound.count (r : SendRound) : Nat :=
  match r.result with
  | .sent n => n
  | _ => 0

/-- `SockError`. -/
structure SockError where
  nbytes : Nat
  nresult : Int
deriving DecidableEq, Repr

/-- The variables of `SocketTrySend`, and the chunks that `send` took. -/
structure TrySend where
  rt : SockError
  nbytes : Nat
  chunks : List (List Byte)
deriving DecidableEq, Repr

namespace TrySend

/-! ### The loop as coded -/

/-- The check at the end of a pass.  The span is unsigned, so the comparison takes the
timeout for unsigned too. -/
def checkSpan (milliseconds : Int32) (span : UInt32) (s : TrySend) : TrySend × Bool :=
  if span > milliseconds.toUInt32 then ({ s with rt.nresult := 1 }, true) else (s, false)

/-- One pass of the loop, with whether it breaks.  `send` takes at most what it was
asked to. -/
def pass (ptr : List Byte) (milliseconds : Int32) (s : TrySend) (r : SendRound) :
    Option (TrySend × Bool) :=
  match r.result with
  | .sent n =>
      if 0 < n ∧ n ≤ s.nbytes then
        let s' : TrySend :=
          { rt := { s.rt with nbytes := s.rt.nbytes + n }
            nbytes := s.nbytes - n
            chunks := s.chunks ++ [(ptr.drop s.rt.nbytes).take n] }
        if s'.rt.nbytes ≥ s'.nbytes then some ({ s' with rt.nresult := 0 }, true)
        else some (checkSpan milliseconds r.span s')
      else none
  | .zero => some ({ s with rt.nresult := -2 }, true)
  | .tryAgain => some (checkSpan milliseconds r.span s)
  | .error => some ({ s with rt.nresult := -1 }, true)

/-- The loop over the passes of one call: the last one breaks, and no earlier one. -/
def loop (ptr : List Byte) (milliseconds : Int32) : TrySend → List SendRound → Option TrySend
  | _, [] => none
  | s, r :: rounds =>
      match pass ptr milliseconds s r with
      | none => none
      | some (s', true) => if rounds = [] then some s' else none
      | some (s', false) => loop ptr milliseconds s' rounds

/-- `SocketTrySend`, for a call that the answers `rounds` bring to its end. -/
def socketTrySend (ptr : Option (List Byte)) (nbytes : Nat) (milliseconds : Int32)
    (rounds : List SendRound) : Option TrySend :=
  let s : TrySend := { rt := { nbytes := 0, nresult := 0 }, nbytes := nbytes, chunks := [] }
  match ptr with
  | none => if rounds = [] then some s else none
  | some ptr =>
      if nbytes < 1 then if rounds = [] then some s else none
      else loop ptr milliseconds s rounds

/-! ### What the passes do -/

/-- What the loop keeps: the bytes sent are the first `rt.nbytes` of the buffer, and the
others are left. -/
structure Sound (buf : List Byte) (s : TrySend) : Prop where
  total : s.rt.nbytes + s.nbytes = buf.length
  chunks : s.chunks.flatten = buf.take s.rt.nbytes

variable {buf : List Byte} {milliseconds : Int32} {s s' o : TrySend} {r : SendRound}
  {rounds : List SendRound} {brk : Bool}

theorem checkSpan_rt_nbytes (milliseconds : Int32) (span : UInt32) (s : TrySend) :
    (checkSpan milliseconds span s).1.rt.nbytes = s.rt.nbytes := by
  unfold checkSpan
  split <;> rfl

theorem Sound.checkSpan (h : Sound buf s) (milliseconds : Int32) (span : UInt32) :
    Sound buf (checkSpan milliseconds span s).1 := by
  unfold TrySend.checkSpan
  split
  · exact ⟨h.total, h.chunks⟩
  · exact h

/-- A break in `checkSpan` leaves a result other than 0. -/
theorem checkSpan_result (h : s.rt.nresult = 0) (milliseconds : Int32) (span : UInt32) :
    (checkSpan milliseconds span s).1.rt.nresult = 0
      ↔ (checkSpan milliseconds span s).2 = false := by
  unfold checkSpan
  split <;> simp [h]

/-- A send of `n` of the bytes that are left. -/
theorem Sound.send (h : Sound buf s) {n : Nat} (hn : n ≤ s.nbytes) :
    Sound buf
      { rt := { s.rt with nbytes := s.rt.nbytes + n }
        nbytes := s.nbytes - n
        chunks := s.chunks ++ [(buf.drop s.rt.nbytes).take n] } where
  total := by
    have htotal := h.total
    show s.rt.nbytes + n + (s.nbytes - n) = buf.length
    omega
  chunks := by
    show (s.chunks ++ [(buf.drop s.rt.nbytes).take n]).flatten = buf.take (s.rt.nbytes + n)
    rw [List.flatten_append, h.chunks, List.flatten_singleton, ← List.take_add]

/-- One pass: it keeps `Sound` and adds its count, and when it breaks it reports success
exactly if at least half of the buffer is sent. -/
theorem pass_spec (hs : Sound buf s) (hres : s.rt.nresult = 0)
    (hhalf : 2 * s.rt.nbytes < buf.length)
    (h : pass buf milliseconds s r = some (s', brk)) :
    Sound buf s' ∧ s'.rt.nbytes = s.rt.nbytes + r.count
      ∧ (s'.rt.nresult = 0 ↔ brk = false ∨ buf.length ≤ 2 * s'.rt.nbytes)
      ∧ (brk = false → 2 * s'.rt.nbytes < buf.length) := by
  -- the passes that send nothing and only look at the clock
  have hwait : ∀ {t : TrySend}, Sound buf t → t.rt.nresult = 0 →
      2 * t.rt.nbytes < buf.length → checkSpan milliseconds r.span t = (s', brk) →
      Sound buf s' ∧ s'.rt.nbytes = t.rt.nbytes
        ∧ (s'.rt.nresult = 0 ↔ brk = false ∨ buf.length ≤ 2 * s'.rt.nbytes)
        ∧ (brk = false → 2 * s'.rt.nbytes < buf.length) := by
    intro t ht htres hthalf e
    have hn := checkSpan_rt_nbytes milliseconds r.span t
    have hsound := ht.checkSpan milliseconds r.span
    have hr := checkSpan_result htres milliseconds r.span
    rw [e] at hn hsound hr
    have hn : s'.rt.nbytes = t.rt.nbytes := hn
    refine ⟨hsound, hn, ?_, fun _ => by rw [hn]; exact hthalf⟩
    rw [hr, hn]
    exact ⟨Or.inl, fun hor => hor.resolve_right (by omega)⟩
  obtain ⟨result, span⟩ := r
  cases result with
  | sent n =>
      simp only [pass] at h
      split at h
      · rename_i hn
        have hsend := hs.send hn.2
        split at h
        -- what is sent and what is left add up to the length, so the test is about its half
        · rename_i hdone
          obtain ⟨rfl, rfl⟩ := Prod.mk.inj (Option.some.inj h)
          have htotal := hsend.total
          refine ⟨⟨hsend.total, hsend.chunks⟩, rfl, ?_, fun e => nomatch e⟩
          refine iff_of_true rfl (Or.inr ?_)
          show buf.length ≤ 2 * (s.rt.nbytes + n)
          dsimp only at htotal hdone
          omega
        · rename_i hdone
          have htotal := hsend.total
          refine hwait hsend hres ?_ (Option.some.inj h)
          show 2 * (s.rt.nbytes + n) < buf.length
          dsimp only at htotal hdone
          omega
      · exact nomatch h
  | zero =>
      obtain ⟨rfl, rfl⟩ := Prod.mk.inj (Option.some.inj h)
      refine ⟨⟨hs.total, hs.chunks⟩, rfl, ?_, fun e => nomatch e⟩
      show (-2 : Int) = 0 ↔ _
      simp; omega
  | tryAgain => exact hwait hs hres hhalf (Option.some.inj h)
  | error =>
      obtain ⟨rfl, rfl⟩ := Prod.mk.inj (Option.some.inj h)
      refine ⟨⟨hs.total, hs.chunks⟩, rfl, ?_, fun e => nomatch e⟩
      show (-1 : Int) = 0 ↔ _
      simp; omega

/-- The bytes that some passes send. -/
def sentBy (rounds : List SendRound) : Nat := (rounds.map SendRound.count).sum

theorem sentBy_cons (r : SendRound) (rounds : List SendRound) :
    sentBy (r :: rounds) = r.count + sentBy rounds := by
  simp [sentBy]

/-- The whole loop: it goes on as long as less than half of the buffer is sent. -/
theorem loop_spec (hs : Sound buf s) (hres : s.rt.nresult = 0)
    (hhalf : 2 * s.rt.nbytes < buf.length)
    (h : loop buf milliseconds s rounds = some o) :
    Sound buf o ∧ o.rt.nbytes = s.rt.nbytes + sentBy rounds
      ∧ (o.rt.nresult = 0 ↔ buf.length ≤ 2 * o.rt.nbytes)
      ∧ ∀ pre, pre <+: rounds → pre ≠ rounds → 2 * (s.rt.nbytes + sentBy pre) < buf.length := by
  induction rounds generalizing s with
  | nil => exact nomatch h
  | cons r rounds ih =>
      rw [loop] at h
      rcases hp : pass buf milliseconds s r with - | ⟨s', - | -⟩
      · rw [hp] at h
        exact nomatch h
      · -- another round
        rw [hp] at h
        obtain ⟨hs', hn, hr, hlt⟩ := pass_spec hs hres hhalf hp
        obtain ⟨ho, hon, hor, hpre⟩ := ih hs' (hr.mpr (Or.inl rfl)) (hlt rfl) h
        refine ⟨ho, by rw [hon, hn, sentBy_cons]; omega, hor, ?_⟩
        intro pre hpre' hne
        rcases pre with - | ⟨r', pre⟩
        · exact hhalf
        · obtain ⟨rfl, hpre''⟩ := List.cons_prefix_cons.mp hpre'
          have hlt' := hpre pre hpre'' fun e => hne (by rw [e])
          rw [sentBy_cons, ← Nat.add_assoc, ← hn]
          exact hlt'
      · -- the loop is left, so that this was the last round
        rw [hp] at h
        simp only at h
        split at h
        · rename_i hnil
          obtain rfl := Option.some.inj h
          subst hnil
          obtain ⟨hs', hn, hr, -⟩ := pass_spec hs hres hhalf hp
          refine ⟨hs', by rw [hn, sentBy_cons]; rfl, ?_, ?_⟩
          · rw [hr]
            exact ⟨fun hor => hor.resolve_left (by simp), Or.inr⟩
          · intro pre hpre hne
            rcases pre with - | ⟨r', pre⟩
            · exact hhalf
            · obtain ⟨rfl, hnil⟩ := List.cons_prefix_cons.mp hpre
              exact absurd (by rw [List.prefix_nil.mp hnil]) hne
        · exact nomatch h

/-! ### The report -/

/-- The report of a call: with `nresult = 0` the chunks are the whole buffer, and
`rt.nbytes` is the length of the part that they are in any case. -/
structure ReportsTruly (buf : List Byte) (o : TrySend) : Prop where
  whole : o.rt.nresult = 0 → o.chunks.flatten = buf ∧ o.rt.nbytes = buf.length
  part : o.chunks.flatten <+: buf ∧ o.rt.nbytes = o.chunks.flatten.length

/-- Of a sound end only the success can be untrue. -/
theorem Sound.reportsTruly_iff (h : Sound buf o) :
    ReportsTruly buf o ↔ (o.rt.nresult = 0 → o.rt.nbytes = buf.length) := by
  have htotal := h.total
  constructor
  · intro hr hres
    exact (hr.whole hres).2
  · intro hr
    refine ⟨fun hres => ⟨?_, hr hres⟩, ?_, ?_⟩
    · rw [h.chunks, hr hres, List.take_length]
    · rw [h.chunks]
      exact List.take_prefix _ _
    · rw [h.chunks, List.length_take]
      omega

/-- **Exactness of the report of a send.**  A call reports truly exactly when the
counts of `send` do not sum to half of the buffer or more without being all of it. -/
theorem reports_truly_iff (hbuf : buf ≠ [])
    (h : socketTrySend (some buf) buf.length milliseconds rounds = some o) :
    ReportsTruly buf o
      ↔ ∀ pre, pre <+: rounds → buf.length ≤ 2 * sentBy pre → sentBy pre = buf.length := by
  have hpos : 0 < buf.length := List.length_pos_iff.mpr hbuf
  simp only [socketTrySend, if_neg (Nat.not_lt.mpr hpos)] at h
  have h₀ : Sound buf { rt := { nbytes := 0, nresult := 0 }, nbytes := buf.length, chunks := [] } :=
    ⟨Nat.zero_add _, rfl⟩
  obtain ⟨ho, hn, hr, hlt⟩ := loop_spec h₀ rfl (by show 2 * 0 < buf.length; omega) h
  have hn : o.rt.nbytes = sentBy rounds := by rw [hn]; exact Nat.zero_add _
  rw [ho.reportsTruly_iff, hr, hn]
  constructor
  · intro hwhole pre hpre hhalf
    by_cases e : pre = rounds
    · rw [e] at hhalf ⊢
      exact hwhole hhalf
    · have := hlt pre hpre e
      dsimp only at this
      omega
  · intro hall hhalf
    exact hall rounds List.prefix_rfl hhalf

/-- A buffer of three bytes, sent in chunks of one and two. -/
theorem reports_truly_iff_of_two_chunks :
    ReportsTruly [1, 2, 3]
      { rt := { nbytes := 3, nresult := 0 }, nbytes := 0, chunks := [[1], [2, 3]] } := by
  have hrun : socketTrySend (some [1, 2, 3]) [(1 : Byte), 2, 3].length 20
      [{ result := .sent 1, span := 0 }, { result := .sent 2, span := 1 }]
      = some { rt := { nbytes := 3, nresult := 0 }, nbytes := 0, chunks := [[1], [2, 3]] } := rfl
  refine (reports_truly_iff (by decide) hrun).mpr ?_
  intro pre hpre hhalf
  simp only [List.prefix_cons_iff, List.prefix_nil] at hpre
  rcases hpre with rfl | ⟨pre, rfl, rfl | ⟨pre, rfl, rfl⟩⟩
  · exact absurd hhalf (by decide)
  · exact absurd hhalf (by decide)
  · rfl

/-- Two of four bytes, and the call reports success. -/
theorem reports_half :
    ∃ o, socketTrySend (some [1, 2, 3, 4]) 4 20 [{ result := .sent 2, span := 0 }] = some o
      ∧ o.rt.nresult = 0 ∧ o.rt.nbytes = 2 ∧ ¬ ReportsTruly [1, 2, 3, 4] o := by
  refine ⟨_, rfl, rfl, rfl, ?_⟩
  intro h
  exact absurd (h.whole rfl).2 (by decide)

end TrySend

end PCGForUnity
