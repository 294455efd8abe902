/-
PCGForUnity/Lib/Framing.lean

Length-prefixed framing of a stream that arrives in pieces.  A frame is a header
of fixed length, which may be rejected, and as many payload elements as the
header announces.

`Receiver` is the state of the reading side: the part of a header received, the
part of a payload received, and the elements of the current piece not consumed
yet.  `run` consumes a piece frame by frame and hands each complete frame to a
handler, which may ask for the receiver to be reset (`true`).

`Pending F r rest` says that the receiver holds exactly the incomplete frame
`rest`.  One step from there depends only on how `rest` and the unread elements
together begin: with a whole frame (`step_frame`), with a rejected header
(`step_malformed`), or with neither (`step_incomplete`); `run_frames` and
`run_reset` are the runs made of such steps.
-/
import PCGForUnity.Lib.Run
import Mathlib.Data.List.TakeDrop
import Mathlib.Order.Basic

namespace PCGForUnity

variable {β σ : Type}

/-- A format of frames: the length of a header, which headers are accepted, and
the payload length a header announces. -/
structure FrameFormat (β : Type) where
  headerLen : Nat
  valid : List β → Bool
  size : List β → Nat
  headerLen_pos : 0 < headerLen

/-- What a handler is called with. -/
structure Dispatch (β : Type) where
  hdr : List β
  payload : List β
deriving DecidableEq, Repr

/-- A header the format accepts. -/
def FrameFormat.ValidHeader (F : FrameFormat β) (hdr : List β) : Prop :=
  hdr.length = F.headerLen ∧ F.valid hdr = true

instance (F : FrameFormat β) (hdr : List β) : Decidable (F.ValidHeader hdr) :=
  inferInstanceAs (Decidable (_ ∧ _))

/-- A well-formed frame: an accepted header and the payload it announces. -/
structure Frame (F : FrameFormat β) extends Dispatch β where
  valid : F.ValidHeader hdr
  length_payload : payload.length = F.size hdr

namespace Frame

variable {F : FrameFormat β}

/-- A frame on the stream. -/
def elems (p : Frame F) : List β := p.hdr ++ p.payload

theorem length_elems (p : Frame F) : p.elems.length = F.headerLen + F.size p.hdr := by
  rw [elems, List.length_append, p.valid.1, p.length_payload]

theorem take_elems (p : Frame F) (more : List β) : (p.elems ++ more).take F.headerLen = p.hdr := by
  rw [elems, List.append_assoc, ← p.valid.1]
  exact List.take_left' rfl

/-- Frames one after another. -/
def concat (ps : List (Frame F)) : List β := ps.flatMap elems

@[simp] theorem concat_nil : concat ([] : List (Frame F)) = [] := rfl

@[simp] theorem concat_cons (p : Frame F) (ps : List (Frame F)) :
    concat (p :: ps) = p.elems ++ concat ps := rfl

theorem concat_append (ps qs : List (Frame F)) : concat (ps ++ qs) = concat ps ++ concat qs := by
  simp [concat]

theorem elems_infix_concat {p : Frame F} {ps : List (Frame F)} (h : p ∈ ps) :
    p.elems <:+: concat ps := by
  obtain ⟨l₁, l₂, rfl⟩ := List.append_of_mem h
  refine ⟨concat l₁, concat l₂, ?_⟩
  rw [concat_append, concat_cons, List.append_assoc]

end Frame

namespace FrameFormat

variable (F : FrameFormat β)

/-- The beginning of a stream that has no whole frame and no rejected header. -/
def Incomplete (rest : List β) : Prop :=
  rest.length < F.headerLen ∨
    F.ValidHeader (rest.take F.headerLen) ∧
      rest.length < F.headerLen + F.size (rest.take F.headerLen)

/-- The beginning of a stream with a rejected header. -/
def Malformed (rest : List β) : Prop :=
  F.headerLen ≤ rest.length ∧ F.valid (rest.take F.headerLen) = false

variable {F}

theorem incomplete_nil : F.Incomplete [] := Or.inl F.headerLen_pos

theorem length_take_headerLen {l : List β} (h : F.headerLen ≤ l.length) :
    (l.take F.headerLen).length = F.headerLen := by
  rw [List.length_take]
  omega

/-- Every stream begins with a whole frame, a rejected header or neither. -/
theorem frame_or_malformed_or_incomplete (l : List β) :
    (∃ (p : Frame F) (more : List β), l = p.elems ++ more) ∨ F.Malformed l ∨ F.Incomplete l := by
  by_cases hlen : l.length < F.headerLen
  · exact Or.inr (Or.inr (Or.inl hlen))
  · have hlen : F.headerLen ≤ l.length := Nat.not_lt.mp hlen
    have htake := length_take_headerLen hlen
    rcases hv : F.valid (l.take F.headerLen) with - | -
    · exact Or.inr (Or.inl ⟨hlen, hv⟩)
    · by_cases hsize : l.length < F.headerLen + F.size (l.take F.headerLen)
      · exact Or.inr (Or.inr (Or.inr ⟨⟨htake, hv⟩, hsize⟩))
      · refine Or.inl ⟨⟨⟨l.take F.headerLen,
          (l.drop F.headerLen).take (F.size (l.take F.headerLen))⟩, ⟨htake, hv⟩, ?_⟩,
          (l.drop F.headerLen).drop (F.size (l.take F.headerLen)), ?_⟩
        · rw [List.length_take, List.length_drop]
          show min (F.size (l.take F.headerLen)) _ = F.size (l.take F.headerLen)
          omega
        · rw [Frame.elems, List.append_assoc, List.take_append_drop, List.take_append_drop]

theorem not_malformed_frame (p : Frame F) (more : List β) : ¬ F.Malformed (p.elems ++ more) := by
  rintro ⟨-, hv⟩
  rw [p.take_elems, p.valid.2] at hv
  cases hv

theorem not_incomplete_frame (p : Frame F) (more : List β) : ¬ F.Incomplete (p.elems ++ more) := by
  have hlen := p.length_elems
  rintro (h | ⟨-, h⟩)
  · rw [List.length_append] at h
    omega
  · rw [p.take_elems, List.length_append] at h
    omega

theorem Malformed.not_incomplete {l : List β} (h : F.Malformed l) : ¬ F.Incomplete l := by
  rintro (hlen | ⟨hv, -⟩)
  · exact absurd h.1 (Nat.not_le.mpr hlen)
  · obtain ⟨-, hbad⟩ := h
    rw [hv.2] at hbad
    cases hbad

/-- A rejected header stays one as more of the stream arrives. -/
theorem Malformed.append {l : List β} (h : F.Malformed l) (more : List β) :
    F.Malformed (l ++ more) := by
  refine ⟨by rw [List.length_append]; exact Nat.le_add_right_of_le h.1, ?_⟩
  rw [List.take_append_of_le_length h.1]
  exact h.2

/-- Two frames that begin the same stream are the same. -/
theorem frame_eq_of_append {p q : Frame F} {l₁ l₂ : List β}
    (h : p.elems ++ l₁ = q.elems ++ l₂) : p = q ∧ l₁ = l₂ := by
  have hhdr : p.hdr = q.hdr := by
    rw [← p.take_elems l₁, h, q.take_elems]
  have hlen : p.elems.length = q.elems.length := by
    rw [p.length_elems, q.length_elems, hhdr]
  obtain ⟨helems, hl⟩ := List.append_inj h hlen
  have hpay : p.payload = q.payload := by
    rw [Frame.elems, Frame.elems, hhdr] at helems
    exact List.append_cancel_left helems
  obtain ⟨⟨hdr, payload⟩, hv, hp⟩ := p
  obtain ⟨⟨hdr', payload'⟩, hv', hp'⟩ := q
  obtain rfl : hdr = hdr' := hhdr
  obtain rfl : payload = payload' := hpay
  exact ⟨rfl, hl⟩

/-- A stream is a number of whole frames and an end that has none. -/
theorem exists_frames (l : List β) :
    ∃ (ps : List (Frame F)) (t : List β), l = Frame.concat ps ++ t ∧
      (F.Malformed t ∨ F.Incomplete t) := by
  induction hn : l.length using Nat.strong_induction_on generalizing l with
  | _ n ih =>
      rcases frame_or_malformed_or_incomplete (F := F) l with ⟨p, more, rfl⟩ | ht
      · have hlt : more.length < n := by
          have := p.length_elems
          have := F.headerLen_pos
          rw [← hn, List.length_append]
          omega
        obtain ⟨ps, t, rfl, ht⟩ := ih more.length hlt more rfl
        exact ⟨p :: ps, t, by rw [Frame.concat_cons, List.append_assoc], ht⟩
      · exact ⟨[], l, rfl, ht⟩

/-- It is so in only one way. -/
theorem frames_unique {ps qs : List (Frame F)} {t u : List β}
    (h : Frame.concat ps ++ t = Frame.concat qs ++ u) (ht : F.Malformed t ∨ F.Incomplete t)
    (hu : F.Malformed u ∨ F.Incomplete u) : ps = qs ∧ t = u := by
  have hend : ∀ {v : List β} (p : Frame F) (more : List β), v = p.elems ++ more →
      ¬ (F.Malformed v ∨ F.Incomplete v) := by
    rintro v p more rfl (hm | hi)
    · exact not_malformed_frame p more hm
    · exact not_incomplete_frame p more hi
  induction ps generalizing qs with
  | nil =>
      cases qs with
      | nil => exact ⟨rfl, h⟩
      | cons q qs =>
          refine absurd ht (hend q (Frame.concat qs ++ u) ?_)
          simpa using h
  | cons p ps ih =>
      cases qs with
      | nil =>
          refine absurd hu (hend p (Frame.concat ps ++ t) ?_)
          simpa using h.symm
      | cons q qs =>
          rw [Frame.concat_cons, Frame.concat_cons, List.append_assoc, List.append_assoc] at h
          obtain ⟨rfl, hrest⟩ := frame_eq_of_append h
          obtain ⟨rfl, htu⟩ := ih hrest
          exact ⟨rfl, htu⟩

/-- The frames of a longer stream begin with those of a shorter one. -/
theorem frames_append {ps qs : List (Frame F)} {t u more : List β}
    (h : Frame.concat ps ++ t ++ more = Frame.concat qs ++ u)
    (hu : F.Malformed u ∨ F.Incomplete u) :
    ∃ qs', qs = ps ++ qs' ∧ t ++ more = Frame.concat qs' ++ u := by
  obtain ⟨qs', u', he, hu'⟩ := exists_frames (F := F) (t ++ more)
  rw [List.append_assoc, he, ← List.append_assoc, ← Frame.concat_append] at h
  obtain ⟨hqs, rfl⟩ := frames_unique h hu' hu
  exact ⟨qs', hqs.symm, he⟩

/-- An incomplete end is a proper part of a frame, and the other way round. -/
theorem incomplete_of_prefix {p : Frame F} {rest : List β} (h : rest <+: p.elems)
    (hne : rest ≠ p.elems) : F.Incomplete rest := by
  obtain ⟨more, hmore⟩ := h
  rcases frame_or_malformed_or_incomplete (F := F) rest with ⟨q, l, rfl⟩ | hm | hi
  · rw [List.append_assoc, ← List.append_nil p.elems] at hmore
    obtain ⟨rfl, hl⟩ := frame_eq_of_append hmore
    obtain ⟨rfl, -⟩ := List.append_eq_nil_iff.mp hl
    exact absurd (List.append_nil _) hne
  · have := hm.append more
    rw [hmore, ← List.append_nil p.elems] at this
    exact absurd this (not_malformed_frame p [])
  · exact hi

/-- The beginning of a stream of frames: some of them whole, and a part of the next one. -/
theorem exists_frames_of_prefix {ps : List (Frame F)} {l : List β} (h : l <+: Frame.concat ps) :
    ∃ done more rest, ps = done ++ more ∧ l = Frame.concat done ++ rest ∧
      (more = [] ∧ rest = [] ∨
        ∃ p more', more = p :: more' ∧ rest <+: p.elems ∧ rest ≠ p.elems) := by
  induction ps generalizing l with
  | nil => exact ⟨[], [], [], rfl, List.prefix_nil.mp h, Or.inl ⟨rfl, rfl⟩⟩
  | cons p ps ih =>
      by_cases hwhole : p.elems <+: l
      · obtain ⟨l', rfl⟩ := hwhole
        obtain ⟨done, more, rest, rfl, rfl, hrest⟩ := ih ((List.prefix_append_right_inj _).mp h)
        exact ⟨p :: done, more, rest, rfl, by rw [Frame.concat_cons, List.append_assoc], hrest⟩
      · have hpart : l <+: p.elems :=
          (List.prefix_or_prefix_of_prefix h (List.prefix_append _ _)).resolve_right hwhole
        refine ⟨[], p :: ps, l, rfl, rfl, Or.inr ⟨p, ps, rfl, hpart, ?_⟩⟩
        rintro rfl
        exact hwhole (List.prefix_refl _)

/-- What is left at such a beginning is incomplete. -/
theorem incomplete_of_rest {more : List (Frame F)} {rest : List β}
    (h : more = [] ∧ rest = [] ∨
      ∃ p more', more = p :: more' ∧ rest <+: p.elems ∧ rest ≠ p.elems) : F.Incomplete rest := by
  rcases h with ⟨-, rfl⟩ | ⟨p, -, -, hp, hne⟩
  · exact incomplete_nil
  · exact incomplete_of_prefix hp hne

end FrameFormat

/-! ### The reading side -/

/-- The state of the reading side.  `size` is the payload length expected, and
`used` the room of the piece's window used up since the last reset. -/
structure Receiver (β : Type) where
  hdr : List β
  payload : List β
  size : Nat
  unread : List β
  used : Nat

namespace Receiver

/-- Everything that has been read is forgotten. -/
def reset (r : Receiver β) : Receiver β :=
  { r with hdr := [], payload := [], unread := [], used := 0 }

variable (F : FrameFormat β)

/-- Complete the header from the unread elements; `false` where it stays
incomplete or is rejected. -/
def fillHeader (r : Receiver β) : Receiver β × Bool :=
  if r.hdr.length < F.headerLen then
    let n := min r.unread.length (F.headerLen - r.hdr.length)
    let hdr := r.hdr ++ r.unread.take n
    let unread := r.unread.drop n
    if hdr.length < F.headerLen then ({ r with hdr, unread }, false)
    else if F.valid hdr then ({ r with hdr, unread, payload := [], size := F.size hdr }, true)
    else ({ r with hdr, unread }, false)
  else (r, true)

/-- Complete the payload from the unread elements; `false` where it stays incomplete. -/
def fillPayload (r : Receiver β) : Receiver β × Bool :=
  if r.payload.length < r.size then
    let n := min r.unread.length (r.size - r.payload.length)
    let payload := r.payload ++ r.unread.take n
    ({ r with payload, unread := r.unread.drop n }, decide (r.size ≤ payload.length))
  else (r, true)

variable (act : σ → Dispatch β → σ × Bool)

/-- Hand the frame received to the handler. -/
def deliver (r : Receiver β) (m : σ) : Receiver β × σ :=
  match act m ⟨r.hdr, r.payload⟩ with
  | (m, true) => (r.reset, m)
  | (m, false) => ({ r with hdr := [] }, m)

/-- One round of the reading loop; `false` where the loop is left. -/
def step (r : Receiver β) (m : σ) : (Receiver β × σ) × Bool :=
  if r.unread = [] then ((r, m), false)
  else
    match r.fillHeader F with
    | (r, false) => ((r, m), false)
    | (r, true) =>
        match r.fillPayload with
        | (r, false) => ((r, m), false)
        | (r, true) => (r.deliver act m, true)

/-- The reading loop. -/
def run : Nat → Receiver β → σ → Option (Receiver β × σ)
  | 0, _, _ => none
  | fuel + 1, r, m =>
      match r.step F act m with
      | (s, false) => some s
      | ((r, m), true) => run fuel r m

/-! ### One round from an incomplete frame -/

/-- The receiver holds exactly the incomplete frame `rest`: a part of a header,
or an accepted header and a part of its payload. -/
def Pending (r : Receiver β) (rest : List β) : Prop :=
  rest.length < F.headerLen ∧ r.hdr = rest ∨
    F.ValidHeader (rest.take F.headerLen) ∧
      rest.length < F.headerLen + F.size (rest.take F.headerLen) ∧
      r.hdr = rest.take F.headerLen ∧ r.payload = rest.drop F.headerLen ∧
      r.size = F.size (rest.take F.headerLen)

variable {F act} {r : Receiver β} {m : σ} {rest : List β}

theorem Pending.incomplete (h : Pending F r rest) : F.Incomplete rest := by
  rcases h with ⟨hlen, -⟩ | ⟨hv, hlen, -⟩
  · exact Or.inl hlen
  · exact Or.inr ⟨hv, hlen⟩

theorem Pending.hdr_eq_nil (h : Pending F r []) : r.hdr = [] := by
  rcases h with ⟨-, hhdr⟩ | ⟨-, -, hhdr, -⟩
  · exact hhdr
  · rw [hhdr, List.take_nil]

theorem pending_nil (h : r.hdr = []) : Pending F r [] := Or.inl ⟨F.headerLen_pos, h⟩

/-- Filling up a list to length `n` from another one takes `n` of both together. -/
theorem append_take_min {l u : List β} {n : Nat} (h : l.length ≤ n) :
    l ++ u.take (min u.length (n - l.length)) = (l ++ u).take n := by
  have hmin : u.take (min u.length (n - l.length)) = u.take (n - l.length) := by
    rw [Nat.min_comm, ← List.take_take, List.take_length]
  rw [hmin, List.take_append, List.take_of_length_le h]

theorem drop_min {l u : List β} {n : Nat} (h : l.length ≤ n) :
    u.drop (min u.length (n - l.length)) = (l ++ u).drop n := by
  rw [List.drop_append, List.drop_of_length_le h, List.nil_append]
  rcases Nat.le_total u.length (n - l.length) with hle | hle
  · rw [Nat.min_eq_left hle, List.drop_of_length_le hle, List.drop_length]
  · rw [Nat.min_eq_right hle]

theorem fillHeader_of_lt (hlt : r.hdr.length < F.headerLen) :
    r.fillHeader F =
      let r' := { r with
        hdr := (r.hdr ++ r.unread).take F.headerLen
        unread := (r.hdr ++ r.unread).drop F.headerLen }
      if r'.hdr.length < F.headerLen then (r', false)
      else if F.valid r'.hdr then ({ r' with payload := [], size := F.size r'.hdr }, true)
      else (r', false) := by
  simp only [fillHeader, if_pos hlt, append_take_min (Nat.le_of_lt hlt),
    drop_min (Nat.le_of_lt hlt)]

/-- A header stage that does not leave the loop leaves a complete header. -/
theorem le_length_hdr_of_fillHeader {r' : Receiver β} (h : r.fillHeader F = (r', true)) :
    F.headerLen ≤ r'.hdr.length := by
  by_cases hlt : r.hdr.length < F.headerLen
  · rw [fillHeader_of_lt hlt] at h
    simp only at h
    split at h
    · cases h
    · split at h
      · obtain rfl := congrArg Prod.fst h
        exact Nat.not_lt.mp ‹_›
      · cases h
  · rw [fillHeader, if_neg hlt] at h
    obtain rfl := congrArg Prod.fst h
    exact Nat.not_lt.mp hlt

/-- Filling up the payload from the unread elements, whether or not any is missing. -/
theorem fillPayload_eq (hle : r.payload.length ≤ r.size) :
    r.fillPayload =
      ({ r with
          payload := (r.payload ++ r.unread).take r.size
          unread := (r.payload ++ r.unread).drop r.size },
        decide (r.size ≤ (r.payload ++ r.unread).length)) := by
  rw [fillPayload]
  split
  case isTrue hlt =>
    have hmin : r.size ≤ min r.size (r.payload ++ r.unread).length
        ↔ r.size ≤ (r.payload ++ r.unread).length := by omega
    simp only [append_take_min hle, drop_min hle, List.length_take, hmin]
  case isFalse hlt =>
    have heq : r.payload.length = r.size := Nat.le_antisymm hle (Nat.not_lt.mp hlt)
    rw [← heq, List.take_left' rfl, List.drop_left' rfl, List.length_append]
    simp [heq]

/-- A round that finds the header complete, or completes it with an accepted one. -/
theorem step_of_header {hdr got more : List β} (hne : r.unread ≠ [])
    (hfill : r.fillHeader F = (⟨hdr, got, F.size hdr, more, r.used⟩, true))
    (hgot : got.length ≤ F.size hdr) :
    r.step F act m =
      if F.size hdr ≤ (got ++ more).length then
        (deliver act ⟨hdr, (got ++ more).take (F.size hdr), F.size hdr,
          (got ++ more).drop (F.size hdr), r.used⟩ m, true)
      else ((⟨hdr, got ++ more, F.size hdr, [], r.used⟩, m), false) := by
  have hpay := fillPayload_eq (r := ⟨hdr, got, F.size hdr, more, r.used⟩) hgot
  rw [step, if_neg hne, hfill]
  simp only [hpay]
  by_cases hsize : F.size hdr ≤ (got ++ more).length
  · rw [decide_eq_true hsize, if_pos hsize]
  · have hle : (got ++ more).length ≤ F.size hdr := Nat.le_of_not_le hsize
    rw [decide_eq_false hsize, if_neg hsize, List.take_of_length_le hle,
      List.drop_of_length_le hle]

/-- The header stage, from an incomplete frame to a stream that begins with an
accepted header. -/
theorem Pending.fillHeader_valid (h : Pending F r rest)
    (hlen : F.headerLen ≤ (rest ++ r.unread).length)
    (hv : F.valid ((rest ++ r.unread).take F.headerLen) = true) :
    ∃ got more, r.fillHeader F = (⟨(rest ++ r.unread).take F.headerLen, got,
        F.size ((rest ++ r.unread).take F.headerLen), more, r.used⟩, true) ∧
      got.length ≤ F.size ((rest ++ r.unread).take F.headerLen) ∧
      got ++ more = (rest ++ r.unread).drop F.headerLen := by
  rcases h with ⟨hlt, hhdr⟩ | ⟨hvalid, hlt, hhdr, hpay, hsize⟩
  · refine ⟨[], (rest ++ r.unread).drop F.headerLen, ?_, Nat.zero_le _, rfl⟩
    rw [fillHeader_of_lt (by rw [hhdr]; exact hlt), hhdr]
    have hfull := FrameFormat.length_take_headerLen hlen
    simp only [hfull, Nat.lt_irrefl, if_false, hv, if_true]
  · have hle : F.headerLen ≤ rest.length := by
      have := hvalid.1
      rw [List.length_take] at this
      omega
    have htake : (rest ++ r.unread).take F.headerLen = rest.take F.headerLen :=
      List.take_append_of_le_length hle
    rw [htake]
    refine ⟨rest.drop F.headerLen, r.unread, ?_, ?_, (List.drop_append_of_le_length hle).symm⟩
    · rw [fillHeader, if_neg (by rw [hhdr, hvalid.1]; exact Nat.lt_irrefl _), ← hpay, ← hhdr,
        hhdr, ← hsize, ← hhdr]
    · rw [List.length_drop]
      omega

/-- A whole frame is handed to the handler. -/
theorem step_frame (act : σ → Dispatch β → σ × Bool) (m : σ) (h : Pending F r rest)
    (hne : r.unread ≠ []) {p : Frame F} {more : List β}
    (hl : rest ++ r.unread = p.elems ++ more) :
    r.step F act m = (deliver act ⟨p.hdr, p.payload, F.size p.hdr, more, r.used⟩ m, true) := by
  have hlen : F.headerLen ≤ (rest ++ r.unread).length := by
    rw [hl, List.length_append, p.length_elems]
    omega
  have hv : F.valid ((rest ++ r.unread).take F.headerLen) = true := by
    rw [hl, p.take_elems]
    exact p.valid.2
  obtain ⟨got, more', hfill, hgot, happ⟩ := h.fillHeader_valid hlen hv
  have hdrop : got ++ more' = p.payload ++ more := by
    rw [happ, hl, Frame.elems, List.append_assoc, ← p.valid.1, List.drop_left' rfl]
  rw [hl, p.take_elems] at hfill hgot
  rw [step_of_header hne hfill hgot, hdrop, if_pos, ← p.length_payload, List.take_left' rfl,
    List.drop_left' rfl]
  rw [List.length_append, p.length_payload]
  exact Nat.le_add_right _ _

/-- What is no whole frame is kept. -/
theorem step_incomplete (act : σ → Dispatch β → σ × Bool) (m : σ) (h : Pending F r rest)
    (hne : r.unread ≠ [])
    (hinc : F.Incomplete (rest ++ r.unread)) :
    ∃ r', r.step F act m = ((r', m), false) ∧ Pending F r' (rest ++ r.unread) ∧
      r'.unread = [] ∧ r'.used = r.used ∧
      ((rest ++ r.unread).length < F.headerLen → r'.payload = r.payload ∧ r'.size = r.size) := by
  rcases hinc with hlen | ⟨hv, hlen⟩
  · have hhdr : r.hdr = rest := by
      rcases h with ⟨-, hhdr⟩ | ⟨hvalid, -⟩
      · exact hhdr
      · have := hvalid.1
        rw [List.length_take] at this
        rw [List.length_append] at hlen
        omega
    have hlt : r.hdr.length < F.headerLen := by
      rw [hhdr]
      rw [List.length_append] at hlen
      omega
    refine ⟨{ r with hdr := rest ++ r.unread, unread := [] }, ?_, Or.inl ⟨hlen, rfl⟩, rfl, rfl,
      fun _ => ⟨rfl, rfl⟩⟩
    rw [step, if_neg hne, fillHeader_of_lt hlt, hhdr]
    simp only [List.take_of_length_le (Nat.le_of_lt hlen),
      List.drop_of_length_le (Nat.le_of_lt hlen), if_pos hlen]
  · have hfull : F.headerLen ≤ (rest ++ r.unread).length := by
      have := hv.1
      rw [List.length_take] at this
      omega
    obtain ⟨got, more', hfill, hgot, happ⟩ := h.fillHeader_valid hfull hv.2
    have hshort : ¬ F.size ((rest ++ r.unread).take F.headerLen) ≤ (got ++ more').length := by
      rw [happ, List.length_drop]
      omega
    exact ⟨⟨_, got ++ more', _, [], r.used⟩, by rw [step_of_header hne hfill hgot, if_neg hshort],
      Or.inr ⟨hv, hlen, rfl, happ, rfl⟩, rfl, rfl, fun h => absurd h (Nat.not_lt.mpr hfull)⟩

/-- A rejected header stays in the receiver, in front of the payload left from before. -/
theorem step_malformed (act : σ → Dispatch β → σ × Bool) (m : σ) (h : Pending F r rest)
    (hne : r.unread ≠ [])
    (hbad : F.Malformed (rest ++ r.unread)) :
    r.step F act m =
      (({ r with
          hdr := (rest ++ r.unread).take F.headerLen
          unread := (rest ++ r.unread).drop F.headerLen }, m), false) := by
  have hhdr : rest.length < F.headerLen ∧ r.hdr = rest := by
    rcases h with h | ⟨hvalid, -⟩
    · exact h
    · -- an accepted header does not turn into a rejected one
      have hle : F.headerLen ≤ rest.length := by
        have := hvalid.1
        rw [List.length_take] at this
        omega
      have := hbad.2
      rw [List.take_append_of_le_length hle, hvalid.2] at this
      cases this
  obtain ⟨hlt, rfl⟩ := hhdr
  have hfull := FrameFormat.length_take_headerLen hbad.1
  rw [step, if_neg hne, fillHeader_of_lt hlt]
  simp [hfull, hbad.2]

/-! ### Runs over a piece -/

theorem run_succ (fuel : Nat) {s : Receiver β × σ} (h : r.step F act m = (s, true)) :
    run F act (fuel + 1) r m = run F act fuel s.1 s.2 := by
  rw [run, h]

theorem run_stop (fuel : Nat) {s : Receiver β × σ} (h : r.step F act m = (s, false)) :
    run F act (fuel + 1) r m = some s := by
  rw [run, h]

/-- With nothing unread the loop is left at once. -/
theorem run_nil (fuel : Nat) (h : r.unread = []) : run F act (fuel + 1) r m = some (r, m) :=
  run_stop fuel (by rw [step, if_pos h])

/-- More fuel does not change a run that ends. -/
theorem run_mono {fuel : Nat} {s : Receiver β × σ} (h : run F act fuel r m = some s)
    {fuel' : Nat} (hle : fuel ≤ fuel') : run F act fuel' r m = some s := by
  induction fuel generalizing r m fuel' with
  | zero => cases h
  | succ fuel ih =>
      obtain ⟨fuel', rfl⟩ : ∃ n, fuel' = n + 1 := ⟨fuel' - 1, by omega⟩
      rcases hs : r.step F act m with ⟨s', - | -⟩
      · rw [run_stop _ hs] at h ⊢
        exact h
      · rw [run_succ _ hs] at h ⊢
        exact ih h (Nat.le_of_succ_le_succ hle)

/-- The elements a round consumes, or the header it hands over. -/
def measure (F : FrameFormat β) (r : Receiver β) : Nat :=
  2 * r.unread.length + if r.hdr.length < F.headerLen then 0 else 1

theorem length_unread_fillHeader :
    (r.fillHeader F).1.unread.length ≤ r.unread.length ∧
      (r.hdr.length < F.headerLen → r.unread ≠ [] →
        (r.fillHeader F).1.unread.length < r.unread.length) := by
  by_cases hlt : r.hdr.length < F.headerLen
  · have hdrop : (r.fillHeader F).1.unread = (r.hdr ++ r.unread).drop F.headerLen := by
      rw [fillHeader_of_lt hlt]
      simp only
      split
      · rfl
      · split <;> rfl
    rw [hdrop, List.length_drop, List.length_append]
    refine ⟨by omega, fun _ hne => ?_⟩
    have := List.length_pos_iff.mpr hne
    omega
  · rw [fillHeader, if_neg hlt]
    exact ⟨Nat.le_refl _, fun h => absurd h hlt⟩

theorem length_unread_fillPayload : r.fillPayload.1.unread.length ≤ r.unread.length := by
  rw [fillPayload]
  split
  · rw [List.length_drop]
    exact Nat.sub_le _ _
  · exact Nat.le_refl _

theorem measure_deliver (act : σ → Dispatch β → σ × Bool) (m : σ) :
    (r.deliver act m).1.measure F ≤ 2 * r.unread.length := by
  have hpos := F.headerLen_pos
  rw [deliver]
  split
  · simp [measure, reset, hpos]
  · simp [measure, hpos]

/-- Each round that goes on makes the measure smaller. -/
theorem measure_step {s : Receiver β × σ} (h : r.step F act m = (s, true)) :
    s.1.measure F < r.measure F := by
  have hne : r.unread ≠ [] := by
    intro hnil
    rw [step, if_pos hnil] at h
    cases h
  obtain ⟨hle, hlt⟩ := length_unread_fillHeader (F := F) (r := r)
  rw [step, if_neg hne] at h
  split at h
  · cases h
  · rename_i r₁ hfill
    split at h
    · cases h
    · rename_i r₂ hpay
      obtain rfl : r₂.deliver act m = s := congrArg Prod.fst h
      have hle₂ := length_unread_fillPayload (r := r₁)
      have hdeliver := measure_deliver (F := F) (r := r₂) act m
      rw [hfill] at hle hlt
      rw [hpay] at hle₂
      simp only at hle hlt hle₂
      refine lt_of_le_of_lt hdeliver ?_
      by_cases hshort : r.hdr.length < F.headerLen
      · have := hlt hshort hne
        rw [measure, if_pos hshort]
        omega
      · rw [measure, if_neg hshort]
        omega

/-- Fuel beyond the measure is enough. -/
theorem run_isSome (act : σ → Dispatch β → σ × Bool) (m : σ) {fuel : Nat}
    (h : r.measure F < fuel) : ∃ s, run F act fuel r m = some s := by
  induction fuel generalizing r m with
  | zero => exact absurd h (Nat.not_lt_zero _)
  | succ fuel ih =>
      rcases hs : r.step F act m with ⟨s, - | -⟩
      · exact ⟨s, run_stop _ hs⟩
      · rw [run_succ _ hs]
        exact ih s.2 (lt_of_lt_of_le (measure_step hs) (Nat.le_of_lt_succ h))

/-- A run that ends is the run on any fuel that is enough. -/
theorem run_eq {n : Nat} {s : Receiver β × σ} (h : run F act n r m = some s) {fuel : Nat}
    (hfuel : 2 * r.unread.length + 2 ≤ fuel) : run F act fuel r m = some s := by
  have hm : r.measure F < fuel := by
    rw [measure]
    split <;> omega
  obtain ⟨s', hs'⟩ := run_isSome act m hm
  have hmax := run_mono hs' (Nat.le_max_left fuel n)
  rw [run_mono h (Nat.le_max_right fuel n)] at hmax
  rw [hs', hmax]

/-! ### Runs over frames -/

/-- What serving a frame does to the members of the receiving end. -/
def serve (act : σ → Dispatch β → σ × Bool) (m : σ) (p : Frame F) : σ := (act m p.toDispatch).1

/-- A log that the handler adds to. -/
theorem log_foldl_serve {act : σ → Dispatch β → σ × Bool} (log : σ → List (Dispatch β))
    (hlog : ∀ m d, log (act m d).1 = log m ++ [d]) (m : σ) (ps : List (Frame F)) :
    log (ps.foldl (serve act) m) = log m ++ ps.map Frame.toDispatch := by
  induction ps generalizing m with
  | nil => exact (List.append_nil _).symm
  | cons p ps ih =>
      rw [List.foldl_cons, ih, serve, hlog, List.append_assoc, List.map_cons,
        List.singleton_append]

/-- The handler does not ask for a reset on any of the frames. -/
def Keeps (act : σ → Dispatch β → σ × Bool) : σ → List (Frame F) → Prop :=
  Run.EachStep (serve act) fun m p => (act m p.toDispatch).2 = false

theorem Pending.unread_ne_nil (h : Pending F r rest) {p : Frame F} {more : List β}
    (hl : rest ++ r.unread = p.elems ++ more) : r.unread ≠ [] := by
  intro hnil
  rw [hnil, List.append_nil] at hl
  exact FrameFormat.not_incomplete_frame p more (hl ▸ h.incomplete)

/-- The whole frames at the beginning of the stream are served one by one. -/
theorem run_frames {ps : List (Frame F)} {more : List β} (h : Pending F r rest)
    (hl : rest ++ r.unread = Frame.concat ps ++ more) (hk : Keeps act m ps) (fuel : Nat) :
    ∃ r' rest', run F act (ps.length + fuel) r m = run F act fuel r' (ps.foldl (serve act) m) ∧
      Pending F r' rest' ∧ rest' ++ r'.unread = more ∧ r'.used = r.used ∧
      (ps = [] ∧ r' = r ∧ rest' = rest ∨
        ps ≠ [] ∧ rest' = [] ∧ r'.hdr = [] ∧ r'.payload.length = r'.size) := by
  induction ps generalizing r rest m with
  | nil => exact ⟨r, rest, by simp, h, hl, rfl, Or.inl ⟨rfl, rfl, rfl⟩⟩
  | cons p ps ih =>
      rw [Frame.concat_cons, List.append_assoc] at hl
      have hstep := step_frame act m h (h.unread_ne_nil hl) hl
      obtain ⟨hp, hps⟩ := hk
      have hdel : deliver act ⟨p.hdr, p.payload, F.size p.hdr, Frame.concat ps ++ more, r.used⟩ m
          = (⟨[], p.payload, F.size p.hdr, Frame.concat ps ++ more, r.used⟩, serve act m p) := by
        rw [deliver, serve]
        rcases ha : act m p.toDispatch with ⟨m', - | -⟩
        · rfl
        · rw [ha] at hp
          cases hp
      rw [hdel] at hstep
      obtain ⟨r', rest', hrun, hpend, hmore, hused, hcase⟩ :=
        ih (r := ⟨[], p.payload, F.size p.hdr, Frame.concat ps ++ more, r.used⟩)
          (pending_nil rfl) rfl hps
      refine ⟨r', rest', ?_, hpend, hmore, hused, Or.inr ⟨by simp, ?_⟩⟩
      · rw [List.length_cons, Nat.add_right_comm, run_succ _ hstep, hrun]
        rfl
      · rcases hcase with ⟨rfl, rfl, rfl⟩ | ⟨-, hrest, hhdr, hpay⟩
        · exact ⟨rfl, rfl, p.length_payload⟩
        · exact ⟨hrest, hhdr, hpay⟩

/-- A piece that ends in an incomplete frame: the frames in it are served, and
the incomplete one is kept. -/
theorem run_serves {ps : List (Frame F)} {rest' : List β} (h : Pending F r rest)
    (hl : rest ++ r.unread = Frame.concat ps ++ rest') (hinc : F.Incomplete rest')
    (hk : Keeps act m ps) {fuel : Nat} (hfuel : 2 * r.unread.length + 2 ≤ fuel) :
    ∃ r', run F act fuel r m = some (r', ps.foldl (serve act) m) ∧ Pending F r' rest' ∧
      r'.unread = [] ∧ r'.used = r.used ∧
      (rest'.length < F.headerLen →
        ps = [] ∧ r'.payload = r.payload ∧ r'.size = r.size ∨
          ps ≠ [] ∧ r'.payload.length = r'.size) := by
  obtain ⟨r₁, rest₁, hrun, hpend, rfl, hused, hcase⟩ := run_frames h hl hk 1
  have hpay : ∀ r' : Receiver β, r'.payload = r₁.payload → r'.size = r₁.size →
      ps = [] ∧ r'.payload = r.payload ∧ r'.size = r.size ∨
        ps ≠ [] ∧ r'.payload.length = r'.size := by
    rintro r' hp hs
    rw [hp, hs]
    rcases hcase with ⟨hps, rfl, -⟩ | ⟨hps, -, -, hlen⟩
    · exact Or.inl ⟨hps, rfl, rfl⟩
    · exact Or.inr ⟨hps, hlen⟩
  by_cases hnil : r₁.unread = []
  · rw [run_nil 0 hnil] at hrun
    exact ⟨r₁, run_eq hrun hfuel, by rwa [hnil, List.append_nil], hnil, hused,
      fun _ => hpay r₁ rfl rfl⟩
  · obtain ⟨r', hstep, hpend', hunread, hused', hkept⟩ :=
      step_incomplete act (ps.foldl (serve act) m) hpend hnil hinc
    rw [run_stop 0 hstep] at hrun
    exact ⟨r', run_eq hrun hfuel, hpend', hunread, hused'.trans hused,
      fun hlen => hpay r' (hkept hlen).1 (hkept hlen).2⟩

/-- A frame on which the handler asks for a reset ends the piece. -/
theorem run_reset {ps : List (Frame F)} {p : Frame F} {more : List β} (h : Pending F r rest)
    (hl : rest ++ r.unread = Frame.concat ps ++ (p.elems ++ more)) (hk : Keeps act m ps)
    (hp : (act (ps.foldl (serve act) m) p.toDispatch).2 = true)
    {fuel : Nat} (hfuel : 2 * r.unread.length + 2 ≤ fuel) :
    run F act fuel r m
      = some (⟨[], [], F.size p.hdr, [], 0⟩, serve act (ps.foldl (serve act) m) p) := by
  obtain ⟨r₁, rest₁, hrun, hpend, hmore, hused, -⟩ := run_frames h hl hk 2
  have hstep := step_frame act (ps.foldl (serve act) m) hpend
    (hpend.unread_ne_nil hmore) hmore
  rw [run_succ 1 hstep, deliver] at hrun
  rcases ha : act (ps.foldl (serve act) m) p.toDispatch with ⟨m', - | -⟩
  · rw [ha] at hp
    cases hp
  · rw [ha] at hrun
    rw [serve, ha]
    exact run_eq (hrun.trans (run_nil 0 rfl)) hfuel

/-- A piece with a rejected header: the frames in front of it are served, the
header stays in the receiver, and the rest of the piece unread. -/
theorem run_malformed {ps : List (Frame F)} {bad : List β} (h : Pending F r rest)
    (hl : rest ++ r.unread = Frame.concat ps ++ bad) (hbad : F.Malformed bad)
    (hk : Keeps act m ps) {fuel : Nat} (hfuel : 2 * r.unread.length + 2 ≤ fuel) :
    ∃ r', run F act fuel r m = some (r', ps.foldl (serve act) m) ∧
      r'.hdr = bad.take F.headerLen ∧ r'.used = r.used ∧
      (ps = [] ∧ r'.payload = r.payload ∧ r'.size = r.size ∨
        ps ≠ [] ∧ r'.payload.length = r'.size) := by
  obtain ⟨r₁, rest₁, hrun, hpend, rfl, hused, hcase⟩ := run_frames h hl hk 1
  have hne : r₁.unread ≠ [] := by
    intro hnil
    rw [hnil, List.append_nil] at hbad
    exact hbad.not_incomplete hpend.incomplete
  rw [run_stop 0 (step_malformed act (ps.foldl (serve act) m) hpend hne hbad)] at hrun
  refine ⟨_, run_eq hrun hfuel, rfl, hused, ?_⟩
  rcases hcase with ⟨hps, rfl, -⟩ | ⟨hps, -, -, hpay⟩
  · exact Or.inl ⟨hps, rfl, rfl⟩
  · exact Or.inr ⟨hps, hpay⟩

/-! ### Rounds with a complete header -/

/-- With its header complete the receiver takes what its payload still lacks,
whatever header that is. -/
theorem step_full (act : σ → Dispatch β → σ × Bool) (m : σ)
    (hfull : F.headerLen ≤ r.hdr.length) (hne : r.unread ≠ [])
    (hle : r.payload.length ≤ r.size) :
    r.step F act m =
      if r.size ≤ (r.payload ++ r.unread).length then
        (deliver act { r with
          payload := (r.payload ++ r.unread).take r.size
          unread := (r.payload ++ r.unread).drop r.size } m, true)
      else (({ r with payload := r.payload ++ r.unread, unread := [] }, m), false) := by
  rw [step, if_neg hne, fillHeader, if_neg (Nat.not_lt.mpr hfull)]
  simp only [fillPayload_eq hle]
  by_cases hsize : r.size ≤ (r.payload ++ r.unread).length
  · rw [decide_eq_true hsize, if_pos hsize]
  · have hle' : (r.payload ++ r.unread).length ≤ r.size := Nat.le_of_not_le hsize
    rw [decide_eq_false hsize, if_neg hsize, List.take_of_length_le hle',
      List.drop_of_length_le hle']

/-- What the handler keeps, a run keeps. -/
theorem run_preserves {P : σ → Prop} (hP : ∀ m d, P m → P (act m d).1) {fuel : Nat}
    {s : Receiver β × σ} (h : run F act fuel r m = some s) (hm : P m) : P s.2 := by
  have hdeliver : ∀ (r : Receiver β) m, P m → P (r.deliver act m).2 := by
    intro r m hm
    have := hP m ⟨r.hdr, r.payload⟩ hm
    rw [deliver]
    split <;> rename_i heq <;> rwa [heq] at this
  induction fuel generalizing r m with
  | zero => cases h
  | succ fuel ih =>
      rcases hs : r.step F act m with ⟨s', - | -⟩
      · rw [run_stop _ hs] at h
        obtain rfl := Option.some.inj h
        rw [step] at hs
        split at hs
        · obtain rfl := congrArg Prod.fst hs
          exact hm
        · split at hs
          · obtain rfl := congrArg Prod.fst hs
            exact hm
          · split at hs
            · obtain rfl := congrArg Prod.fst hs
              exact hm
            · cases hs
      · rw [run_succ _ hs] at h
        refine ih h ?_
        rw [step] at hs
        split at hs
        · cases hs
        · split at hs
          · cases hs
          · split at hs
            · cases hs
            · obtain rfl := congrArg Prod.fst hs
              exact hdeliver _ _ hm

end Receiver

end PCGForUnity
