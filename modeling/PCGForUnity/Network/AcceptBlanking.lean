/-
PCGForUnity/Network/AcceptBlanking.lean

Which datagrams of a session go out with the conversation 0.

    a datagram is treated as it should be
      ↔  the four bytes at offset 28 tell an accept from any other

(`blanks_iff`).

`ikcp_flush` hands `KcpSession::fnWriteDgram` datagrams of one or more segments.  The function
takes the four bytes at offset 28 for the command of a packet, and blanks the conversation if
they are those of `S2C_ACCEPT_ACT`, which is 0.  They are the command, and the padding behind
it, only if the first segment is the first fragment of a message.  Behind the header of a later
fragment they are bytes of its data, and a datagram that is one acknowledgement ends before
them.

Design.  A segment carries what it was made from, a fragment of a message or none, so that "as
it should be" is about the message and not about bytes.  The bytes that lie in the buffer
behind a short datagram are a parameter.
-/
import PCGForUnity.Network.Handshake

namespace PCGForUnity

/-- `IKCP_CMD_ACK`: an acknowledgement. -/
def ikcpCmdAck : ℕ := 82

/-- `IKCP_CMD_WASK`: a probe of the window. -/
def ikcpCmdWask : ℕ := 83

/-- `IKCP_CMD_WINS`: the answer to it. -/
def ikcpCmdWins : ℕ := 84

/-- A segment that `ikcp_flush` puts out.  A push has a fragment of a message for its
data: `fragment` is what the message has before it and behind it. -/
structure OutSegment where
  seg : Segment
  fragment : Option (List Byte × List Byte)
  cmd : match fragment with
    | none => (seg.cmd = ikcpCmdAck ∨ seg.cmd = ikcpCmdWask ∨ seg.cmd = ikcpCmdWins) ∧ seg.data = []
    | some _ => seg.cmd = ikcpCmdPush

namespace OutSegment

/-- What `ikcp_flush` hands to the output callback. -/
def datagram (first : OutSegment) (rest : List OutSegment) : List Byte :=
  (first :: rest).flatMap fun s => s.seg.encode

/-- The packet of a message is an answer to a connection. -/
def IsAccept (message : List Byte) : Prop :=
  sizeofPacketHeader ≤ message.length ∧ (PacketHeader.ofBytes message).command = s2cAcceptAct

/-- The segment is the first fragment of such a message. -/
def StartsAccept (s : OutSegment) : Prop :=
  ∃ after, s.fragment = some ([], after) ∧ IsAccept (s.seg.data ++ after)

open Classical in
/-- The conversation is blanked for an accept and the bytes are the same for any other
datagram, and the four bytes that are decoded are bytes of the datagram. -/
structure Blanks (beyond : List Byte) (first : OutSegment) (rest : List OutSegment) : Prop where
  output : KcpSession.fnWriteDgram beyond (datagram first rest)
    = if first.StartsAccept then encode32u 0 ++ (datagram first rest).drop 4
      else datagram first rest
  within : ikcpOverheadLen + 4 + 4 ≤ (datagram first rest).length

/-- The bytes behind the header of the first segment. -/
def behind (first : OutSegment) (rest : List OutSegment) : List Byte :=
  first.seg.data ++ rest.flatMap fun s => s.seg.encode

/-- Where the four bytes tell an accept from any other datagram.  A segment without data
has to be followed by another.  With data, the datagram has to have the four bytes, and
they have to be 0 for the first fragment of an accept and only there. -/
def Recognisable (first : OutSegment) (rest : List OutSegment) : Prop :=
  match first.fragment with
  | none => rest ≠ []
  | some _ => 8 ≤ (behind first rest).length ∧
      (first.seg.conv = 0 ∨
        ((∀ i, 4 ≤ i → i < 8 → byteAt (behind first rest) i = 0) ↔ first.StartsAccept))

/-! ### The bytes that are decoded -/

variable {first : OutSegment} {rest : List OutSegment} {beyond : List Byte}

theorem drop_datagram (first : OutSegment) (rest : List OutSegment) :
    (datagram first rest).drop ikcpOverheadLen = behind first rest := by
  rw [datagram, List.flatMap_cons, List.drop_append_of_le_length, Segment.drop_encode]
  · rfl
  · rw [Segment.length_encode]
    exact Nat.le_add_right _ _

theorem length_datagram (first : OutSegment) (rest : List OutSegment) :
    (datagram first rest).length = ikcpOverheadLen + (behind first rest).length := by
  rw [datagram, List.flatMap_cons, List.length_append, Segment.length_encode, behind,
    List.length_append, Nat.add_assoc]

theorem within_iff :
    ikcpOverheadLen + 4 + 4 ≤ (datagram first rest).length ↔ 8 ≤ (behind first rest).length := by
  rw [length_datagram, Nat.add_assoc]
  exact Nat.add_le_add_iff_left

theorem byteAt_drop (p : List Byte) (n i : ℕ) : byteAt (p.drop n) i = byteAt p (n + i) := by
  simp [byteAt, List.getD_eq_getElem?_getD]

theorem byteAt_append_left {p : List Byte} {i : ℕ} (h : i < p.length) (more : List Byte) :
    byteAt (p ++ more) i = byteAt p i := by
  rw [byteAt, byteAt, List.getD_eq_getElem?_getD, List.getElem?_append_left h,
    List.getD_eq_getElem?_getD]

theorem decode32u_eq_zero (p : List Byte) : decode32u p = 0 ↔ ∀ i < 4, byteAt p i = 0 := by
  constructor
  · intro h i hi
    rw [decode32u] at h
    obtain rfl | rfl | rfl | rfl : i = 0 ∨ i = 1 ∨ i = 2 ∨ i = 3 := by omega
    all_goals omega
  · intro h
    have h₀ := h 0 (by decide)
    have h₁ := h 1 (by decide)
    have h₂ := h 2 (by decide)
    have h₃ := h 3 (by decide)
    rw [decode32u]
    omega

/-- In a datagram that is long enough the bytes are bytes behind the first header. -/
theorem decode_datagram_eq_zero (h : 8 ≤ (behind first rest).length) (beyond : List Byte) :
    decode32u ((datagram first rest ++ beyond).drop (ikcpOverheadLen + 4)) = 0
      ↔ ∀ i, 4 ≤ i → i < 8 → byteAt (behind first rest) i = 0 := by
  have hat : ∀ i < 4, byteAt ((datagram first rest ++ beyond).drop (ikcpOverheadLen + 4)) i
      = byteAt (behind first rest) (4 + i) := by
    intro i hi
    rw [byteAt_drop, byteAt_append_left, Nat.add_assoc, ← byteAt_drop, drop_datagram]
    rw [length_datagram]
    omega
  rw [decode32u_eq_zero]
  constructor
  · intro hz i hle hlt
    have := hz (i - 4) (by omega)
    rw [hat _ (by omega)] at this
    rwa [Nat.add_sub_cancel' hle] at this
  · intro hz i hi
    rw [hat i hi]
    exact hz _ (by omega) (by omega)

/-- Blanking changes a datagram unless its conversation is 0. -/
theorem blank_eq_self_iff :
    encode32u 0 ++ (datagram first rest).drop 4 = datagram first rest ↔ first.seg.conv = 0 := by
  have hsplit : datagram first rest
      = encode32u first.seg.conv.toNat ++ (datagram first rest).drop 4 := rfl
  constructor
  · intro h
    rw [hsplit] at h
    have hconv := List.append_inj_left h rfl
    apply UInt32.toNat_inj.mp
    rw [← decode32u_encode32u first.seg.conv.toNat_lt [], ← hconv]
    rfl
  · intro h
    conv_rhs => rw [hsplit, h]
    rfl

/-! ### The exact condition -/

theorem not_startsAccept_of_none (h : first.fragment = none) : ¬ first.StartsAccept := by
  rintro ⟨after, hafter, -⟩
  rw [h] at hafter
  exact nomatch hafter

theorem cmd_ne_zero (s : OutSegment) : UInt8.ofNat s.seg.cmd ≠ 0 := by
  have hcmd := s.cmd
  split at hcmd
  · rcases hcmd.1 with e | e | e
    all_goals rw [e]; decide
  · rw [hcmd]
    decide

/-- The command of a second segment stands where that of a packet is looked for. -/
theorem byteAt_behind_of_none (h : first.fragment = none) (s : OutSegment)
    (rest : List OutSegment) : byteAt (behind first (s :: rest)) 4 ≠ 0 := by
  have hdata : first.seg.data = [] := by
    have hcmd := first.cmd
    rw [h] at hcmd
    exact hcmd.2
  have hat : byteAt (behind first (s :: rest)) 4 = (UInt8.ofNat s.seg.cmd).toNat := by
    rw [behind, hdata]
    rfl
  rw [hat]
  intro e
  exact s.cmd_ne_zero (UInt8.toNat_inj.mp e)

theorem length_behind_of_none (h : first.fragment = none) :
    8 ≤ (behind first rest).length ↔ rest ≠ [] := by
  have hdata : first.seg.data = [] := by
    have hcmd := first.cmd
    rw [h] at hcmd
    exact hcmd.2
  rcases rest with - | ⟨s, rest⟩
  · rw [behind, hdata]
    simp
  · rw [behind, hdata, List.nil_append, List.flatMap_cons, List.length_append,
      Segment.length_encode]
    refine iff_of_true ?_ (List.cons_ne_nil s rest)
    show 8 ≤ 24 + _ + _
    omega

open Classical in
/-- The output, by what the four bytes are. -/
theorem output_iff (h : 8 ≤ (behind first rest).length) (beyond : List Byte) :
    (KcpSession.fnWriteDgram beyond (datagram first rest)
      = if first.StartsAccept then encode32u 0 ++ (datagram first rest).drop 4
        else datagram first rest)
      ↔ first.seg.conv = 0 ∨
        ((∀ i, 4 ≤ i → i < 8 → byteAt (behind first rest) i = 0) ↔ first.StartsAccept) := by
  rw [KcpSession.fnWriteDgram, s2cAcceptAct, ← decode_datagram_eq_zero h beyond,
    ← @blank_eq_self_iff first rest]
  by_cases hz : decode32u ((datagram first rest ++ beyond).drop (ikcpOverheadLen + 4)) = 0
  · by_cases hacc : first.StartsAccept
    · simp [hz, hacc]
    · simp [hz, hacc]
  · by_cases hacc : first.StartsAccept
    · simp only [hz, hacc, if_true, if_false, iff_true, or_false]
      exact eq_comm
    · simp [hz, hacc]

/-- **Exactness of the blanking.**  A datagram is treated as it should be exactly when
the four bytes at offset 28 tell an accept from any other. -/
theorem blanks_iff (beyond : List Byte) (first : OutSegment) (rest : List OutSegment) :
    Blanks beyond first rest ↔ Recognisable first rest := by
  have hblanks : Blanks beyond first rest ↔ 8 ≤ (behind first rest).length ∧
      (first.seg.conv = 0 ∨
        ((∀ i, 4 ≤ i → i < 8 → byteAt (behind first rest) i = 0) ↔ first.StartsAccept)) := by
    constructor
    · intro h
      have hlen := within_iff.mp h.within
      exact ⟨hlen, (output_iff hlen beyond).mp h.output⟩
    · rintro ⟨hlen, hbytes⟩
      exact ⟨(output_iff hlen beyond).mpr hbytes, within_iff.mpr hlen⟩
  rw [hblanks, Recognisable]
  rcases hf : first.fragment with - | ⟨before, after⟩
  · show _ ↔ rest ≠ []
    rw [← length_behind_of_none hf]
    refine and_iff_left_of_imp fun hlen => Or.inr (iff_of_false ?_ (not_startsAccept_of_none hf))
    intro hz
    obtain ⟨s, rest', rfl⟩ := List.exists_cons_of_ne_nil ((length_behind_of_none hf).mp hlen)
    exact byteAt_behind_of_none hf s rest' (hz 4 (by decide) (by decide))
  · exact Iff.rfl

/-! ### What a session sends -/

/-- The command and the padding of a header that the session wrote. -/
theorem bytes_of_header {header : PacketHeader} (hc : header.command < 2 ^ 16)
    (more : List Byte) :
    (PacketHeader.ofBytes (header.toBytes ++ more)).command = header.command
      ∧ ((∀ i, 4 ≤ i → i < 8 → byteAt (header.toBytes ++ more) i = 0) ↔ header.command = 0) := by
  have hcommand : (PacketHeader.ofBytes (header.toBytes ++ more)).command = header.command := by
    simp only [PacketHeader.ofBytes, decode16u, PacketHeader.toBytes, encode32u, encode16u, byteAt,
      List.cons_append, List.nil_append, List.drop_succ_cons, List.drop_zero, List.getD_cons_zero,
      List.getD_cons_succ, UInt8.toNat_ofNat']
    omega
  refine ⟨hcommand, ?_⟩
  constructor
  · intro h
    rw [← hcommand]
    show byteAt ((header.toBytes ++ more).drop 4) 0
      + byteAt ((header.toBytes ++ more).drop 4) 1 * 2 ^ 8 = 0
    have h₄ : byteAt (header.toBytes ++ more) (4 + 0) = 0 := h 4 (by decide) (by decide)
    have h₅ : byteAt (header.toBytes ++ more) (4 + 1) = 0 := h 5 (by decide) (by decide)
    rw [byteAt_drop, byteAt_drop]
    omega
  · intro h i hle hlt
    rw [byteAt_append_left hlt]
    simp only [PacketHeader.toBytes, h]
    obtain rfl | rfl | rfl | rfl : i = 4 ∨ i = 5 ∨ i = 6 ∨ i = 7 := by omega
    all_goals rfl

/-- The first fragment of a message that begins with such a header is told right, whatever
segments follow. -/
theorem recognisable_of_header {header : PacketHeader} {payload after : List Byte}
    (hc : header.command < 2 ^ 16) (hf : first.fragment = some ([], after))
    (hdata : first.seg.data = header.toBytes ++ payload) (rest : List OutSegment) :
    Recognisable first rest := by
  have hbehind : behind first rest
      = header.toBytes ++ (payload ++ rest.flatMap fun s => s.seg.encode) := by
    rw [behind, hdata, List.append_assoc]
  have hacc : first.StartsAccept ↔ header.command = 0 := by
    have hmessage : ∀ after', first.seg.data ++ after' = header.toBytes ++ (payload ++ after') := by
      intro after'
      rw [hdata, List.append_assoc]
    constructor
    · rintro ⟨after', -, -, hcommand⟩
      rw [hmessage, (bytes_of_header hc _).1] at hcommand
      exact hcommand
    · intro h
      refine ⟨after, hf, ?_⟩
      rw [hmessage]
      refine ⟨?_, ((bytes_of_header hc _).1).trans h⟩
      rw [List.length_append]
      exact Nat.le_add_right _ _
  rw [Recognisable, hf]
  refine ⟨?_, Or.inr ?_⟩
  · rw [hbehind, List.length_append]
    exact Nat.le_add_right _ _
  · rw [hacc, hbehind]
    exact (bytes_of_header hc _).2

/-- An acknowledgement with zeros behind it in the buffer goes out with the conversation
0. -/
theorem blanks_ack :
    ∃ first : OutSegment, first.seg.cmd = ikcpCmdAck ∧ ¬ first.StartsAccept
      ∧ KcpSession.fnWriteDgram (List.replicate 8 0) (datagram first [])
        = encode32u 0 ++ (datagram first []).drop 4
      ∧ encode32u 0 ++ (datagram first []).drop 4 ≠ datagram first []
      ∧ ¬ Blanks (List.replicate 8 0) first [] := by
  let first : OutSegment :=
    { seg :=
        { conv := 65536, cmd := ikcpCmdAck, frg := 0, wnd := 128, ts := 10, sn := 0, una := 1,
          data := [] }
      fragment := none
      cmd := ⟨Or.inl rfl, rfl⟩ }
  refine ⟨first, rfl, not_startsAccept_of_none rfl, by decide, ?_, ?_⟩
  · intro h
    exact absurd (blank_eq_self_iff.mp h) (by decide)
  · intro h
    exact absurd h.within (by decide)

end OutSegment

end PCGForUnity
