/-
PCGForUnity/Network/ReadBuffers.lean

The read loop that `KcpSession` and `KcpClient` have in common: `ReadHandler` moves the bytes of
the read buffer into the header buffer and, once `ReadHeaderHandler` accepts the header, into
the packet buffer, and calls `ReadDataHandler` for each packet complete.

Design.  The two classes hold the same three buffers and run the same loop around their own
`ReadDataHandler`, so the loop is written once, over an `Endpoint` with the other members of
the class; what `ReadDataHandler` does to an end point is a parameter, and may reset the
buffers or close the end.

`Holds` relates the buffers to the reading side of the framing library, and
`readHandler_refines` shows that the loop is its `run`, as long as the handler leaves the
buffers.  What the loop keeps of the members, for any property that the handler keeps, has
rules of its own.
-/
import PCGForUnity.Network.SocketConfig

namespace PCGForUnity

/-- The buffers of a `KcpSession` or a `KcpClient`. -/
structure ReadBuffers where
  headerBuffer : MessageBuffer
  packetBuffer : MessageBuffer
  readBuffer : MessageBuffer
deriving DecidableEq, Repr

namespace ReadBuffers

/-! ### The buffers as coded -/

/-- The buffers as the constructors set them up. -/
def init : ReadBuffers :=
  { headerBuffer := .ofSize sizeofPacketHeader
    packetBuffer := .new
    readBuffer := .ofSize recvBufferSize }

/-- The three `Reset` calls of `OnDisconnected`. -/
def reset (b : ReadBuffers) : ReadBuffers :=
  { headerBuffer := b.headerBuffer.reset
    packetBuffer := b.packetBuffer.reset
    readBuffer := b.readBuffer.reset }

/-- `ReadHeaderHandler`. -/
def readHeaderHandler (b : ReadBuffers) : Option (ReadBuffers × Bool) := do
  let hdr ← b.headerBuffer.readBytes sizeofPacketHeader
  let header := PacketHeader.ofBytes hdr
  if !header.isValidSize || !header.isValidOpcode then some (b, false)
  else some ({ b with packetBuffer := b.packetBuffer.reset.resize header.size }, true)

/-- The header part of the loop body of `ReadHandler`; `false` where the loop is left. -/
def readHeader (b : ReadBuffers) : Option (ReadBuffers × Bool) :=
  if b.headerBuffer.getRemainingSpace > 0 then do
    let readHeaderSize := min b.readBuffer.getActiveSize b.headerBuffer.getRemainingSpace
    let bytes ← b.readBuffer.readBytes readHeaderSize
    let headerBuffer ← b.headerBuffer.write bytes
    let b := { b with headerBuffer, readBuffer := b.readBuffer.readCompleted readHeaderSize }
    if b.headerBuffer.getRemainingSpace > 0 then some (b, false)
    else b.readHeaderHandler
  else some (b, true)

/-- The payload part of the loop body; `false` where the loop is left. -/
def readPayload (b : ReadBuffers) : Option (ReadBuffers × Bool) :=
  if b.packetBuffer.getRemainingSpace > 0 then do
    let readDataSize := min b.readBuffer.getActiveSize b.packetBuffer.getRemainingSpace
    let bytes ← b.readBuffer.readBytes readDataSize
    let packetBuffer ← b.packetBuffer.write bytes
    let b := { b with packetBuffer, readBuffer := b.readBuffer.readCompleted readDataSize }
    if b.packetBuffer.getRemainingSpace > 0 then some (b, false)
    else some (b, true)
  else some (b, true)

/-- What `ReadDataHandler` reads: the header and the payload received. -/
def received (b : ReadBuffers) : Option (Dispatch Byte) := do
  let hdr ← b.headerBuffer.readBytes sizeofPacketHeader
  let payload ← b.packetBuffer.readBytes b.packetBuffer.getActiveSize
  some ⟨hdr, payload⟩

end ReadBuffers

/-- One end of a connection: its buffers and its other members. -/
structure Endpoint (σ : Type) where
  buffers : ReadBuffers
  members : σ

namespace Endpoint

variable {σ : Type}

/-- One round of the loop of `ReadHandler`; `false` where the loop is left.
`handle` is what the class does with a packet, from `ReadDataHandler` to the end
of the loop body. -/
def readStep (handle : Endpoint σ → Dispatch Byte → Endpoint σ) (e : Endpoint σ) :
    Option (Endpoint σ × Bool) :=
  if e.buffers.readBuffer.getActiveSize > 0 then do
    let (b, ok) ← e.buffers.readHeader
    if ok then
      let (b, ok) ← b.readPayload
      if ok then
        let d ← b.received
        some (handle { e with buffers := b } d, true)
      else some ({ e with buffers := b }, false)
    else some ({ e with buffers := b }, false)
  else some (e, false)

/-- The loop; out of fuel it does not end. -/
def readLoop (handle : Endpoint σ → Dispatch Byte → Endpoint σ) :
    Nat → Endpoint σ → Option (Endpoint σ)
  | 0, _ => none
  | fuel + 1, e => do
      let (e, ok) ← e.readStep handle
      if ok then readLoop handle fuel e else some e

/-- `ReadHandler`. -/
def readHandler (handle : Endpoint σ → Dispatch Byte → Endpoint σ) (e : Endpoint σ) :
    Option (Endpoint σ) :=
  readLoop handle (2 * e.buffers.readBuffer.getActiveSize + 2) e

end Endpoint

namespace ReadBuffers

/-! ### The buffers and the reading side of the format -/

/-- The buffers hold what the reading side has received. -/
structure Holds (b : ReadBuffers) (r : Receiver Byte) : Prop where
  header : b.headerBuffer.Stores sizeofPacketHeader r.hdr
  packet : b.packetBuffer.Stores r.size r.payload
  wf : b.readBuffer.WF
  length : b.readBuffer.storage.length = recvBufferSize
  wpos : b.readBuffer.wpos = r.used
  unread : b.readBuffer.unread = r.unread

/-- All positions are in order and inside the storages. -/
def WF (b : ReadBuffers) : Prop := b.readBuffer.WF ∧ b.headerBuffer.WF ∧ b.packetBuffer.WF

variable {b : ReadBuffers} {r : Receiver Byte}

theorem Holds.positions (h : b.Holds r) : b.WF := ⟨h.wf, h.header.wf, h.packet.wf⟩

theorem holds_init : init.Holds ⟨[], [], MessageBuffer.bufferSize, [], 0⟩ :=
  ⟨.ofSize _, .ofSize _, MessageBuffer.wf_ofSize _, MessageBuffer.storage_ofSize_length _, rfl,
    MessageBuffer.unread_ofSize _⟩

theorem Holds.reset (h : b.Holds r) : b.reset.Holds r.reset :=
  ⟨h.header.reset, h.packet.reset, MessageBuffer.wf_reset _, h.length, rfl,
    MessageBuffer.unread_reset _⟩

theorem Holds.resetHeader (h : b.Holds r) :
    { b with headerBuffer := b.headerBuffer.reset }.Holds { r with hdr := [] } :=
  ⟨h.header.reset, h.packet, h.wf, h.length, h.wpos, h.unread⟩

theorem Holds.getActiveSize (h : b.Holds r) : b.readBuffer.getActiveSize = r.unread.length := by
  rw [h.wf.getActiveSize_eq, h.unread]

/-- Taking bytes off the read buffer. -/
theorem Holds.readBytes (h : b.Holds r) {n : Nat} (hn : n ≤ r.unread.length) :
    b.readBuffer.readBytes n = some (r.unread.take n) := by
  rw [← h.unread] at hn ⊢
  exact h.wf.readBytes_eq hn

theorem Holds.getRemainingSpace (h : b.Holds r) :
    b.readBuffer.getRemainingSpace = recvBufferSize - r.used := by
  rw [h.wf.getRemainingSpace_eq, h.length, h.wpos]

theorem Holds.used_le (h : b.Holds r) : r.used ≤ recvBufferSize := by
  rw [← h.wpos, ← h.length]
  exact h.wf.wpos_le

/-- A message that fits behind those already in the read buffer. -/
theorem Holds.fill (h : b.Holds r) {msg : List Byte} (hfit : r.used + msg.length ≤ recvBufferSize) :
    ∃ rb, b.readBuffer.copyIn msg = some rb ∧
      Holds { b with readBuffer := rb.writeCompleted msg.length }
        { r with unread := r.unread ++ msg, used := r.used + msg.length } := by
  have hfit' : b.readBuffer.wpos + msg.length ≤ b.readBuffer.storage.length := by
    rwa [h.wpos, h.length]
  obtain ⟨rb, hcopy, hwritten⟩ := MessageBuffer.copyIn_eq_written hfit'
  refine ⟨rb, hcopy, h.header, h.packet, ?_, ?_, ?_, ?_⟩
  · rw [hwritten]
    exact h.wf.written hfit'
  · rw [hwritten, MessageBuffer.storage_written_length hfit', h.length]
  · rw [hwritten, MessageBuffer.written_wpos, h.wpos]
  · rw [hwritten, h.wf.unread_written hfit', h.unread]

/-- The bytes kept of a packet not complete yet: those in the header buffer and,
once that is full, those in the packet buffer. -/
def buffered (b : ReadBuffers) : List Byte :=
  b.headerBuffer.unread
    ++ if b.headerBuffer.getRemainingSpace = 0 then b.packetBuffer.unread else []

theorem Holds.buffered_eq (h : b.Holds r) {rest : List Byte}
    (hp : r.Pending packetFormat rest) : b.buffered = rest := by
  rw [buffered, h.header.unread, h.packet.unread, h.header.getRemainingSpace]
  rcases hp with ⟨hlt, hhdr⟩ | ⟨hv, -, hhdr, hpay, -⟩
  · have : sizeofPacketHeader - rest.length ≠ 0 := Nat.sub_ne_zero_of_lt hlt
    rw [hhdr, if_neg this, List.append_nil]
  · have hfull : (rest.take packetFormat.headerLen).length = sizeofPacketHeader := hv.1
    rw [hhdr, hfull, Nat.sub_self, if_pos rfl, hpay, List.take_append_drop]

/-- `m_readBuffer.Reset()`. -/
theorem Holds.resetRead (h : b.Holds r) :
    Holds { b with readBuffer := b.readBuffer.reset } { r with unread := [], used := 0 } :=
  ⟨h.header, h.packet, MessageBuffer.wf_reset _, h.length, rfl, MessageBuffer.unread_reset _⟩

/-- The buffers after bytes moved from the read buffer into the header buffer. -/
theorem Holds.moveHeader (h : b.Holds r) {n : Nat} (hn : n ≤ r.unread.length)
    {headerBuffer : MessageBuffer} {hdr : List Byte}
    (hh : headerBuffer.Stores sizeofPacketHeader hdr) :
    Holds { b with headerBuffer, readBuffer := b.readBuffer.readCompleted n }
      { r with hdr, unread := r.unread.drop n } :=
  ⟨hh, h.packet, h.wf.readCompleted (by rwa [h.unread]), h.length, h.wpos, by
    rw [MessageBuffer.unread_readCompleted, h.unread]⟩

/-- The buffers after bytes moved from the read buffer into the packet buffer. -/
theorem Holds.movePayload (h : b.Holds r) {n : Nat} (hn : n ≤ r.unread.length)
    {packetBuffer : MessageBuffer} {payload : List Byte}
    (hp : packetBuffer.Stores r.size payload) :
    Holds { b with packetBuffer, readBuffer := b.readBuffer.readCompleted n }
      { r with payload, unread := r.unread.drop n } :=
  ⟨h.header, hp, h.wf.readCompleted (by rwa [h.unread]), h.length, h.wpos, by
    rw [MessageBuffer.unread_readCompleted, h.unread]⟩

/-- `ReadHeaderHandler` is the check of the format. -/
theorem Holds.readHeaderHandler (h : b.Holds r) (hfull : r.hdr.length = sizeofPacketHeader) :
    ∃ b', b.readHeaderHandler = some (b', packetFormat.valid r.hdr) ∧
      b'.Holds (if packetFormat.valid r.hdr then
        { r with payload := [], size := packetFormat.size r.hdr } else r) := by
  have hread : b.headerBuffer.readBytes sizeofPacketHeader = some r.hdr := by
    rw [← hfull]
    exact h.header.readBytes
  have hcheck : (!(PacketHeader.ofBytes r.hdr).isValidSize ||
      !(PacketHeader.ofBytes r.hdr).isValidOpcode) = !packetFormat.valid r.hdr := by
    rw [packetFormat_valid, PacketHeader.isValid, Bool.not_and]
  have heq : b.readHeaderHandler =
      if !(PacketHeader.ofBytes r.hdr).isValidSize || !(PacketHeader.ofBytes r.hdr).isValidOpcode then
        some (b, false)
      else some ({ b with
        packetBuffer := b.packetBuffer.reset.resize (PacketHeader.ofBytes r.hdr).size }, true) := by
    rw [ReadBuffers.readHeaderHandler, hread, Option.bind_eq_bind, Option.bind_some]
  by_cases hv : packetFormat.valid r.hdr = true
  · rw [hv] at hcheck
    rw [hv, if_pos rfl]
    refine ⟨{ b with packetBuffer := b.packetBuffer.reset.resize (packetFormat.size r.hdr) }, ?_,
      h.header, .reset_resize _ _, h.wf, h.length, h.wpos, h.unread⟩
    rw [heq, hcheck, if_neg (by decide), packetFormat_size]
  · have hv : packetFormat.valid r.hdr = false := eq_false_of_ne_true hv
    rw [hv] at hcheck
    rw [hv, if_neg Bool.false_ne_true]
    refine ⟨b, ?_, h⟩
    rw [heq, hcheck, if_pos (by decide)]

theorem Holds.length_hdr_le (h : b.Holds r) : r.hdr.length ≤ packetFormat.headerLen :=
  h.header.length_le

/-- The header part of the loop body. -/
theorem Holds.readHeader (h : b.Holds r) :
    ∃ b', b.readHeader = some (b', (r.fillHeader packetFormat).2) ∧
      b'.Holds (r.fillHeader packetFormat).1 := by
  by_cases hlt : r.hdr.length < packetFormat.headerLen
  · have hpos : b.headerBuffer.getRemainingSpace > 0 := by
      rw [h.header.getRemainingSpace]
      exact Nat.sub_pos_of_lt hlt
    set n := min r.unread.length (packetFormat.headerLen - r.hdr.length) with hn
    have hsize : min b.readBuffer.getActiveSize b.headerBuffer.getRemainingSpace = n := by
      rw [h.getActiveSize, h.header.getRemainingSpace]
      rfl
    have hle : n ≤ r.unread.length := Nat.min_le_left _ _
    have hlen : (r.unread.take n).length = n := by rw [List.length_take, Nat.min_eq_left hle]
    obtain ⟨hb, hwrite, hstores⟩ := h.header.write (r.unread.take n) (by
      rw [hlen]
      show r.hdr.length + n ≤ packetFormat.headerLen
      omega)
    have hmoved := h.moveHeader hle hstores
    have hrem := hstores.getRemainingSpace
    by_cases hshort : (r.hdr ++ r.unread.take n).length < packetFormat.headerLen
    · -- still short
      refine ⟨{ b with headerBuffer := hb, readBuffer := b.readBuffer.readCompleted n }, ?_, ?_⟩
      · have : hb.getRemainingSpace > 0 := by
          rw [hrem]
          exact Nat.sub_pos_of_lt hshort
        simp only [ReadBuffers.readHeader, if_pos hpos, hsize, h.readBytes hle, hwrite,
          Option.bind_eq_bind, Option.bind_some, this, if_true, Receiver.fillHeader, if_pos hlt,
          ← hn, if_pos hshort]
      · simpa only [Receiver.fillHeader, if_pos hlt, ← hn, if_pos hshort] using hmoved
    · -- full now, so that its handler is called
      have hfull : (r.hdr ++ r.unread.take n).length = sizeofPacketHeader :=
        Nat.le_antisymm hmoved.length_hdr_le (Nat.not_lt.mp hshort)
      obtain ⟨b', hhandler, hholds⟩ := hmoved.readHeaderHandler hfull
      have hzero : ¬ hb.getRemainingSpace > 0 := by
        rw [hrem, hfull, Nat.sub_self]
        exact Nat.lt_irrefl 0
      refine ⟨b', ?_, ?_⟩
      · simp only [ReadBuffers.readHeader, if_pos hpos, hsize, h.readBytes hle, hwrite,
          Option.bind_eq_bind, Option.bind_some, if_neg hzero, hhandler, Receiver.fillHeader,
          if_pos hlt, ← hn, if_neg hshort]
        split <;> simp_all
      · simp only [Receiver.fillHeader, if_pos hlt, ← hn, if_neg hshort]
        split <;> simp_all
  · -- it was full before
    have hzero : ¬ b.headerBuffer.getRemainingSpace > 0 := by
      rw [h.header.getRemainingSpace]
      exact Nat.not_lt.mpr (Nat.le_of_eq (Nat.sub_eq_zero_of_le (Nat.not_lt.mp hlt)))
    rw [Receiver.fillHeader, if_neg hlt]
    exact ⟨b, by rw [ReadBuffers.readHeader, if_neg hzero], h⟩

/-- The payload part of the loop body. -/
theorem Holds.readPayload (h : b.Holds r) :
    ∃ b', b.readPayload = some (b', r.fillPayload.2) ∧ b'.Holds r.fillPayload.1 := by
  by_cases hlt : r.payload.length < r.size
  · have hpos : b.packetBuffer.getRemainingSpace > 0 := by
      rw [h.packet.getRemainingSpace]
      exact Nat.sub_pos_of_lt hlt
    set n := min r.unread.length (r.size - r.payload.length) with hn
    have hsize : min b.readBuffer.getActiveSize b.packetBuffer.getRemainingSpace = n := by
      rw [h.getActiveSize, h.packet.getRemainingSpace]
    have hle : n ≤ r.unread.length := Nat.min_le_left _ _
    have hlen : (r.unread.take n).length = n := by rw [List.length_take, Nat.min_eq_left hle]
    obtain ⟨hb, hwrite, hstores⟩ := h.packet.write (r.unread.take n) (by
      rw [hlen]
      omega)
    refine ⟨{ b with packetBuffer := hb, readBuffer := b.readBuffer.readCompleted n }, ?_, ?_⟩
    · have hrem := hstores.getRemainingSpace
      simp only [ReadBuffers.readPayload, if_pos hpos, hsize, h.readBytes hle, hwrite,
        Option.bind_eq_bind, Option.bind_some, Receiver.fillPayload, if_pos hlt, ← hn]
      by_cases hshort : (r.payload ++ r.unread.take n).length < r.size
      · rw [if_pos (by rw [hrem]; exact Nat.sub_pos_of_lt hshort),
          decide_eq_false (Nat.not_le.mpr hshort)]
      · rw [if_neg (by rw [hrem]; exact Nat.not_lt.mpr (Nat.le_of_eq (Nat.sub_eq_zero_of_le
          (Nat.not_lt.mp hshort)))), decide_eq_true (Nat.not_lt.mp hshort)]
    · simpa only [Receiver.fillPayload, if_pos hlt, ← hn] using h.movePayload hle hstores
  · have hzero : ¬ b.packetBuffer.getRemainingSpace > 0 := by
      rw [h.packet.getRemainingSpace]
      exact Nat.not_lt.mpr (Nat.le_of_eq (Nat.sub_eq_zero_of_le (Nat.not_lt.mp hlt)))
    rw [Receiver.fillPayload, if_neg hlt]
    exact ⟨b, by rw [ReadBuffers.readPayload, if_neg hzero], h⟩

theorem Holds.received (h : b.Holds r) (hfull : r.hdr.length = sizeofPacketHeader) :
    b.received = some ⟨r.hdr, r.payload⟩ := by
  have hread : b.headerBuffer.readBytes sizeofPacketHeader = some r.hdr := by
    rw [← hfull]
    exact h.header.readBytes
  have hpay : b.packetBuffer.readBytes b.packetBuffer.getActiveSize = some r.payload := by
    rw [h.packet.getActiveSize]
    exact h.packet.readBytes
  rw [ReadBuffers.received, hread, hpay]
  rfl

end ReadBuffers

/-! ### The loop and the run of the reading side -/

namespace Endpoint

variable {σ : Type} {handle : Endpoint σ → Dispatch Byte → Endpoint σ}
  {act : σ → Dispatch Byte → σ × Bool}

/-- What a class does with a packet, told by its other members: these change, and
the buffers are either all reset or have the header taken out. -/
def HandlesBy (handle : Endpoint σ → Dispatch Byte → Endpoint σ)
    (act : σ → Dispatch Byte → σ × Bool) : Prop :=
  ∀ e d, handle e d =
    { buffers := if (act e.members d).2 then e.buffers.reset
        else { e.buffers with headerBuffer := e.buffers.headerBuffer.reset }
      members := (act e.members d).1 }

/-- The endpoint is in the state of the reading side with given other members. -/
def Is (e : Endpoint σ) (s : Receiver Byte × σ) : Prop := e.buffers.Holds s.1 ∧ e.members = s.2

variable {e : Endpoint σ} {r : Receiver Byte}

theorem handle_is (hact : HandlesBy handle act) (h : e.buffers.Holds r) :
    (handle e ⟨r.hdr, r.payload⟩).Is (r.deliver act e.members) := by
  rw [hact, Receiver.deliver]
  rcases act e.members ⟨r.hdr, r.payload⟩ with ⟨m, - | -⟩
  · exact ⟨h.resetHeader, rfl⟩
  · exact ⟨h.reset, rfl⟩

/-- One round of the loop is a step of the reading side. -/
theorem readStep_refines (hact : HandlesBy handle act) (h : e.buffers.Holds r) :
    ∃ e', e.readStep handle = some (e', (r.step packetFormat act e.members).2) ∧
      e'.Is (r.step packetFormat act e.members).1 := by
  by_cases hnil : r.unread = []
  · have hzero : ¬ e.buffers.readBuffer.getActiveSize > 0 := by
      rw [h.getActiveSize, hnil]
      exact Nat.lt_irrefl 0
    rw [Receiver.step, if_pos hnil]
    exact ⟨e, by rw [readStep, if_neg hzero], h, rfl⟩
  · have hpos : e.buffers.readBuffer.getActiveSize > 0 := by
      rw [h.getActiveSize]
      exact List.length_pos_iff.mpr hnil
    obtain ⟨b₁, hread, h₁⟩ := h.readHeader
    rw [readStep, if_pos hpos, hread, Receiver.step, if_neg hnil]
    rcases hr : r.fillHeader packetFormat with ⟨r₁, - | -⟩
    · rw [hr] at h₁
      exact ⟨_, rfl, h₁, rfl⟩
    · rw [hr] at h₁
      have hfull : r₁.hdr.length = sizeofPacketHeader :=
        Nat.le_antisymm h₁.length_hdr_le (Receiver.le_length_hdr_of_fillHeader hr)
      obtain ⟨b₂, hpay, h₂⟩ := h₁.readPayload
      rcases hr₂ : r₁.fillPayload with ⟨r₂, - | -⟩
      · rw [hr₂] at h₂ hpay
        exact ⟨{ e with buffers := b₂ }, by simp [hpay, hr₂], by simpa [hr₂] using ⟨h₂, rfl⟩⟩
      · rw [hr₂] at h₂ hpay
        have hhdr : r₂.hdr = r₁.hdr := by
          have := congrArg (fun s => s.1.hdr) hr₂
          rw [← this, Receiver.fillPayload]
          split <;> rfl
        have hrec := h₂.received (by rw [hhdr]; exact hfull)
        refine ⟨handle { e with buffers := b₂ } ⟨r₂.hdr, r₂.payload⟩, by simp [hpay, hrec, hr₂], ?_⟩
        simpa [hr₂] using handle_is (e := { e with buffers := b₂ }) hact h₂

/-- The loop is the run of the reading side. -/
theorem readLoop_refines (hact : HandlesBy handle act) {fuel : Nat} (h : e.buffers.Holds r)
    {s : Receiver Byte × σ} (hs : r.run packetFormat act fuel e.members = some s) :
    ∃ e', e.readLoop handle fuel = some e' ∧ e'.Is s := by
  induction fuel generalizing e r with
  | zero => cases hs
  | succ fuel ih =>
      obtain ⟨e₁, hstep, hb, hm⟩ := readStep_refines hact h
      rcases hr : r.step packetFormat act e.members with ⟨s₁, - | -⟩
      · rw [hr] at hstep hb hm
        rw [Receiver.run_stop _ hr] at hs
        obtain rfl := Option.some.inj hs
        exact ⟨e₁, by simp [readLoop, hstep], hb, hm⟩
      · rw [hr] at hstep hb hm
        rw [Receiver.run_succ _ hr, ← hm] at hs
        obtain ⟨e', hloop, hi⟩ := ih hb hs
        exact ⟨e', by simp [readLoop, hstep, hloop], hi⟩

/-- `ReadHandler` is the run of the reading side, and ends. -/
theorem readHandler_refines (hact : HandlesBy handle act) (h : e.buffers.Holds r) :
    ∃ e' s, r.run packetFormat act (2 * r.unread.length + 2) e.members = some s ∧
      e.readHandler handle = some e' ∧ e'.Is s := by
  have hm : r.measure packetFormat < 2 * r.unread.length + 2 := by
    rw [Receiver.measure]
    split <;> omega
  obtain ⟨s, hs⟩ := Receiver.run_isSome act e.members hm
  obtain ⟨e', hloop, hi⟩ := readLoop_refines hact h hs
  refine ⟨e', s, hs, ?_, hi⟩
  rw [readHandler, h.getActiveSize]
  exact hloop

/-! ### What the loop keeps of the members -/

section Preserves

variable {P : σ → Prop}

/-- What handling a packet keeps of the members, a round keeps. -/
theorem readStep_preserves (hP : ∀ e d, P e.members → P (handle e d).members) {e e' : Endpoint σ}
    {ok : Bool} (h : P e.members) (hstep : e.readStep handle = some (e', ok)) : P e'.members := by
  rw [readStep] at hstep
  split at hstep
  · obtain ⟨⟨b, ok₁⟩, -, hstep⟩ := Option.bind_eq_some_iff.mp hstep
    cases ok₁ with
    | false =>
        cases hstep
        exact h
    | true =>
        obtain ⟨⟨b₂, ok₂⟩, -, hstep⟩ := Option.bind_eq_some_iff.mp hstep
        cases ok₂ with
        | false =>
            cases hstep
            exact h
        | true =>
            obtain ⟨d, -, hstep⟩ := Option.bind_eq_some_iff.mp hstep
            cases hstep
            exact hP _ d h
  · cases hstep
    exact h

theorem readLoop_preserves (hP : ∀ e d, P e.members → P (handle e d).members) {fuel : Nat}
    {e e' : Endpoint σ} (h : P e.members) (hloop : e.readLoop handle fuel = some e') :
    P e'.members := by
  induction fuel generalizing e with
  | zero => cases hloop
  | succ fuel ih =>
      obtain ⟨⟨e₁, ok⟩, hstep, hloop⟩ := Option.bind_eq_some_iff.mp hloop
      have h₁ : P e₁.members := readStep_preserves hP h hstep
      cases ok with
      | false =>
          cases hloop
          exact h₁
      | true => exact ih h₁ hloop

theorem readHandler_preserves (hP : ∀ e d, P e.members → P (handle e d).members)
    {e e' : Endpoint σ} (h : P e.members) (hread : e.readHandler handle = some e') :
    P e'.members :=
  readLoop_preserves hP h hread

end Preserves

/-! ### Members that the loop does not look at -/

/-- The endpoint with its other members changed. -/
def mapMembers (g : σ → σ) (e : Endpoint σ) : Endpoint σ := { e with members := g e.members }

variable {g : σ → σ}

/-- If handling a packet commutes with a change of the members, so does a round. -/
theorem readStep_mapMembers
    (hg : ∀ e d, handle (e.mapMembers g) d = (handle e d).mapMembers g) (e : Endpoint σ) :
    (e.mapMembers g).readStep handle
      = (e.readStep handle).map fun r => (r.1.mapMembers g, r.2) := by
  rw [readStep, readStep]
  show (if e.buffers.readBuffer.getActiveSize > 0 then e.buffers.readHeader.bind _ else _) = _
  split
  · show _ = Option.map _ (e.buffers.readHeader.bind _)
    rcases e.buffers.readHeader with - | ⟨b, - | -⟩
    · rfl
    · rfl
    · show b.readPayload.bind _ = Option.map _ (b.readPayload.bind _)
      rcases b.readPayload with - | ⟨b', - | -⟩
      · rfl
      · rfl
      · show b'.received.bind _ = Option.map _ (b'.received.bind _)
        rcases b'.received with - | d
        · rfl
        · exact congrArg (fun e' => some (e', true)) (hg { e with buffers := b' } d)
  · rfl

theorem readLoop_mapMembers
    (hg : ∀ e d, handle (e.mapMembers g) d = (handle e d).mapMembers g) (fuel : Nat)
    (e : Endpoint σ) :
    (e.mapMembers g).readLoop handle fuel = (e.readLoop handle fuel).map (mapMembers g) := by
  induction fuel generalizing e with
  | zero => rfl
  | succ fuel ih =>
      rw [readLoop, readLoop, readStep_mapMembers hg]
      rcases e.readStep handle with - | ⟨e', - | -⟩
      · rfl
      · rfl
      · exact ih e'

theorem readHandler_mapMembers
    (hg : ∀ e d, handle (e.mapMembers g) d = (handle e d).mapMembers g) (e : Endpoint σ) :
    (e.mapMembers g).readHandler handle = (e.readHandler handle).map (mapMembers g) :=
  readLoop_mapMembers hg _ e

end Endpoint

end PCGForUnity
