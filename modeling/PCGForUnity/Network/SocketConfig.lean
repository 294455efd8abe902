/-
PCGForUnity/Network/SocketConfig.lean

Addresses, packet headers and constants shared by the two ends of a connection
(`SocketConfig.h`, `kcp_config.h`, `CoreOpcodes.h`).

A packet on the stream is the eight bytes of a `PacketHeader` as the compiler lays it out
(`Size` in four bytes, `Command` in two, two bytes of padding, least significant byte first)
followed by `Size` payload bytes.

Design.  `packetFormat` is this as a format of frames (`Lib/Framing`), with the checks of the
receive path; so a value of type `Packet` is a packet that `IsValidSize` and `IsValidOpcode`
accept, and no result on packets has to assume it.

Addresses are compared in two ways, as in the code: `same` looks at the address and the port,
and the order that maps are sorted by looks at the address only.
-/
import PCGForUnity.Lib.Framing
import PCGForUnity.Network.MessageBuffer

namespace PCGForUnity

/-! ### Constants -/

/-- `RECV_BUFFER_SIZE`. -/
def recvBufferSize : Nat := 4096

/-- `sizeof(PacketHeader)`. -/
def sizeofPacketHeader : Nat := 8

/-- `C2S_CONNECT` -/
def c2sConnect : Nat := 0

/-- `S2C_ACCEPT_ACT` -/
def s2cAcceptAct : Nat := 0

/-- `S2C_DISCONNECT`. -/
def s2cDisconnect : Nat := 1

/-- `C2S_HEARTBEAT` -/
def c2sHeartbeat : Nat := 2

/-- `S2C_HEARTBEAT` -/
def s2cHeartbeat : Nat := 2

/-- `S2C_CRITICAL_ERROR`. -/
def s2cCriticalError : Nat := 3

/-- `HEART_BEAT_INTERVAL`, in milliseconds. -/
def heartBeatInterval : Nat := 6000

/-! ### Addresses and sessions -/

/-- `SockAddr_t`. -/
structure SockAddr where
  family : UInt16
  port : UInt16
  addr : UInt32
deriving DecidableEq, Repr

/-- `operator ==` of addresses. -/
def SockAddr.same (a b : SockAddr) : Bool := a.addr == b.addr && a.port == b.port

/-- `operator <` of addresses. -/
def SockAddr.less (a b : SockAddr) : Bool := decide (a.addr < b.addr)

namespace SockAddr

theorem same_iff {a b : SockAddr} : a.same b = true ↔ a.addr = b.addr ∧ a.port = b.port := by
  rw [same, Bool.and_eq_true, beq_iff_eq, beq_iff_eq]

theorem same_self (a : SockAddr) : a.same a = true := same_iff.mpr ⟨rfl, rfl⟩

theorem same_comm (a b : SockAddr) : a.same b = b.same a := by
  rw [same, same, Bool.beq_comm, Bool.beq_comm (a := a.port)]

theorem same_congr {a b : SockAddr} (h : a.same b = true) (c : SockAddr) :
    c.same a = c.same b := by
  obtain ⟨haddr, hport⟩ := same_iff.mp h
  rw [same, same, haddr, hport]

end SockAddr

/-- `socketSessionId`. -/
structure SocketSessionId where
  conv : UInt32
  addr : SockAddr
deriving DecidableEq, Repr

/-- `SessionStatus`. -/
inductive SessionStatus
  | disconnected
  | connecting
  | connected
deriving DecidableEq, Repr

/-- `ReadDataHandlerResult`. -/
inductive ReadDataHandlerResult
  | ok
  | error
  | waitingForQuery
deriving DecidableEq, Repr

/-- `SocketDataReceiveHandler`: the answer to a command and its data, which may
depend on everything received before. -/
abbrev DataHandler := List (Dispatch Byte) → Nat → List Byte → Bool

/-! ### Packet headers -/

/-- The byte at index `i`, zero past the end. -/
def byteAt (p : List Byte) (i : Nat) : Nat := (p.getD i 0).toNat

/-- `utils_decode32u`, least significant byte first. -/
def decode32u (p : List Byte) : Nat :=
  byteAt p 0 + byteAt p 1 * 2 ^ 8 + byteAt p 2 * 2 ^ 16 + byteAt p 3 * 2 ^ 24

/-- `utils_encode32u`. -/
def encode32u (l : Nat) : List Byte :=
  [UInt8.ofNat l, UInt8.ofNat (l / 2 ^ 8), UInt8.ofNat (l / 2 ^ 16), UInt8.ofNat (l / 2 ^ 24)]

/-- A word is read back from its bytes. -/
theorem decode32u_encode32u {l : Nat} (h : l < 2 ^ 32) (more : List Byte) :
    decode32u (encode32u l ++ more) = l := by
  simp only [decode32u, encode32u, byteAt, List.cons_append, List.nil_append,
    List.getD_cons_zero, List.getD_cons_succ, UInt8.toNat_ofNat']
  omega

/-- `utils_decode16u`. -/
def decode16u (p : List Byte) : Nat := byteAt p 0 + byteAt p 1 * 2 ^ 8

/-- `utils_encode16u`. -/
def encode16u (w : Nat) : List Byte := [UInt8.ofNat w, UInt8.ofNat (w / 2 ^ 8)]

/-- `struct PacketHeader`. -/
structure PacketHeader where
  size : Nat
  command : Nat
deriving DecidableEq, Repr

namespace PacketHeader

/-- `IsValidSize` -/
def isValidSize (h : PacketHeader) : Bool := decide (h.size < 0x10000)

/-- `IsValidOpcode` -/
def isValidOpcode (h : PacketHeader) : Bool := decide (h.command < 1024)

/-- The check both `ReadHeaderHandler`s make. -/
def isValid (h : PacketHeader) : Bool := h.isValidSize && h.isValidOpcode

/-- `reinterpret_cast<PacketHeader*>` of the bytes at a read pointer. -/
def ofBytes (p : List Byte) : PacketHeader :=
  { size := decode32u p, command := decode16u (p.drop 4) }

/-- The bytes of a header that `memcpy` sends, with zero padding. -/
def toBytes (h : PacketHeader) : List Byte :=
  encode32u h.size ++ encode16u h.command ++ [0, 0]

theorem length_toBytes (h : PacketHeader) : h.toBytes.length = sizeofPacketHeader := rfl

/-- A header whose fields fit their types is read back from its bytes. -/
theorem ofBytes_toBytes {h : PacketHeader} (hs : h.size < 2 ^ 32) (hc : h.command < 2 ^ 16) :
    ofBytes h.toBytes = h := by
  obtain ⟨s, c⟩ := h
  simp only [ofBytes, toBytes, decode32u, decode16u, encode32u, encode16u, byteAt,
    List.cons_append, List.nil_append, List.getD_cons_zero, List.getD_cons_succ, List.drop_succ_cons,
    List.drop_zero, UInt8.toNat_ofNat', PacketHeader.mk.injEq] at *
  omega

end PacketHeader

/-! ### Packets -/

/-- The format of packets on the stream. -/
def packetFormat : FrameFormat Byte where
  headerLen := sizeofPacketHeader
  valid := fun hdr => (PacketHeader.ofBytes hdr).isValid
  size := fun hdr => (PacketHeader.ofBytes hdr).size
  headerLen_pos := by decide

theorem packetFormat_valid (hdr : List Byte) :
    packetFormat.valid hdr = (PacketHeader.ofBytes hdr).isValid := rfl

theorem packetFormat_size (hdr : List Byte) :
    packetFormat.size hdr = (PacketHeader.ofBytes hdr).size := rfl

/-- A well-formed packet: header bytes that pass `IsValidSize` and
`IsValidOpcode`, and as many payload bytes as they announce. -/
abbrev Packet := Frame packetFormat

namespace Packet

/-- The packet with a given header and payload. -/
def ofHeader (h : PacketHeader) (payload : List Byte) (hs : h.size < 2 ^ 16)
    (hc : h.command < 1024) (hlen : payload.length = h.size) : Packet where
  hdr := h.toBytes
  payload := payload
  valid := by
    refine ⟨h.length_toBytes, ?_⟩
    have hs' : h.isValidSize = true := decide_eq_true hs
    have hc' : h.isValidOpcode = true := decide_eq_true hc
    show (PacketHeader.ofBytes h.toBytes).isValid = true
    rw [PacketHeader.ofBytes_toBytes (by omega) (by omega), PacketHeader.isValid, hs', hc']
    rfl
  length_payload := by
    show payload.length = (PacketHeader.ofBytes h.toBytes).size
    rw [PacketHeader.ofBytes_toBytes (by omega) (by omega)]
    exact hlen

theorem ofBytes_hdr_ofHeader (h : PacketHeader) {payload : List Byte} (hs : h.size < 2 ^ 16)
    (hc : h.command < 1024) (hlen : payload.length = h.size) :
    PacketHeader.ofBytes (ofHeader h payload hs hc hlen).hdr = h :=
  PacketHeader.ofBytes_toBytes (by omega) (by omega)

end Packet

end PCGForUnity
