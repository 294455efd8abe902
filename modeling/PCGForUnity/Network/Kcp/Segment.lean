/-
PCGForUnity/Network/Kcp/Segment.lean

The segments of KCP (`ikcp.c`): how numbers are compared, and how a segment stands in a
datagram.

`_itimediff` makes the difference an `IUINT32` before it returns it as a `long`.  It has a
sign only where `long` has 32 bits, as with the compilers for Windows; so the width is a
parameter of all that compares numbers or times (`LongWidth`).

What `ikcp_encode_seg` writes is read back by the head of the loop of `ikcp_input`, whatever
follows it (`decode_encode`).

Design.  A header is a fixed number of bytes, in little-endian order, so reading one takes a
list apart from the front and gives back the rest.  `Fits` bounds the members that are
narrower in a datagram than in the struct: a command and a fragment of a byte, a window of
two.
-/
import PCGForUnity.Lib.Fragments
import PCGForUnity.Lib.SerialNumber
import PCGForUnity.Network.AcceptBlanking

namespace PCGForUnity

/-- The width of `long`. -/
inductive LongWidth
  | bits32
  | bits64
deriving DecidableEq, Repr

/-- `_itimediff` -/
def itimediff (long : LongWidth) (later earlier : UInt32) : ℤ :=
  match long with
  | .bits32 => Serial.signed (later - earlier)
  | .bits64 => (later - earlier).toNat

theorem ofInt_itimediff (later earlier : UInt32) :
    Int32.ofInt (itimediff .bits32 later earlier) = (later - earlier).toInt32 :=
  Int32.ofInt_toInt _

/-- The members of `IKCPSEG` that are sent. -/
structure IKCPSEG where
  conv : UInt32
  cmd : ℕ
  frg : ℕ
  wnd : UInt32
  ts : UInt32
  sn : UInt32
  una : UInt32
  data : List Byte
deriving DecidableEq, Repr

namespace IKCPSEG

/-- The segment as `KcpSession` sees it. -/
def toSegment (seg : IKCPSEG) : Segment where
  conv := seg.conv
  cmd := seg.cmd
  frg := seg.frg
  wnd := seg.wnd.toNat
  ts := seg.ts.toNat
  sn := seg.sn.toNat
  una := seg.una.toNat
  data := seg.data

/-- `ikcp_encode_seg`, and the data behind it. -/
def encode (seg : IKCPSEG) : List Byte := seg.toSegment.encode

/-- The fragment that a segment carries. -/
def fragment (seg : IKCPSEG) : Fragment Byte := ⟨seg.frg, seg.data⟩

/-- The header that `ikcp_input` reads, and `len`. -/
def decode (data : List Byte) : IKCPSEG × ℕ :=
  ({ conv := UInt32.ofNat (decode32u data)
     cmd := byteAt data 4
     frg := byteAt data 5
     wnd := UInt32.ofNat (decode16u (data.drop 6))
     ts := UInt32.ofNat (decode32u (data.drop 8))
     sn := UInt32.ofNat (decode32u (data.drop 12))
     una := UInt32.ofNat (decode32u (data.drop 16))
     data := [] }, decode32u (data.drop 20))

/-- The members fit the bytes they are written to. -/
structure Fits (seg : IKCPSEG) : Prop where
  cmd : seg.cmd < 2 ^ 8
  frg : seg.frg < 2 ^ 8
  wnd : seg.wnd.toNat < 2 ^ 16
  data : seg.data.length < 2 ^ 31

theorem length_encode (seg : IKCPSEG) : seg.encode.length = ikcpOverheadLen + seg.data.length :=
  seg.toSegment.length_encode

theorem drop_encode (seg : IKCPSEG) (more : List Byte) :
    (seg.encode ++ more).drop ikcpOverheadLen = seg.data ++ more := by
  have hle : ikcpOverheadLen ≤ seg.encode.length := by
    rw [length_encode]
    exact Nat.le_add_right _ _
  rw [List.drop_append_of_le_length hle]
  exact congrArg (· ++ more) seg.toSegment.drop_encode

theorem byteAt_lt (p : List Byte) (i : ℕ) : byteAt p i < 2 ^ 8 := UInt8.toNat_lt _

theorem decode16u_encode16u {w : ℕ} (h : w < 2 ^ 16) (more : List Byte) :
    decode16u (encode16u w ++ more) = w := by
  simp only [decode16u, encode16u, byteAt, List.cons_append, List.nil_append, List.getD_cons_zero,
    List.getD_cons_succ, UInt8.toNat_ofNat']
  omega

/-- **What is encoded is read back**, whatever follows it. -/
theorem decode_encode {seg : IKCPSEG} (h : seg.Fits) (more : List Byte) :
    decode (seg.encode ++ more) = ({ seg with data := [] }, seg.data.length) := by
  have hcmd : byteAt (seg.encode ++ more) 4 = seg.cmd := by
    show (UInt8.ofNat seg.cmd).toNat = seg.cmd
    rw [UInt8.toNat_ofNat', Nat.mod_eq_of_lt h.cmd]
  have hfrg : byteAt (seg.encode ++ more) 5 = seg.frg := by
    show (UInt8.ofNat seg.frg).toNat = seg.frg
    rw [UInt8.toNat_ofNat', Nat.mod_eq_of_lt h.frg]
  have hword (u : UInt32) (l : List Byte) :
      UInt32.ofNat (decode32u (encode32u u.toNat ++ l)) = u := by
    rw [decode32u_encode32u u.toNat_lt, UInt32.ofNat_toNat]
  have hwnd (l : List Byte) :
      UInt32.ofNat (decode16u (encode16u seg.wnd.toNat ++ l)) = seg.wnd := by
    rw [decode16u_encode16u h.wnd, UInt32.ofNat_toNat]
  have hlen : decode32u ((seg.encode ++ more).drop 20) = seg.data.length := by
    have := h.data
    exact decode32u_encode32u (l := seg.data.length) (by omega) (seg.data ++ more)
  refine Prod.ext ?_ hlen
  simp only [decode, hcmd, hfrg, mk.injEq, true_and, and_true]
  exact ⟨hword seg.conv _, hwnd _, hword seg.ts _, hword seg.sn _, hword seg.una _⟩

end IKCPSEG

end PCGForUnity
