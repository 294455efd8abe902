/-
PCGForUnity/Network/Ikcp.lean

What the sessions rely on of KCP (`ikcp.c`): its clock, which `ikcp_update` sets and nothing
else moves, and its receive side, a queue of complete messages that `ikcp_input` adds to and
`ikcp_recv` takes from, one whole message at a time.

Design.  This is the view that `KcpSession` and `KcpClient` have of a control block.  How
messages become segments and segments datagrams is left out: a datagram is told by the
conversation it is for and the messages it completes.  The control block itself, with every
function of `ikcp.c`, is in `Kcp/Control`, and that it is such a queue in every state of a
connection is proved in `Kcp/Ready` (`Connection.toIkcpcb_refines`).

`KcpClock` is the part of both `Update`s that runs KCP when it is time, with `ikcp_check` as
a parameter, since it depends on what is to be sent.
-/
import PCGForUnity.Network.SocketConfig

namespace PCGForUnity

/-- A datagram for KCP: its conversation, and the messages it completes. -/
structure KcpDatagram where
  conv : UInt32
  completes : List (List Byte)

/-- The members of `ikcpcb` used here; times are `IUINT32` values.  `updates` are the
times `ikcp_update` was called with so far. -/
structure Ikcpcb where
  conv : UInt32
  current : Nat
  interval : Nat
  rcvQueue : List (List Byte)
  updates : List Nat
deriving DecidableEq, Repr

namespace Ikcpcb

/-- `ikcp_create`, then `ikcp_nodelay` with an interval of 5, which is raised to 10. -/
def create (conv : UInt32) : Ikcpcb :=
  { conv, current := 0, interval := 10, rcvQueue := [], updates := [] }

/-- `ikcp_update` -/
def update (kcp : Ikcpcb) (current : Nat) : Ikcpcb :=
  { kcp with current, updates := kcp.updates ++ [current] }

/-- `ikcp_input`: nothing of a datagram of another conversation is taken. -/
def input (kcp : Ikcpcb) (data : KcpDatagram) : Ikcpcb :=
  if data.conv ≠ kcp.conv then kcp
  else { kcp with rcvQueue := kcp.rcvQueue ++ data.completes }

/-- `ikcp_peeksize` -/
def peeksize (kcp : Ikcpcb) : Int :=
  match kcp.rcvQueue with
  | [] => -1
  | msg :: _ => msg.length

/-- `ikcp_recv`: the message, or a negative result. -/
def recv (kcp : Ikcpcb) (len : Nat) : Ikcpcb × Except Int (List Byte) :=
  match kcp.rcvQueue with
  | [] => (kcp, .error (-1))
  | msg :: rest =>
      if msg.length > len then (kcp, .error (-3)) else ({ kcp with rcvQueue := rest }, .ok msg)

theorem input_of_conv (kcp : Ikcpcb) (msgs : List (List Byte)) :
    kcp.input ⟨kcp.conv, msgs⟩ = { kcp with rcvQueue := kcp.rcvQueue ++ msgs } :=
  if_neg (not_not.mpr rfl)

/-- A datagram that completes nothing. -/
theorem input_nil (kcp : Ikcpcb) (conv : UInt32) : kcp.input ⟨conv, []⟩ = kcp := by
  rw [input]
  split
  · rfl
  · rw [List.append_nil]

theorem recv_of_nil {kcp : Ikcpcb} (h : kcp.rcvQueue = []) (len : Nat) :
    kcp.recv len = (kcp, .error (-1)) := by
  rw [recv, h]

/-- Receiving moves messages through the queue, and nothing else. -/
theorem recv_input_fst (kcp : Ikcpcb) (data : KcpDatagram) (len : Nat) :
    ∃ queue, ((kcp.input data).recv len).1 = { kcp with rcvQueue := queue } := by
  have hinput : ∃ queue, kcp.input data = { kcp with rcvQueue := queue } := by
    rw [input]
    split
    · exact ⟨_, rfl⟩
    · exact ⟨_, rfl⟩
  obtain ⟨queue, hqueue⟩ := hinput
  rw [hqueue, recv]
  split
  · exact ⟨_, rfl⟩
  · split
    · exact ⟨_, rfl⟩
    · exact ⟨_, rfl⟩

theorem length_le_of_recv {kcp kcp' : Ikcpcb} {len : Nat} {msg : List Byte}
    (h : kcp.recv len = (kcp', .ok msg)) : msg.length ≤ len := by
  rw [recv] at h
  split at h
  · cases h
  · split at h
    · cases h
    · cases h
      exact Nat.not_lt.mp ‹_›

/-- No message goes into an empty buffer. -/
theorem recv_zero (kcp : Ikcpcb) (h : 0 < kcp.peeksize) : kcp.recv 0 = (kcp, .error (-3)) := by
  obtain ⟨conv, current, interval, queue, updates⟩ := kcp
  cases queue with
  | nil => simp [peeksize] at h
  | cons msg rest =>
      have hpos : msg.length > 0 := Int.natCast_pos.mp h
      exact if_pos hpos

end Ikcpcb

/-- `m_pKcp`, `m_nNeedUpdateTime` and `m_bNeedUpdate`, which a `KcpSession` and a
`KcpClient` both have. -/
structure KcpClock where
  kcp : Ikcpcb
  needUpdateTime : Nat
  needUpdate : Bool
deriving DecidableEq, Repr

namespace KcpClock

/-- The part of both `Update`s that runs KCP when it is time, `check` being `ikcp_check`. -/
def update (check : Ikcpcb → Nat → Nat) (c : KcpClock) (diff : Int) : KcpClock :=
  let current := ((c.kcp.current + diff) % 2 ^ 32).toNat
  if c.needUpdate || decide (current ≥ c.needUpdateTime) then
    let kcp := c.kcp.update current
    { kcp, needUpdateTime := check kcp current, needUpdate := false }
  else c

/-- The end of both `Send`s, `buff` having been given to KCP. -/
def send (c : KcpClock) (immediately : Bool) : KcpClock :=
  if immediately then
    { c with kcp := c.kcp.update ((c.kcp.current + c.kcp.interval) % 2 ^ 32) }
  else { c with needUpdate := true }

/-- Running KCP touches neither its conversation nor its queue. -/
theorem update_kcp (check : Ikcpcb → Nat → Nat) (c : KcpClock) (diff : Int) :
    (c.update check diff).kcp.conv = c.kcp.conv ∧
      (c.update check diff).kcp.rcvQueue = c.kcp.rcvQueue := by
  rw [update]
  split <;> exact ⟨rfl, rfl⟩

end KcpClock

end PCGForUnity
