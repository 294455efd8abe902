/-
PCGForUnity/Network/Kcp/Control.lean

The control block of KCP and the functions of `ikcp.c`, as coded.

Design.  The lists of the control block are Lean lists, and the counters of their lengths
are kept beside them as the code does, for it is the counters that the code compares.
Numbers have the width and the sign of the source, so that they wrap where they do in C;
the one type whose width is left open is `long` (`LongWidth`), which the comparison of
numbers and times goes through.

A segment in `snd_queue` has only its number and its data yet, one in `snd_buf` has all
members.  `ikcp_input` loops over the bytes of a datagram, with their number as fuel: each
turn but the last takes a whole segment.  `ikcp_flush` returns the datagrams that it gives
to the output callback, and is cut into the parts that its comments name: acknowledgements,
probes, the moving of segments to `snd_buf`, the loop over it, and the congestion window.
-/
import PCGForUnity.Network.Kcp.Segment

namespace PCGForUnity

/-! ### Constants -/

/-- `IKCP_WND_SND` -/
def ikcpWndSnd : UInt32 := 32

/-- `IKCP_WND_RCV` -/
def ikcpWndRcv : UInt32 := 128

/-- `IKCP_MTU_DEF` -/
def ikcpMtuDef : UInt32 := 1400

/-- `IKCP_INTERVAL` -/
def ikcpInterval : UInt32 := 100

/-- `IKCP_DEADLINK` -/
def ikcpDeadlink : UInt32 := 20

/-- `IKCP_RTO_NDL` -/
def ikcpRtoNdl : Int32 := 30

/-- `IKCP_RTO_MIN` -/
def ikcpRtoMin : Int32 := 100

/-- `IKCP_RTO_DEF` -/
def ikcpRtoDef : Int32 := 200

/-- `IKCP_RTO_MAX` -/
def ikcpRtoMax : UInt32 := 60000

/-- `IKCP_THRESH_INIT` -/
def ikcpThreshInit : UInt32 := 2

/-- `IKCP_THRESH_MIN` -/
def ikcpThreshMin : UInt32 := 2

/-- `IKCP_PROBE_INIT`, in milliseconds. -/
def ikcpProbeInit : UInt32 := 7000

/-- `IKCP_PROBE_LIMIT`, in milliseconds. -/
def ikcpProbeLimit : UInt32 := 120000

/-- `IKCP_ASK_SEND` -/
def ikcpAskSend : UInt32 := 1

/-- `IKCP_ASK_TELL` -/
def ikcpAskTell : UInt32 := 2

/-- `_imin_` -/
def imin (a b : UInt32) : UInt32 := if a ≤ b then a else b

/-- `_imax_` -/
def imax (a b : UInt32) : UInt32 := if a ≥ b then a else b

/-- `_ibound_` -/
def ibound (lower middle upper : UInt32) : UInt32 := imin (imax lower middle) upper

/-! ### The control block -/

/-- A segment in `snd_buf`. -/
structure SndSeg extends IKCPSEG where
  resendts : UInt32
  rto : UInt32
  fastack : UInt32
  xmit : UInt32
deriving DecidableEq, Repr

/-- `struct IKCPCB`.  An entry of `acklist` is a number and a time. -/
structure IKCPCB where
  conv : UInt32
  mtu : UInt32
  mss : UInt32
  state : UInt32
  sndUna : UInt32
  sndNxt : UInt32
  rcvNxt : UInt32
  ssthresh : UInt32
  rxRttval : Int32
  rxSrtt : Int32
  rxRto : Int32
  rxMinrto : Int32
  sndWnd : UInt32
  rcvWnd : UInt32
  rmtWnd : UInt32
  cwnd : UInt32
  probe : UInt32
  current : UInt32
  tsFlush : UInt32
  interval : UInt32
  xmit : UInt32
  nrcvBuf : UInt32
  nsndBuf : UInt32
  nrcvQue : UInt32
  nsndQue : UInt32
  nodelay : UInt32
  updated : UInt32
  tsProbe : UInt32
  probeWait : UInt32
  deadLink : UInt32
  incr : UInt32
  sndQueue : List (Fragment Byte)
  rcvQueue : List IKCPSEG
  sndBuf : List SndSeg
  rcvBuf : List IKCPSEG
  acklist : List (UInt32 × UInt32)
  fastresend : Int32
  nocwnd : Int32
  stream : Int32
deriving DecidableEq, Repr

namespace IKCPCB

/-- `ikcp_create` -/
def create (conv : UInt32) : IKCPCB where
  conv
  mtu := ikcpMtuDef
  mss := ikcpMtuDef - UInt32.ofNat ikcpOverheadLen
  state := 0
  sndUna := 0
  sndNxt := 0
  rcvNxt := 0
  ssthresh := ikcpThreshInit
  rxRttval := 0
  rxSrtt := 0
  rxRto := ikcpRtoDef
  rxMinrto := ikcpRtoMin
  sndWnd := ikcpWndSnd
  rcvWnd := ikcpWndRcv
  rmtWnd := ikcpWndRcv
  cwnd := 0
  probe := 0
  current := 0
  tsFlush := ikcpInterval
  interval := ikcpInterval
  xmit := 0
  nrcvBuf := 0
  nsndBuf := 0
  nrcvQue := 0
  nsndQue := 0
  nodelay := 0
  updated := 0
  tsProbe := 0
  probeWait := 0
  deadLink := ikcpDeadlink
  incr := 0
  sndQueue := []
  rcvQueue := []
  sndBuf := []
  rcvBuf := []
  acklist := []
  fastresend := 0
  nocwnd := 0
  stream := 0

/-- `ikcp_setmtu` -/
def setmtu (kcp : IKCPCB) (mtu : Int32) : IKCPCB × ℤ :=
  if mtu < 50 ∨ mtu < Int32.ofNat ikcpOverheadLen then (kcp, -1)
  else ({ kcp with mtu := mtu.toUInt32, mss := mtu.toUInt32 - UInt32.ofNat ikcpOverheadLen }, 0)

/-- `ikcp_interval` -/
def boundInterval (interval : Int32) : Int32 :=
  if interval > 5000 then 5000 else if interval < 10 then 10 else interval

/-- `ikcp_interval` -/
def setInterval (kcp : IKCPCB) (interval : Int32) : IKCPCB :=
  { kcp with interval := (boundInterval interval).toUInt32 }

/-- `ikcp_nodelay`, with the parameters `nodelay`, `interval`, `resend` and `nc`. -/
def setNodelay (kcp : IKCPCB) (nodelay interval resend nc : Int32) : IKCPCB :=
  { kcp with
    nodelay := if nodelay ≥ 0 then nodelay.toUInt32 else kcp.nodelay
    rxMinrto :=
      if nodelay ≥ 0 then if nodelay ≠ 0 then ikcpRtoNdl else ikcpRtoMin else kcp.rxMinrto
    interval := if interval ≥ 0 then (boundInterval interval).toUInt32 else kcp.interval
    fastresend := if resend ≥ 0 then resend else kcp.fastresend
    nocwnd := if nc ≥ 0 then nc else kcp.nocwnd }

/-- `ikcp_wndsize` -/
def wndsize (kcp : IKCPCB) (sndwnd rcvwnd : Int32) : IKCPCB :=
  { kcp with
    sndWnd := if sndwnd > 0 then sndwnd.toUInt32 else kcp.sndWnd
    rcvWnd := if rcvwnd > 0 then imax rcvwnd.toUInt32 ikcpWndRcv else kcp.rcvWnd }

/-! ### Receiving -/

/-- The loops of `ikcp_recv` and `ikcp_peeksize` over the fragments of a message: the data,
and the segments behind it. -/
def merge : List IKCPSEG → List Byte × List IKCPSEG
  | [] => ([], [])
  | seg :: segs =>
      if seg.frg = 0 then (seg.data, segs) else (seg.data ++ (merge segs).1, (merge segs).2)

/-- `ikcp_peeksize` -/
def peeksize (kcp : IKCPCB) : ℤ :=
  match kcp.rcvQueue with
  | [] => -1
  | seg :: _ =>
      if seg.frg = 0 then seg.data.length
      else if kcp.nrcvQue < UInt32.ofNat (seg.frg + 1) then -1
      else (merge kcp.rcvQueue).1.length

/-- The loop that moves what has come in order from `rcv_buf`, that is the list, to
`rcv_queue`. -/
def moveAvailable (kcp : IKCPCB) : List IKCPSEG → IKCPCB
  | [] => { kcp with rcvBuf := [] }
  | seg :: rest =>
      if seg.sn = kcp.rcvNxt ∧ kcp.nrcvQue < kcp.rcvWnd then
        moveAvailable
          { kcp with
            nrcvBuf := kcp.nrcvBuf - 1
            rcvQueue := kcp.rcvQueue ++ [seg]
            nrcvQue := kcp.nrcvQue + 1
            rcvNxt := kcp.rcvNxt + 1 } rest
      else { kcp with rcvBuf := seg :: rest }

/-- The first message is deleted from `rcv_queue`. -/
def deleteFirst (kcp : IKCPCB) : IKCPCB :=
  let rest := (merge kcp.rcvQueue).2
  { kcp with
    rcvQueue := rest
    nrcvQue := kcp.nrcvQue - UInt32.ofNat (kcp.rcvQueue.length - rest.length) }

/-- The fast recover at the end of `ikcp_recv`. -/
def tellRoom (kcp : IKCPCB) (recover : Bool) : IKCPCB :=
  { kcp with
    probe :=
      if kcp.nrcvQue < kcp.rcvWnd ∧ recover then kcp.probe ||| ikcpAskTell else kcp.probe }

/-- `ikcp_recv`: the message, or a negative result.  A negative `len` only looks. -/
def recv (kcp : IKCPCB) (len : ℤ) : IKCPCB × Except ℤ (List Byte) :=
  if kcp.rcvQueue.isEmpty then (kcp, .error (-1))
  else if kcp.peeksize < 0 then (kcp, .error (-2))
  else if kcp.peeksize > |len| then (kcp, .error (-3))
  else
    let left := if len < 0 then kcp else kcp.deleteFirst
    ((left.moveAvailable left.rcvBuf).tellRoom (kcp.nrcvQue ≥ kcp.rcvWnd),
      .ok (merge kcp.rcvQueue).1)

/-! ### Sending -/

/-- The part of `ikcp_send` for streams: the last segment of the queue is filled up. -/
def fillLast (kcp : IKCPCB) (buffer : List Byte) : IKCPCB × List Byte :=
  match kcp.sndQueue.getLast? with
  | some old =>
      if old.data.length < kcp.mss.toNat then
        let capacity := kcp.mss.toNat - old.data.length
        let seg : Fragment Byte := ⟨0, old.data ++ buffer.take capacity⟩
        ({ kcp with sndQueue := kcp.sndQueue.dropLast ++ [seg] }, buffer.drop capacity)
      else (kcp, buffer)
  | none => (kcp, buffer)

/-- The part of `ikcp_send` that cuts the buffer into fragments. -/
def sendFragments (kcp : IKCPCB) (buffer : List Byte) : IKCPCB × ℤ :=
  let count := Fragment.count kcp.mss.toNat buffer.length
  if count ≥ ikcpWndRcv.toNat then (kcp, -2)
  else
    let fragments := (Fragment.pieces kcp.mss.toNat count buffer).map fun f =>
      if kcp.stream = 0 then f else { f with frg := 0 }
    ({ kcp with
        sndQueue := kcp.sndQueue ++ fragments
        nsndQue := kcp.nsndQue + UInt32.ofNat count }, 0)

/-- `ikcp_send` -/
def send (kcp : IKCPCB) (buffer : List Byte) : IKCPCB × ℤ :=
  if kcp.stream ≠ 0 then
    let filled := kcp.fillLast buffer
    if filled.2.length ≤ 0 then (filled.1, 0) else filled.1.sendFragments filled.2
  else kcp.sendFragments buffer

/-! ### Acknowledgements -/

/-- `ikcp_update_ack` -/
def updateAck (kcp : IKCPCB) (rtt : Int32) : IKCPCB :=
  let (srtt, rttval) :=
    if kcp.rxSrtt = 0 then (rtt, rtt / 2)
    else
      let delta := rtt - kcp.rxSrtt
      let delta := if delta < 0 then -delta else delta
      let srtt := (7 * kcp.rxSrtt + rtt) / 8
      (if srtt < 1 then 1 else srtt, (3 * kcp.rxRttval + delta) / 4)
  let rto := srtt.toUInt32 + imax kcp.interval (4 * rttval).toUInt32
  { kcp with
    rxSrtt := srtt
    rxRttval := rttval
    rxRto := (ibound kcp.rxMinrto.toUInt32 rto ikcpRtoMax).toInt32 }

/-- `ikcp_shrink_buf` -/
def shrinkBuf (kcp : IKCPCB) : IKCPCB :=
  { kcp with
    sndUna := match kcp.sndBuf with
      | seg :: _ => seg.sn
      | [] => kcp.sndNxt }

variable (long : LongWidth)

/-- The loop of `ikcp_parse_ack`: the list without the segment, if it has it. -/
def removeAcked (sn : UInt32) : List SndSeg → Option (List SndSeg)
  | [] => none
  | seg :: rest =>
      if sn = seg.sn then some rest
      else if itimediff long sn seg.sn < 0 then none
      else (removeAcked sn rest).map fun rest => seg :: rest

/-- `ikcp_parse_ack` -/
def parseAck (kcp : IKCPCB) (sn : UInt32) : IKCPCB :=
  if itimediff long sn kcp.sndUna < 0 ∨ itimediff long sn kcp.sndNxt ≥ 0 then kcp
  else
    let removed := removeAcked long sn kcp.sndBuf
    { kcp with
      sndBuf := removed.getD kcp.sndBuf
      nsndBuf := if removed.isSome then kcp.nsndBuf - 1 else kcp.nsndBuf }

/-- `ikcp_parse_una` -/
def parseUna (kcp : IKCPCB) (una : UInt32) : IKCPCB :=
  let sndBuf := kcp.sndBuf.dropWhile fun seg => decide (itimediff long una seg.sn > 0)
  { kcp with
    sndBuf
    nsndBuf := kcp.nsndBuf - UInt32.ofNat (kcp.sndBuf.length - sndBuf.length) }

/-- The loop of `ikcp_parse_fastack`. -/
def countFastack (sn : UInt32) : List SndSeg → List SndSeg
  | [] => []
  | seg :: rest =>
      if itimediff long sn seg.sn < 0 then seg :: rest
      else if sn ≠ seg.sn then { seg with fastack := seg.fastack + 1 } :: countFastack sn rest
      else seg :: countFastack sn rest

/-- `ikcp_parse_fastack` -/
def parseFastack (kcp : IKCPCB) (sn : UInt32) : IKCPCB :=
  if itimediff long sn kcp.sndUna < 0 ∨ itimediff long sn kcp.sndNxt ≥ 0 then kcp
  else { kcp with sndBuf := countFastack long sn kcp.sndBuf }

/-! ### Input -/

/-- The search of `ikcp_parse_data`, from the end of the list: it is given backwards. -/
def insertBack (newseg : IKCPSEG) : List IKCPSEG → Option (List IKCPSEG)
  | [] => some [newseg]
  | seg :: prev =>
      if seg.sn = newseg.sn then none
      else if itimediff long newseg.sn seg.sn > 0 then some (newseg :: seg :: prev)
      else (insertBack newseg prev).map fun prev => seg :: prev

/-- `ikcp_parse_data` -/
def parseData (kcp : IKCPCB) (newseg : IKCPSEG) : IKCPCB :=
  if itimediff long newseg.sn (kcp.rcvNxt + kcp.rcvWnd) ≥ 0 ∨
      itimediff long newseg.sn kcp.rcvNxt < 0 then kcp
  else
    let kcp :=
      match insertBack long newseg kcp.rcvBuf.reverse with
      | some rcvBuf => { kcp with rcvBuf := rcvBuf.reverse, nrcvBuf := kcp.nrcvBuf + 1 }
      | none => kcp
    kcp.moveAvailable kcp.rcvBuf

/-- `kcp`, `flag` and `maxack` in `ikcp_input`. -/
structure Input where
  kcp : IKCPCB
  flag : Bool
  maxack : UInt32

/-- A segment of `IKCP_CMD_ACK`. -/
def acked (kcp : IKCPCB) (seg : IKCPSEG) : IKCPCB :=
  let rtt := itimediff long kcp.current seg.ts
  let kcp := if rtt ≥ 0 then kcp.updateAck (Int32.ofInt rtt) else kcp
  (kcp.parseAck long seg.sn).shrinkBuf

/-- `ikcp_ack_push` -/
def ackPush (kcp : IKCPCB) (sn ts : UInt32) : IKCPCB :=
  { kcp with acklist := kcp.acklist ++ [(sn, ts)] }

/-- A segment of `IKCP_CMD_PUSH`. -/
def pushed (kcp : IKCPCB) (seg : IKCPSEG) : IKCPCB :=
  if itimediff long seg.sn (kcp.rcvNxt + kcp.rcvWnd) < 0 then
    if itimediff long seg.sn kcp.rcvNxt ≥ 0 then (kcp.ackPush seg.sn seg.ts).parseData long seg
    else kcp.ackPush seg.sn seg.ts
  else kcp

/-- What `ikcp_input` does with a segment whose header it has checked. -/
def Input.segment (i : Input) (seg : IKCPSEG) : Input :=
  let kcp := (parseUna long { i.kcp with rmtWnd := seg.wnd } seg.una).shrinkBuf
  if seg.cmd = ikcpCmdAck then
    { kcp := kcp.acked long seg
      flag := true
      maxack := if !i.flag ∨ itimediff long seg.sn i.maxack > 0 then seg.sn else i.maxack }
  else if seg.cmd = ikcpCmdPush then { i with kcp := kcp.pushed long seg }
  else if seg.cmd = ikcpCmdWask then
    { i with kcp := { kcp with probe := kcp.probe ||| ikcpAskTell } }
  else { i with kcp }

/-- The loop of `ikcp_input`, with its result.  A turn takes 24 bytes or more, so the
length of the data is enough fuel. -/
def Input.loop : ℕ → List Byte → Input → Input × ℤ
  | 0, _, i => (i, 0)
  | fuel + 1, data, i =>
      if data.length < ikcpOverheadLen then (i, 0)
      else
        let (seg, len) := IKCPSEG.decode data
        let behind := data.drop ikcpOverheadLen
        if seg.conv ≠ i.kcp.conv then (i, -1)
        else if behind.length < len ∨ 2 ^ 31 ≤ len then (i, -2)
        else if seg.cmd ≠ ikcpCmdPush ∧ seg.cmd ≠ ikcpCmdAck ∧ seg.cmd ≠ ikcpCmdWask ∧
            seg.cmd ≠ ikcpCmdWins then (i, -3)
        else Input.loop fuel (behind.drop len) (i.segment long { seg with data := behind.take len })

/-- `cwnd` and `incr` behind the end of `ikcp_input`, when `snd_una` has moved. -/
def grown (kcp : IKCPCB) : UInt32 × UInt32 :=
  if kcp.cwnd < kcp.rmtWnd then
    let mss := kcp.mss
    let (cwnd, incr) :=
      if kcp.cwnd < kcp.ssthresh then (kcp.cwnd + 1, kcp.incr + mss)
      else
        let incr := if kcp.incr < mss then mss else kcp.incr
        let incr := incr + ((mss * mss) / incr + mss / 16)
        (if (kcp.cwnd + 1) * mss ≤ incr then kcp.cwnd + 1 else kcp.cwnd, incr)
    if cwnd > kcp.rmtWnd then (kcp.rmtWnd, kcp.rmtWnd * mss) else (cwnd, incr)
  else (kcp.cwnd, kcp.incr)

/-- The congestion window grows. -/
def growCwnd (kcp : IKCPCB) : IKCPCB := { kcp with cwnd := kcp.grown.1, incr := kcp.grown.2 }

/-- The end of `ikcp_input`; `una` is what `snd_una` was before. -/
def Input.finish (i : Input) (una : UInt32) : IKCPCB :=
  let kcp := if i.flag then i.kcp.parseFastack long i.maxack else i.kcp
  if itimediff long kcp.sndUna una > 0 then kcp.growCwnd else kcp

/-- `ikcp_input` -/
def input (kcp : IKCPCB) (data : List Byte) : IKCPCB × ℤ :=
  if data.length < ikcpOverheadLen then (kcp, -1)
  else
    let (i, result) := Input.loop long data.length data { kcp, flag := false, maxack := 0 }
    if result ≠ 0 then (i.kcp, result) else (i.finish long kcp.sndUna, 0)

/-! ### Flushing -/

/-- `ikcp_wnd_unused` -/
def wndUnused (kcp : IKCPCB) : UInt32 :=
  if kcp.nrcvQue < kcp.rcvWnd then kcp.rcvWnd - kcp.nrcvQue else 0

/-- `buffer` up to `ptr`, and the datagrams given to the output callback.

The `(mtu + 24) * 3` bytes of `buffer` are no bound here.  What is in it is never more than
`mtu`, or one segment (`put`), and a segment is cut to the `mtu` there was: only one that is
longer than a lower `mtu` set since then would be written past the end. -/
structure Output where
  ptr : List Byte
  datagrams : List (List Byte)

/-- `ikcp_output`, which does nothing for an empty buffer, and back to the start of it. -/
def Output.emit (o : Output) : Output where
  ptr := []
  datagrams := if o.ptr.isEmpty then o.datagrams else o.datagrams ++ [o.ptr]

/-- A segment is written behind the others, or to a new datagram if it does not fit. -/
def Output.put (o : Output) (mtu : ℕ) (seg : IKCPSEG) : Output :=
  let o := if o.ptr.length + (ikcpOverheadLen + seg.data.length) > mtu then o.emit else o
  { o with ptr := o.ptr ++ seg.encode }

/-- `probe_wait`, `ts_probe` and `probe` behind the part of `ikcp_flush` that decides on a
probe of the remote's window. -/
def nextProbe (kcp : IKCPCB) : UInt32 × UInt32 × UInt32 :=
  if kcp.rmtWnd = 0 then
    if kcp.probeWait = 0 then (ikcpProbeInit, kcp.current + ikcpProbeInit, kcp.probe)
    else if itimediff long kcp.current kcp.tsProbe ≥ 0 then
      let wait := if kcp.probeWait < ikcpProbeInit then ikcpProbeInit else kcp.probeWait
      let wait := wait + wait / 2
      let wait := if wait > ikcpProbeLimit then ikcpProbeLimit else wait
      (wait, kcp.current + wait, kcp.probe ||| ikcpAskSend)
    else (kcp.probeWait, kcp.tsProbe, kcp.probe)
  else (0, 0, kcp.probe)

/-- The part of `ikcp_flush` that decides on a probe of the remote's window. -/
def updateProbe (kcp : IKCPCB) : IKCPCB :=
  { kcp with
    probeWait := (kcp.nextProbe long).1
    tsProbe := (kcp.nextProbe long).2.1
    probe := (kcp.nextProbe long).2.2 }

/-- The segment that a fragment becomes. -/
def newSegment (kcp : IKCPCB) (wnd : UInt32) (f : Fragment Byte) : SndSeg where
  conv := kcp.conv
  cmd := ikcpCmdPush
  frg := f.frg
  wnd
  ts := kcp.current
  sn := kcp.sndNxt
  una := kcp.rcvNxt
  data := f.data
  resendts := kcp.current
  rto := kcp.rxRto.toUInt32
  fastack := 0
  xmit := 0

/-- The loop that moves segments from `snd_queue`, that is the list, to `snd_buf`. -/
def moveToBuf (wnd cwnd : UInt32) (kcp : IKCPCB) : List (Fragment Byte) → IKCPCB
  | [] => { kcp with sndQueue := [] }
  | f :: rest =>
      if itimediff long kcp.sndNxt (kcp.sndUna + cwnd) < 0 then
        moveToBuf wnd cwnd
          { kcp with
            nsndQue := kcp.nsndQue - 1
            nsndBuf := kcp.nsndBuf + 1
            sndBuf := kcp.sndBuf ++ [kcp.newSegment wnd f]
            sndNxt := kcp.sndNxt + 1 } rest
      else { kcp with sndQueue := f :: rest }

/-- What the loop over `snd_buf` changes besides the segments. -/
structure Flush where
  xmit : UInt32
  state : UInt32
  lost : Bool
  change : ℕ
  out : Output

/-- Whether a segment has to be sent, with the segment and the counters then. -/
def dueSegment (kcp : IKCPCB) (resent rtomin : UInt32) (st : Flush) (seg : SndSeg) :
    Option (SndSeg × Flush) :=
  if seg.xmit = 0 then
    some ({ seg with
      xmit := seg.xmit + 1
      rto := kcp.rxRto.toUInt32
      resendts := kcp.current + kcp.rxRto.toUInt32 + rtomin }, st)
  else if itimediff long kcp.current seg.resendts ≥ 0 then
    let rto := if kcp.nodelay = 0 then seg.rto + kcp.rxRto.toUInt32
      else seg.rto + (kcp.rxRto / 2).toUInt32
    some ({ seg with xmit := seg.xmit + 1, rto, resendts := kcp.current + rto },
      { st with xmit := st.xmit + 1, lost := true })
  else if seg.fastack ≥ resent then
    some ({ seg with xmit := seg.xmit + 1, fastack := 0, resendts := kcp.current + seg.rto },
      { st with change := st.change + 1 })
  else none

/-- The loop over `snd_buf`. -/
def flushSegments (kcp : IKCPCB) (wnd resent rtomin : UInt32) :
    List SndSeg → Flush → List SndSeg × Flush
  | [], st => ([], st)
  | seg :: rest, st =>
      match kcp.dueSegment long resent rtomin st seg with
      | none =>
          let (rest, st) := flushSegments kcp wnd resent rtomin rest st
          (seg :: rest, st)
      | some (seg, st) =>
          let seg := { seg with ts := kcp.current, wnd, una := kcp.rcvNxt }
          let st := { st with
            out := st.out.put kcp.mtu.toNat seg.toIKCPSEG
            state := if seg.xmit ≥ kcp.deadLink then 0xffffffff else st.state }
          let (rest, st) := flushSegments kcp wnd resent rtomin rest st
          (seg :: rest, st)

/-- An acknowledgement or a probe. -/
def control (kcp : IKCPCB) (cmd : ℕ) (ack : UInt32 × UInt32) : IKCPSEG where
  conv := kcp.conv
  cmd
  frg := 0
  wnd := kcp.wndUnused
  ts := ack.2
  sn := ack.1
  una := kcp.rcvNxt
  data := []

/-- The acknowledgements of a flush. -/
def putAcks (kcp : IKCPCB) : Output :=
  (kcp.acklist.map (kcp.control ikcpCmdAck)).foldl (fun o seg => o.put kcp.mtu.toNat seg)
    { ptr := [], datagrams := [] }

/-- A probe of a flush, if `probe` has its bit. -/
def putProbe (kcp : IKCPCB) (ask : UInt32) (cmd : ℕ) (last : UInt32 × UInt32) (out : Output) :
    Output :=
  if kcp.probe &&& ask ≠ 0 then out.put kcp.mtu.toNat (kcp.control cmd last) else out

/-- The window of a flush. -/
def sendWindow (kcp : IKCPCB) : UInt32 :=
  let cwnd := imin kcp.sndWnd kcp.rmtWnd
  if kcp.nocwnd = 0 then imin kcp.cwnd cwnd else cwnd

/-- `ssthresh`, `cwnd` and `incr` behind the end of `ikcp_flush`; `cwnd` is the window
that was sent by. -/
def congestion (kcp : IKCPCB) (cwnd resent : UInt32) (st : Flush) : UInt32 × UInt32 × UInt32 :=
  let (ssthresh, grown, incr) :=
    if st.change ≠ 0 then
      let half := (kcp.sndNxt - kcp.sndUna) / 2
      let ssthresh := if half < ikcpThreshMin then ikcpThreshMin else half
      (ssthresh, ssthresh + resent, (ssthresh + resent) * kcp.mss)
    else (kcp.ssthresh, kcp.cwnd, kcp.incr)
  let (ssthresh, grown, incr) :=
    if st.lost then
      let half := cwnd / 2
      (if half < ikcpThreshMin then ikcpThreshMin else half, 1, kcp.mss)
    else (ssthresh, grown, incr)
  if grown < 1 then (ssthresh, 1, kcp.mss) else (ssthresh, grown, incr)

/-- The part of `ikcp_flush` that changes the congestion window. -/
def updateCwnd (kcp : IKCPCB) (cwnd resent : UInt32) (st : Flush) : IKCPCB :=
  { kcp with
    ssthresh := (kcp.congestion cwnd resent st).1
    cwnd := (kcp.congestion cwnd resent st).2.1
    incr := (kcp.congestion cwnd resent st).2.2 }

/-- `ikcp_flush`, with the datagrams put out. -/
def flush (kcp : IKCPCB) : IKCPCB × List (List Byte) :=
  if kcp.updated = 0 then (kcp, [])
  else
    -- the probes have the number and the time of the last acknowledgement
    let last := kcp.acklist.getLastD (0, 0)
    let probed := updateProbe long { kcp with acklist := [] }
    let out := probed.putProbe ikcpAskSend ikcpCmdWask last kcp.putAcks
    let out := probed.putProbe ikcpAskTell ikcpCmdWins last out
    let wnd := kcp.wndUnused
    let cwnd := probed.sendWindow
    let moved := moveToBuf long wnd cwnd { probed with probe := 0 } probed.sndQueue
    let resent := if kcp.fastresend > 0 then kcp.fastresend.toUInt32 else 0xffffffff
    let rtomin := if kcp.nodelay = 0 then (kcp.rxRto >>> 3).toUInt32 else 0
    let flushed := moved.flushSegments long wnd resent rtomin moved.sndBuf
      { xmit := kcp.xmit, state := kcp.state, lost := false, change := 0, out }
    let kcp := { moved with sndBuf := flushed.1, xmit := flushed.2.xmit, state := flushed.2.state }
    (kcp.updateCwnd cwnd resent flushed.2, flushed.2.out.emit.datagrams)

/-- `ts_flush` and `slap` in `ikcp_update`. -/
def slap (kcp : IKCPCB) (current : UInt32) : UInt32 × Int32 :=
  let tsFlush := if kcp.updated = 0 then current else kcp.tsFlush
  let slap := Int32.ofInt (itimediff long current tsFlush)
  if slap ≥ 10000 ∨ slap < -10000 then (current, 0) else (tsFlush, slap)

/-- `ikcp_update`, with the datagrams put out. -/
def update (kcp : IKCPCB) (current : UInt32) : IKCPCB × List (List Byte) :=
  let tsFlush := (kcp.slap long current).1
  let updated := if kcp.updated = 0 then 1 else kcp.updated
  if (kcp.slap long current).2 ≥ 0 then
    let next := tsFlush + kcp.interval
    let next := if itimediff long current next ≥ 0 then current + kcp.interval else next
    flush long { kcp with current, updated, tsFlush := next }
  else ({ kcp with current, updated, tsFlush }, [])

/-- The loop of `ikcp_check`: `tm_packet`, or nothing where it returns. -/
def nextResend (current : UInt32) : List SndSeg → Int32 → Option Int32
  | [], tmPacket => some tmPacket
  | seg :: rest, tmPacket =>
      let diff := Int32.ofInt (itimediff long seg.resendts current)
      if diff ≤ 0 then none
      else nextResend current rest (if diff < tmPacket then diff else tmPacket)

/-- `ikcp_check` -/
def check (kcp : IKCPCB) (current : UInt32) : UInt32 :=
  if kcp.updated = 0 then current
  else
    let tsFlush :=
      if itimediff long current kcp.tsFlush ≥ 10000 ∨ itimediff long current kcp.tsFlush < -10000
      then current else kcp.tsFlush
    if itimediff long current tsFlush ≥ 0 then current
    else
      let tmFlush := Int32.ofInt (itimediff long tsFlush current)
      match nextResend long current kcp.sndBuf 0x7fffffff with
      | none => current
      | some tmPacket =>
          let minimal := (if tmPacket < tmFlush then tmPacket else tmFlush).toUInt32
          current + (if minimal ≥ kcp.interval then kcp.interval else minimal)

end IKCPCB

end PCGForUnity
