import Obelisk.Lib.Buffer
import Obelisk.Lib.Word

/-!
# TCP connections

The TCP part of `kernel/net/core.c`: connections, incoming frames, `net_tcp_recv`, `net_tcp_send` and
the retransmission timer.

The address resolution, the driver and the frames that are sent are not modelled: whether a call of
`tcp_send_on_conn` succeeds is the next answer of `Net.answers`. ARP, UDP, ICMP and DHCP frames do
not reach a connection; what DHCP changes is the address of the device (`NetOp.config`).
-/

namespace Obelisk

open KLib

def netTcpConnMax : ℕ := 8
def netTcpRxBuf : ℕ := 4096
def netTcpTxBuf : ℕ := 1200
def netTcpTxRetryTicks : ℕ := 200
def netTcpTxMaxRetries : ℕ := 8

def eInval : ℤ := -22
def eAgain : ℤ := -11
def eMfile : ℤ := -24
def eMsgsize : ℤ := -90
def eNetdown : ℤ := -100
def eNotconn : ℤ := -107
def eConnreset : ℤ := -104

def tcpFlagFin : ℕ := 0
def tcpFlagSyn : ℕ := 1
def tcpFlagRst : ℕ := 2
def tcpFlagPsh : ℕ := 3
def tcpFlagAck : ℕ := 4

inductive TcpConnState
  | free
  | synSent
  | established
  | closed
  deriving DecidableEq, Repr

/-- A TCP connection (`struct tcp_conn`). -/
structure TcpConn where
  used : Bool
  state : TcpConnState
  remoteIp : List UInt8
  localPort : ℕ
  remotePort : ℕ
  sndUna : ℕ
  sndNxt : ℕ
  rcvNxt : ℕ
  lastTxTick : ℕ
  retries : ℕ
  peerClosed : Bool
  rxBuf : ℕ → UInt8
  rxLen : ℕ
  txPending : Bool
  txSeq : ℕ
  txAck : ℕ
  txFlags : ℕ
  txData : List UInt8

def TcpConn.zero : TcpConn :=
  ⟨false, .free, [0, 0, 0, 0], 0, 0, 0, 0, 0, 0, 0, false, fun _ => 0, 0, false, 0, 0, 0, []⟩

/-- The state of the network stack. -/
structure Net where
  present : Bool
  ip : List UInt8
  tickCount : ℕ
  conns : ℕ → TcpConn
  /-- The results of the coming calls of `tcp_send_on_conn`. -/
  answers : List Bool

/-! ## Incoming frames -/

/-- A TCP segment as it is received. -/
structure Segment where
  saddr : List UInt8
  daddr : List UInt8
  srcPort : ℕ
  dstPort : ℕ
  seq : ℕ
  ack : ℕ
  flags : ℕ
  payload : List UInt8
  deriving DecidableEq

def Segment.has (seg : Segment) (flag : ℕ) : Bool := seg.flags.testBit flag

def byteAt (f : List UInt8) (i : ℕ) : ℕ := (f.getD i 0).toNat

def be16 (f : List UInt8) (i : ℕ) : ℕ := byteAt f i * 256 + byteAt f (i + 1)

def be32 (f : List UInt8) (i : ℕ) : ℕ := be16 f i * 65536 + be16 f (i + 2)

def bigEndian (n x : ℕ) : List UInt8 := (List.range n).reverse.map fun i => .ofNat (x / 256 ^ i)

def slice (f : List UInt8) (i n : ℕ) : List UInt8 := (f.drop i).take n

def sizeofEth : ℕ := 14
def sizeofIpv4 : ℕ := 20
def sizeofTcp : ℕ := 20
def ethTypeIpv4 : ℕ := 0x0800
def ipv4ProtoTcp : ℕ := 6

/-- The checks `net_rx_frame` makes on the TCP header and payload, which start at `p`. -/
def tcpOfPayload (f : List UInt8) (p payloadLen : ℕ) : Option Segment :=
  if payloadLen < sizeofTcp then none
  else
    let doffFlags := be16 f (p + 12)
    let thl := doffFlags / 4096 % 16 * 4
    if thl < sizeofTcp || payloadLen < thl then none
    else some
      { saddr := slice f (sizeofEth + 12) 4
        daddr := slice f (sizeofEth + 16) 4
        srcPort := be16 f p
        dstPort := be16 f (p + 2)
        seq := be32 f (p + 4)
        ack := be32 f (p + 8)
        flags := doffFlags % 512
        payload := slice f (p + thl) (payloadLen - thl) }

/-- The TCP segment in a frame, if the frame holds one that passes the checks of `net_rx_frame`. -/
def tcpOfFrame (f : List UInt8) : Option Segment :=
  let len := f.length
  if len < sizeofEth || be16 f 12 != ethTypeIpv4 then none
  else if len < sizeofEth + sizeofIpv4 then none
  else if byteAt f sizeofEth / 16 != 4 then none
  else
    let ihl := byteAt f sizeofEth % 16 * 4
    if ihl < sizeofIpv4 || len < sizeofEth + ihl then none
    else
      let totalLen := be16 f (sizeofEth + 2)
      if totalLen < ihl || len < sizeofEth + totalLen then none
      else if byteAt f (sizeofEth + 9) != ipv4ProtoTcp then none
      else tcpOfPayload f (sizeofEth + ihl) (totalLen - ihl)

/-! ## Sending on a connection -/

abbrev ConnTx := TcpConn × List Bool

def tcpSendOnConn (tick seq ack flags : ℕ) (payload : List UInt8) (trackRetry : Bool) : ConnTx → Bool × ConnTx
  | (c, []) => (false, c, [])
  | (c, false :: rest) => (false, c, rest)
  | (c, true :: rest) =>
    let c := { c with lastTxTick := u32 tick }
    if trackRetry then
      (true, { c with
        retries := 0
        txPending := true
        txSeq := seq
        txAck := ack
        txFlags := flags
        txData := payload.take netTcpTxBuf }, rest)
    else (true, c, rest)

def sendAck (tick : ℕ) (x : ConnTx) : ConnTx :=
  (tcpSendOnConn tick x.1.sndNxt x.1.rcvNxt (2 ^ tcpFlagAck) [] false x).2

/-! ## Receiving a segment -/

def tcpAck (seg : Segment) (c : TcpConn) : TcpConn :=
  if seg.has tcpFlagAck && c.sndUna < seg.ack then
    let c := { c with sndUna := seg.ack }
    if c.txPending && c.txSeq + c.txData.length ≤ seg.ack then
      { c with txPending := false, txData := [] }
    else c
  else c

def tcpTake (seg : Segment) (c : TcpConn) : TcpConn :=
  if 0 < seg.payload.length && seg.seq == c.rcvNxt then
    let n := min seg.payload.length (netTcpRxBuf - c.rxLen)
    { c with
      rxBuf := blit c.rxBuf c.rxLen (seg.payload.take n)
      rxLen := c.rxLen + n
      rcvNxt := u32 (c.rcvNxt + n) }
  else c

def tcpPayload (tick : ℕ) (seg : Segment) (x : ConnTx) : ConnTx :=
  if 0 < seg.payload.length then sendAck tick (tcpTake seg x.1, x.2) else x

def finInSequence (seg : Segment) (c : TcpConn) : Bool :=
  seg.has tcpFlagFin && u32 (seg.seq + seg.payload.length) == c.rcvNxt

/-- `peer_closed` is set by every `FIN`, in sequence or not. -/
def tcpFin (tick : ℕ) (seg : Segment) (x : ConnTx) : ConnTx :=
  if seg.has tcpFlagFin then
    let c := if finInSequence seg x.1 then { x.1 with rcvNxt := u32 (x.1.rcvNxt + 1) } else x.1
    sendAck tick ({ c with peerClosed := true }, x.2)
  else x

def tcpInput (tick : ℕ) (seg : Segment) (x : ConnTx) : ConnTx :=
  let c := x.1
  if seg.has tcpFlagRst then ({ c with state := .closed, used := false }, x.2)
  else if c.state = .synSent then
    if seg.has tcpFlagSyn && seg.has tcpFlagAck && seg.ack == c.sndNxt then
      sendAck tick ({ c with
        rcvNxt := u32 (seg.seq + 1)
        sndUna := seg.ack
        state := .established
        txPending := false }, x.2)
    else x
  else if c.state ≠ .established then x
  else tcpFin tick seg (tcpPayload tick seg (tcpAck seg c, x.2))

namespace Net

def setConn (s : Net) (i : ℕ) (x : ConnTx) : Net :=
  { s with conns := Function.update s.conns i x.1, answers := x.2 }

def tcpConnById (s : Net) (i : ℤ) : Option ℕ :=
  if i < 0 || netTcpConnMax ≤ i then none
  else if !(s.conns i.toNat).used then none
  else some i.toNat

def matchesConn (c : TcpConn) (seg : Segment) : Bool :=
  c.localPort == seg.dstPort && c.remotePort == seg.srcPort && c.remoteIp == seg.saddr

def tcpFindConn (s : Net) (seg : Segment) : Option ℕ :=
  (List.range netTcpConnMax).find? fun i =>
    (s.conns i).used && (s.conns i).state ≠ .closed && matchesConn (s.conns i) seg

def target (s : Net) (f : List UInt8) : Option (ℕ × Segment) :=
  if !s.present then none
  else
    match tcpOfFrame f with
    | none => none
    | some seg => if seg.daddr != s.ip then none else (s.tcpFindConn seg).map (·, seg)

end Net

def netRxFrame (f : List UInt8) (s : Net) : Net :=
  match s.target f with
  | none => s
  | some (i, seg) => s.setConn i (tcpInput s.tickCount seg (s.conns i, s.answers))

/-! ## The calls of the socket layer -/

def newConn (s : Net) (dstIp : List UInt8) (dstPort localPort : ℕ) : TcpConn :=
  let una := u32 (0x10000000 ^^^ u32 s.tickCount ^^^ u32 (localPort * 256) ^^^ dstPort)
  { TcpConn.zero with
    used := true
    state := .synSent
    remoteIp := dstIp
    localPort := localPort
    remotePort := dstPort
    sndUna := una
    sndNxt := u32 (una + 1) }

def netTcpConnect (dstIp : List UInt8) (dstPort localPort : ℕ) (s : Net) : Except ℤ ℕ × Net :=
  if dstPort == 0 || localPort == 0 then (.error eInval, s)
  else if !s.present then (.error eNetdown, s)
  else
    match (List.range netTcpConnMax).find? fun i => !(s.conns i).used with
    | none => (.error eMfile, s)
    | some slot =>
      let c := newConn s dstIp dstPort localPort
      (.ok slot, s.setConn slot (tcpSendOnConn s.tickCount c.sndUna 0 (2 ^ tcpFlagSyn) [] true (c, s.answers)).2)

def TcpConn.consume (n : ℕ) (c : TcpConn) : TcpConn :=
  { c with rxBuf := shiftDown n c.rxLen c.rxBuf, rxLen := c.rxLen - n }

def netTcpRecv (connId : ℤ) (len : ℕ) (s : Net) : (ℤ × List UInt8) × Net :=
  match s.tcpConnById connId with
  | none => ((eInval, []), s)
  | some i =>
    let c := s.conns i
    if len == 0 then ((eInval, []), s)
    else if c.rxLen == 0 then
      if c.peerClosed then ((0, []), s) else ((eAgain, []), s)
    else
      let n := min len c.rxLen
      ((n, contents c.rxBuf n), s.setConn i (c.consume n, s.answers))

def netTcpSend (connId : ℤ) (data : List UInt8) (s : Net) : ℤ × Net :=
  match s.tcpConnById connId with
  | none => (eInval, s)
  | some i =>
    let c := s.conns i
    if data.length == 0 then (eInval, s)
    else if c.state ≠ .established || c.peerClosed then (eNotconn, s)
    else if netTcpTxBuf < data.length then (eMsgsize, s)
    else if c.txPending then (eAgain, s)
    else
      match tcpSendOnConn s.tickCount c.sndNxt c.rcvNxt (2 ^ tcpFlagAck + 2 ^ tcpFlagPsh) data true
        (c, s.answers) with
      | (false, x) => (eAgain, s.setConn i x)
      | (true, c, a) =>
        ((data.length : ℤ), s.setConn i ({ c with sndNxt := u32 (c.sndNxt + data.length) }, a))

def netTcpIsConnected (connId : ℤ) (s : Net) : ℤ :=
  match s.tcpConnById connId with
  | none => eNotconn
  | some i =>
    if (s.conns i).state = .established then 1
    else if (s.conns i).state = .closed then eConnreset
    else 0

def netTcpClose (connId : ℤ) (s : Net) : ℤ × Net :=
  match s.tcpConnById connId with
  | none => (eNotconn, s)
  | some i =>
    let c := s.conns i
    if c.state = .established then
      let x := (tcpSendOnConn s.tickCount c.sndNxt c.rcvNxt (2 ^ tcpFlagFin + 2 ^ tcpFlagAck) [] false
        (c, s.answers)).2
      (0, s.setConn i (.zero, x.2))
    else (0, s.setConn i (.zero, s.answers))

def tickConn (tick : ℕ) (x : ConnTx) : ConnTx :=
  let c := x.1
  if !c.used || c.state = .closed then x
  else if u32 (u32 tick + 2 ^ 32 - c.lastTxTick) < netTcpTxRetryTicks then x
  else if netTcpTxMaxRetries ≤ c.retries then ({ c with state := .closed, used := false }, x.2)
  else
    let c := { c with retries := c.retries + 1 }
    if c.state = .synSent then
      (tcpSendOnConn tick c.sndUna 0 (2 ^ tcpFlagSyn) [] false (c, x.2)).2
    else if c.state = .established && c.txPending then
      (tcpSendOnConn tick c.txSeq c.txAck c.txFlags c.txData false (c, x.2)).2
    else (c, x.2)

/-- `net_tick`; the frames the device delivers when it is polled are calls of `net_rx_frame`. -/
def netTick (s : Net) : Net :=
  let s := { s with tickCount := u64 (s.tickCount + 1) }
  forRange (fun i s => s.setConn i (tickConn s.tickCount (s.conns i, s.answers))) 0 netTcpConnMax s

/-- What the stack reacts to. -/
inductive NetOp
  | frame (f : List UInt8)
  | recv (connId : ℤ) (len : ℕ)
  | send (connId : ℤ) (data : List UInt8)
  | tick
  | config (present : Bool) (ip : List UInt8)

def NetOp.exec : NetOp → Net → (ℤ × List UInt8) × Net
  | frame f, s => ((0, []), netRxFrame f s)
  | recv connId len, s => netTcpRecv connId len s
  | send connId data, s => let r := netTcpSend connId data s; ((r.1, []), r.2)
  | tick, s => ((0, []), netTick s)
  | config present ip, s => ((0, []), { s with present := present, ip := ip })

/-- An event, or a call that opens or closes a connection. -/
inductive TcpCall
  | event (op : NetOp)
  | connect (dstIp : List UInt8) (dstPort localPort : ℕ)
  | close (connId : ℤ)

def TcpCall.exec : TcpCall → Net → (ℤ × List UInt8) × Net
  | event op, s => op.exec s
  | connect dstIp dstPort localPort, s =>
    match netTcpConnect dstIp dstPort localPort s with
    | (.ok i, s') => (((i : ℤ), []), s')
    | (.error e, s') => ((e, []), s')
  | close connId, s => let r := netTcpClose connId s; ((r.1, []), r.2)

def Net.init (present : Bool) (ip : List UInt8) (answers : List Bool) : Net where
  present := present
  ip := ip
  tickCount := 0
  conns := fun _ => .zero
  answers := answers

end Obelisk
