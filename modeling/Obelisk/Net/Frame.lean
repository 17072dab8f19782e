import Obelisk.Lib.Reads
import Obelisk.Net.Model

/-!
# Received frames

The whole of `net_rx_frame`: ARP, IPv4, UDP with DHCP, TCP and ICMP. The frame is a memory of bytes that
goes on behind its end, as a pointer does; every read is recorded, with the part of the frame that the
pointer was made for.

The frames handed to the driver are collected in `Core.sent`; for TCP they are the answers of `Net`.
Where the source stops at the first comparison that fails, the model reads all the fields compared, and
the payload of a segment is read whole although only what fits is copied.
-/

namespace Obelisk

open KLib

def sizeofArp : ℕ := 28
def sizeofUdp : ℕ := 8
def sizeofIcmpEcho : ℕ := 8
def sizeofFrame : ℕ := 1514
def ethTypeArp : ℕ := 0x0806
def arpHtypeEthernet : ℕ := 1
def arpPtypeIpv4 : ℕ := 0x0800
def arpOpRequest : ℕ := 1
def arpOpReply : ℕ := 2
def ipv4ProtoIcmp : ℕ := 1
def ipv4ProtoUdp : ℕ := 17
def icmpEchoReply : UInt8 := 0
def icmpEchoRequest : UInt8 := 8
def udpPortDhcpServer : ℕ := 67
def udpPortDhcpClient : ℕ := 68
def dhcpOpBootrequest : UInt8 := 1
def dhcpOpBootreply : UInt8 := 2
def dhcpMagicCookie : ℕ := 0x63825363
def dhcpOptMsgType : UInt8 := 53
def dhcpOptSubnetMask : UInt8 := 1
def dhcpOptRouter : UInt8 := 3
def dhcpOptReqIp : UInt8 := 50
def dhcpOptServerId : UInt8 := 54
def dhcpOptEnd : UInt8 := 255
def dhcpMsgOffer : UInt8 := 2
def dhcpMsgRequest : UInt8 := 3
def dhcpMsgAck : UInt8 := 5
def dhcpMinPktLen : ℕ := 240

def dhcpOptionsLen : ℕ := 312

def netEventRing : ℕ := 32

def udpEventLen : ℕ := 512

def icmpEventLen : ℕ := 256

/-- An entry of the ARP cache. -/
structure ArpEntry where
  valid : Bool
  ip : List UInt8
  mac : List UInt8

inductive DhcpState
  | disabled
  | discoverSent
  | requestSent
  | bound
  | failed
  deriving DecidableEq, Repr

/-- The DHCP client. -/
structure Dhcp where
  state : DhcpState
  xid : ℕ
  lastEventTick : ℕ
  retries : ℕ
  offeredIp : List UInt8
  offeredMask : List UInt8
  offeredRouter : List UInt8
  serverId : List UInt8

/-- A received UDP datagram. -/
structure UdpEvent where
  srcIp : List UInt8
  srcPort : ℕ
  dstPort : ℕ
  payload : List UInt8

/-- A received ICMP message. -/
structure IcmpEvent where
  srcIp : List UInt8
  packet : List UInt8

/-- A ring of events; the oldest is dropped when it is full. -/
structure EventRing (α : Type) where
  slots : ℕ → Option α
  head : ℕ
  tail : ℕ

/-- `udp_event_push` and `icmp_event_push`: the oldest event is dropped from a full ring. -/
def EventRing.push {α : Type} (x : α) (r : EventRing α) : EventRing α :=
  let next := (r.head + 1) % netEventRing
  { slots := Function.update r.slots r.head (some x)
    head := next
    tail := if next = r.tail then (r.tail + 1) % netEventRing else r.tail }

/-- The state of the network core: the connections and the device address in `net`, the rest of
`struct net_dev`, the ARP entry, the DHCP client and the events. -/
structure Core where
  net : Net
  mac : List UInt8
  mask : List UInt8
  gw : List UInt8
  arp : ArpEntry
  dhcp : Dhcp
  udpEvents : EventRing UdpEvent
  icmpEvents : EventRing IcmpEvent
  rxFrames : ℕ
  rxDrop : ℕ
  arpRx : ℕ
  ipv4Rx : ℕ
  icmpEchoRx : ℕ
  udpRx : ℕ
  dhcpEvents : ℕ
  /-- The frames that were handed to the driver. -/
  sent : List (List UInt8)

/-- The part of the frame a pointer was made for: the headers up to IPv4, or the payload of IPv4. -/
inductive FramePart
  | header
  | payload
  deriving DecidableEq, Repr

abbrev FrameM := Reads FramePart

def ntohsAt (r : FramePart) (i : ℕ) : FrameM ℕ := do
  let a ← Reads.byte r i
  let b ← Reads.byte r (i + 1)
  pure (a.toNat * 256 + b.toNat)

def ntohlAt (r : FramePart) (i : ℕ) : FrameM ℕ := do
  let a ← ntohsAt r i
  let b ← ntohsAt r (i + 2)
  pure (a * 65536 + b)

/-! ## Frames that are sent -/

def foldCarry (sum : ℕ) : ℕ :=
  if sum / 65536 = 0 then sum else foldCarry (sum % 65536 + sum / 65536)
termination_by sum
decreasing_by omega

def wordSum : List UInt8 → ℕ
  | a :: b :: rest => a.toNat * 256 + b.toNat + wordSum rest
  | [a] => a.toNat * 256
  | [] => 0

def ipChecksum (buf : List UInt8) : ℕ := 65535 - foldCarry (wordSum buf)

def ethFrame (dst src : List UInt8) (ethertype : ℕ) (body : List UInt8) : List UInt8 :=
  dst ++ src ++ bigEndian 2 ethertype ++ body

def ipv4Header (totalLen protocol : ℕ) (saddr daddr : List UInt8) : List UInt8 :=
  let hdr := fun sum => [0x45, 0] ++ bigEndian 2 totalLen ++ [0, 0, 0, 0, 64, .ofNat protocol] ++
    bigEndian 2 sum ++ saddr ++ daddr
  hdr (ipChecksum (hdr 0))

def arpPacket (oper : ℕ) (sha spa tha tpa : List UInt8) : List UInt8 :=
  bigEndian 2 arpHtypeEthernet ++ bigEndian 2 arpPtypeIpv4 ++ [6, 4] ++ bigEndian 2 oper ++ sha ++ spa ++ tha ++ tpa

def broadcastMac : List UInt8 := List.replicate 6 0xff

namespace Core

def netTxRaw (frame : List UInt8) (s : Core) : Core :=
  if s.net.present then { s with sent := s.sent ++ [frame] } else s

def sendArpRequest (targetIp : List UInt8) (s : Core) : Core :=
  s.netTxRaw (ethFrame broadcastMac s.mac ethTypeArp
    (arpPacket arpOpRequest s.mac s.net.ip (List.replicate 6 0) targetIp))

def sendArpReply (sha spa dstMac : List UInt8) (s : Core) : Core :=
  s.netTxRaw (ethFrame dstMac s.mac ethTypeArp (arpPacket arpOpReply s.mac s.net.ip sha spa))

def sendIpv4Udp (dstMac srcIp dstIp : List UInt8) (srcPort dstPort : ℕ) (payload : List UInt8)
    (s : Core) : Core :=
  let ipLen := sizeofIpv4 + sizeofUdp + payload.length
  if payload = [] ∨ sizeofFrame < sizeofEth + ipLen then s
  else s.netTxRaw (ethFrame dstMac s.mac ethTypeIpv4 (ipv4Header ipLen ipv4ProtoUdp srcIp dstIp ++
    bigEndian 2 srcPort ++ bigEndian 2 dstPort ++ bigEndian 2 (sizeofUdp + payload.length) ++ [0, 0] ++
    payload))

def dhcpRequestPacket (s : Core) : List UInt8 :=
  let options := [dhcpOptMsgType, 1, dhcpMsgRequest, dhcpOptReqIp, 4] ++ s.dhcp.offeredIp ++
    [dhcpOptServerId, 4] ++ s.dhcp.serverId ++ [dhcpOptEnd]
  [dhcpOpBootrequest, 1, 6, 0] ++ bigEndian 4 s.dhcp.xid ++ [0, 0] ++ bigEndian 2 0x8000 ++
    List.replicate 16 0 ++ s.mac ++ List.replicate 202 0 ++ bigEndian 4 dhcpMagicCookie ++ options ++
    List.replicate (dhcpOptionsLen - options.length) 0

def dhcpSendRequest (s : Core) : Core :=
  let pkt := s.dhcpRequestPacket
  let s := { s with
    dhcp := { s.dhcp with
      lastEventTick := u32 s.net.tickCount
      retries := u32 (s.dhcp.retries + 1)
      state := .requestSent }
    dhcpEvents := s.dhcpEvents + 1 }
  s.sendIpv4Udp broadcastMac [0, 0, 0, 0] [255, 255, 255, 255] udpPortDhcpClient udpPortDhcpServer pkt

def sendIcmpEchoReply (dstMac daddr icmp : List UInt8) (s : Core) : Core :=
  let body := fun sum => [icmpEchoReply, 0] ++ bigEndian 2 sum ++ icmp.drop 4
  s.netTxRaw (ethFrame dstMac s.mac ethTypeIpv4
    (ipv4Header (sizeofIpv4 + icmp.length) ipv4ProtoIcmp s.net.ip daddr ++ body (ipChecksum (body 0))))

def drop (s : Core) : Core := { s with rxDrop := s.rxDrop + 1 }

end Core

/-! ## DHCP -/

/-- What the option parser finds. -/
structure DhcpOptions where
  msgType : Option UInt8
  mask : List UInt8
  router : List UInt8
  serverId : List UInt8

def dhcpOption (i : ℕ) (code len : UInt8) (o : DhcpOptions) : FrameM DhcpOptions :=
  if code = dhcpOptMsgType ∧ len = 1 then do
    let b ← Reads.byte .payload i
    pure { o with msgType := some b }
  else if code = dhcpOptSubnetMask ∧ len = 4 then do
    let v ← Reads.bytes .payload i 4
    pure { o with mask := v }
  else if code = dhcpOptRouter ∧ 4 ≤ len then do
    let v ← Reads.bytes .payload i 4
    pure { o with router := v }
  else if code = dhcpOptServerId ∧ len = 4 then do
    let v ← Reads.bytes .payload i 4
    pure { o with serverId := v }
  else pure o

def dhcpParseOptions (opts optsLen i : ℕ) (o : DhcpOptions) : FrameM DhcpOptions :=
  if i < optsLen then do
    let code ← Reads.byte .payload (opts + i)
    if code = dhcpOptEnd then pure o
    else if code = 0 then dhcpParseOptions opts optsLen (i + 1) o
    else if optsLen ≤ i + 1 then pure o
    else do
      let len ← Reads.byte .payload (opts + (i + 1))
      if optsLen < i + 2 + len.toNat then pure o
      else do
        let o ← dhcpOption (opts + (i + 2)) code len o
        dhcpParseOptions opts optsLen (i + 2 + len.toNat) o
  else pure o
termination_by optsLen - i

def dhcpOnOffer (pkt optsLen : ℕ) (s : Core) : FrameM Core := do
  let o ← dhcpParseOptions (pkt + dhcpMinPktLen) optsLen 0
    ⟨none, [0, 0, 0, 0], [0, 0, 0, 0], [0, 0, 0, 0]⟩
  if o.msgType = some dhcpMsgOffer ∧ s.dhcp.state = .discoverSent then do
    let yiaddr ← Reads.bytes .payload (pkt + 16) 4
    pure { s with dhcp := { s.dhcp with
      offeredIp := yiaddr
      offeredMask := o.mask
      offeredRouter := o.router
      serverId := o.serverId } }.dhcpSendRequest
  else pure s

def dhcpOnAck (pkt optsLen : ℕ) (s : Core) : FrameM Core := do
  let o ← dhcpParseOptions (pkt + dhcpMinPktLen) optsLen 0
    ⟨none, [255, 255, 255, 0], [0, 0, 0, 0], [0, 0, 0, 0]⟩
  if o.msgType = some dhcpMsgAck ∧ s.dhcp.state = .requestSent then do
    let yiaddr ← Reads.bytes .payload (pkt + 16) 4
    let s := { s with
      net := { s.net with ip := yiaddr }
      mask := o.mask
      gw := o.router
      dhcp := { s.dhcp with state := .bound }
      dhcpEvents := s.dhcpEvents + 1 }
    pure (if o.router = [0, 0, 0, 0] then s else s.sendArpRequest o.router)
  else pure s

def dhcpInput (pkt dlen : ℕ) (s : Core) : FrameM Core :=
  if dlen < dhcpMinPktLen then pure s
  else do
    let op ← Reads.byte .payload pkt
    let xid ← ntohlAt .payload (pkt + 4)
    let magic ← ntohlAt .payload (pkt + 236)
    if op = dhcpOpBootreply ∧ xid = s.dhcp.xid ∧ magic = dhcpMagicCookie then do
      let optsLen := min (dlen - dhcpMinPktLen) dhcpOptionsLen
      let s ← dhcpOnOffer pkt optsLen s
      dhcpOnAck pkt optsLen s
    else pure s

def Dhcp.takes (payloadLen srcPort dstPort ulen : ℕ) (d : Dhcp) : Bool :=
  sizeofUdp ≤ ulen && ulen ≤ payloadLen && dstPort = udpPortDhcpClient && srcPort = udpPortDhcpServer &&
    (d.state = .discoverSent || d.state = .requestSent)

def udpInput (p payloadLen : ℕ) (s : Core) : FrameM Core :=
  let s := { s with udpRx := s.udpRx + 1 }
  if payloadLen < sizeofUdp then pure s
  else do
    let srcPort ← ntohsAt .payload p
    let dstPort ← ntohsAt .payload (p + 2)
    let ulen ← ntohsAt .payload (p + 4)
    if s.dhcp.takes payloadLen srcPort dstPort ulen then
      dhcpInput (p + sizeofUdp) (ulen - sizeofUdp) s
    else do
      let daddr ← Reads.bytes .header (sizeofEth + 16) 4
      if daddr = s.net.ip ∧ sizeofUdp < ulen then do
        let saddr ← Reads.bytes .header (sizeofEth + 12) 4
        let data ← Reads.bytes .payload (p + sizeofUdp) (min (ulen - sizeofUdp) udpEventLen)
        pure { s with udpEvents := s.udpEvents.push ⟨saddr, srcPort, dstPort, data⟩ }
      else pure s

def tcpFrameInput (p payloadLen : ℕ) (s : Core) : FrameM Core :=
  if payloadLen < sizeofTcp then pure s
  else do
    let daddr ← Reads.bytes .header (sizeofEth + 16) 4
    if daddr ≠ s.net.ip then pure s
    else do
      let doffFlags ← ntohsAt .payload (p + 12)
      let thl := doffFlags / 4096 % 16 * 4
      if thl < sizeofTcp ∨ payloadLen < thl then pure s.drop
      else do
        let srcPort ← ntohsAt .payload p
        let dstPort ← ntohsAt .payload (p + 2)
        let seq ← ntohlAt .payload (p + 4)
        let ack ← ntohlAt .payload (p + 8)
        let saddr ← Reads.bytes .header (sizeofEth + 12) 4
        let data ← Reads.bytes .payload (p + thl) (payloadLen - thl)
        let seg := ⟨saddr, daddr, srcPort, dstPort, seq, ack, doffFlags % 512, data⟩
        pure <| match s.net.tcpFindConn seg with
          | none => s
          | some i => { s with
            net := s.net.setConn i (tcpInput s.net.tickCount seg (s.net.conns i, s.net.answers)) }

def icmpInput (p payloadLen : ℕ) (s : Core) : FrameM Core := do
  let daddr ← Reads.bytes .header (sizeofEth + 16) 4
  if daddr ≠ s.net.ip then pure s
  else if payloadLen < sizeofIcmpEcho then pure s.drop
  else do
    let type ← Reads.byte .payload p
    if type = icmpEchoRequest then
      let s := { s with icmpEchoRx := s.icmpEchoRx + 1 }
      if sizeofFrame < sizeofEth + sizeofIpv4 + payloadLen then pure s
      else do
        let dstMac ← Reads.bytes .header 6 6
        let saddr ← Reads.bytes .header (sizeofEth + 12) 4
        let icmp ← Reads.bytes .payload p payloadLen
        pure (s.sendIcmpEchoReply dstMac saddr icmp)
    else if type = icmpEchoReply then do
      let saddr ← Reads.bytes .header (sizeofEth + 12) 4
      let packet ← Reads.bytes .payload p (min payloadLen icmpEventLen)
      pure { s with icmpEvents := s.icmpEvents.push ⟨saddr, packet⟩ }
    else pure s

def arpInput (len : ℕ) (s : Core) : FrameM Core :=
  let s := { s with arpRx := s.arpRx + 1 }
  if len < sizeofEth + sizeofArp then pure s.drop
  else do
    let htype ← ntohsAt .header sizeofEth
    let ptype ← ntohsAt .header (sizeofEth + 2)
    let hlen ← Reads.byte .header (sizeofEth + 4)
    let plen ← Reads.byte .header (sizeofEth + 5)
    if htype ≠ arpHtypeEthernet ∨ ptype ≠ arpPtypeIpv4 ∨ hlen ≠ 6 ∨ plen ≠ 4 then pure s.drop
    else do
      let oper ← ntohsAt .header (sizeofEth + 6)
      let sha ← Reads.bytes .header (sizeofEth + 8) 6
      let spa ← Reads.bytes .header (sizeofEth + 14) 4
      let tpa ← Reads.bytes .header (sizeofEth + 24) 4
      let s := { s with arp := ⟨true, spa, sha⟩ }
      if oper = arpOpRequest ∧ tpa = s.net.ip then do
        let src ← Reads.bytes .header 6 6
        pure (s.sendArpReply sha spa src)
      else pure s

def ipv4Input (len : ℕ) (s : Core) : FrameM Core :=
  let s := { s with ipv4Rx := s.ipv4Rx + 1 }
  if len < sizeofEth + sizeofIpv4 then pure s.drop
  else do
    let versionIhl ← Reads.byte .header sizeofEth
    if versionIhl.toNat / 16 ≠ 4 then pure s.drop
    else
      let ihl := versionIhl.toNat % 16 * 4
      if ihl < sizeofIpv4 ∨ len < sizeofEth + ihl then pure s.drop
      else do
        let totalLen ← ntohsAt .header (sizeofEth + 2)
        if totalLen < ihl ∨ len < sizeofEth + totalLen then pure s.drop
        else do
          let protocol ← Reads.byte .header (sizeofEth + 9)
          if protocol.toNat = ipv4ProtoUdp then udpInput (sizeofEth + ihl) (totalLen - ihl) s
          else if protocol.toNat = ipv4ProtoTcp then tcpFrameInput (sizeofEth + ihl) (totalLen - ihl) s
          else if protocol.toNat = ipv4ProtoIcmp then icmpInput (sizeofEth + ihl) (totalLen - ihl) s
          else pure s

def Core.netRxFrame (len : ℕ) (s : Core) : FrameM Core :=
  if !s.net.present ∨ len < sizeofEth then pure s
  else do
    let s := { s with rxFrames := s.rxFrames + 1 }
    let ethertype ← ntohsAt .header 12
    if ethertype = ethTypeArp then arpInput len s
    else if ethertype = ethTypeIpv4 then ipv4Input len s
    else pure s

def Core.start (mac : List UInt8) : Core where
  net := Net.init true [10, 0, 2, 15] []
  mac := mac
  mask := [255, 255, 255, 0]
  gw := [10, 0, 2, 2]
  arp := ⟨false, [0, 0, 0, 0], [0, 0, 0, 0, 0, 0]⟩
  dhcp :=
    { state := .disabled
      xid := 0x0b1e0000 ^^^ (byteAt mac 2 * 256) ^^^ byteAt mac 5
      lastEventTick := 0
      retries := 0
      offeredIp := [0, 0, 0, 0]
      offeredMask := [0, 0, 0, 0]
      offeredRouter := [0, 0, 0, 0]
      serverId := [0, 0, 0, 0] }
  udpEvents := ⟨fun _ => none, 0, 0⟩
  icmpEvents := ⟨fun _ => none, 0, 0⟩
  rxFrames := 0
  rxDrop := 0
  arpRx := 0
  ipv4Rx := 0
  icmpEchoRx := 0
  udpRx := 0
  dhcpEvents := 0
  sent := []

end Obelisk
