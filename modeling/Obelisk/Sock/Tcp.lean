import Obelisk.Sock.Model

/-!
# TCP sockets

The socket calls on TCP sockets, on the connections of the network layer. `sys_connect`, `sys_sendto`
and `sys_recvfrom` wait in a loop that calls `net_tick` and yields the processor, so that other
processes, the timer and the network go on between two rounds.

The sockets are the slots of `socket_table` that `sys_socket` makes for `IPPROTO_TCP`.
-/

namespace Obelisk

open KLib

def eIntr : ℤ := -4
def eTimedout : ℤ := -110

def tcpConnectLoops : ℕ := 30000

def tcpSendRetries : ℕ := 200

def tcpRecvLoops : ℕ := 20000

def tcpSockBuf : ℕ := 2048

def KSocket.isTcp (s : KSocket) : Bool :=
  s.domain == afInet && s.type == sockStream && s.protocol == ipprotoTcp

/-- A task that waits in a call, with the rounds it has made. -/
inductive TcpWait
  | connect (i conn loops : ℕ)
  | send (i : ℕ) (data : List UInt8) (round retries : ℕ)
  | recv (i want round loops : ℕ)

def TcpWait.sock : TcpWait → ℕ
  | connect i _ _ => i
  | send i _ _ _ => i
  | recv i _ _ _ => i

/-- The network stack, the sockets and the waiting tasks. -/
structure TcpSys where
  net : Net
  socks : SockTable
  waits : ℕ → Option TcpWait

abbrev TcpAnswer := Option (ℤ × List UInt8)

namespace TcpSys

def ends (pid : ℕ) (r : ℤ × List UInt8) (s : TcpSys) : TcpAnswer × TcpSys :=
  (some r, { s with waits := Function.update s.waits pid none })

def waitsIn (pid : ℕ) (w : TcpWait) (s : TcpSys) : TcpAnswer × TcpSys :=
  (none, { s with waits := Function.update s.waits pid (some w) })

def fails (e : ℤ) (s : TcpSys) : TcpAnswer × TcpSys := (some (e, []), s)

def tcpSocket (pid : ℕ) (fd : ℤ) (s : TcpSys) : Option ℕ :=
  (socketGetOwned pid fd s.socks).filter fun i => (s.socks i).isTcp

def bindPort (i : ℕ) (s : TcpSys) : TcpSys :=
  { s with socks := s.socks.upd i fun x =>
    { x with boundPort := if x.boundPort = 0 then 45000 + i else x.boundPort } }

def closeConn (conn : ℤ) (s : TcpSys) : TcpSys := { s with net := (netTcpClose conn s.net).2 }

def tick (s : TcpSys) : TcpSys := { s with net := netTick s.net }

def connectRound (pid i conn loops : ℕ) (s : TcpSys) : TcpAnswer × TcpSys :=
  match loops with
  | 0 => (s.closeConn conn).ends pid (eTimedout, [])
  | loops + 1 =>
    let st := netTcpIsConnected conn s.net
    if st = 1 then
      { s with socks := s.socks.upd i ({ · with tcpConnId := conn, connected := true }) }.ends pid (0, [])
    else if st < 0 then (s.closeConn conn).ends pid (st, [])
    else s.tick.waitsIn pid (.connect i conn loops)

/-- A round of `sys_sendto`; `ctrlc` says that `maybe_handle_ctrlc` finds the key. -/
def sendRound (pid i : ℕ) (data : List UInt8) (round retries : ℕ) (ctrlc : Bool) (s : TcpSys) :
    TcpAnswer × TcpSys :=
  if round % 8 = 0 && ctrlc then s.ends pid (eIntr, [])
  else
    let r := netTcpSend (s.socks i).tcpConnId data s.net
    let s := { s with net := r.2 }
    if r.1 ≠ eAgain then s.ends pid (if r.1 < 0 then r.1 else data.length, [])
    else if retries ≤ 1 then s.tick.ends pid (eAgain, [])
    else s.tick.waitsIn pid (.send i data (round + 1) (retries - 1))

/-- A round of `sys_recvfrom`; `fault` says that the bytes could not be copied to the caller. -/
def recvRound (pid i want round loops : ℕ) (ctrlc fault : Bool) (s : TcpSys) : TcpAnswer × TcpSys :=
  match loops with
  | 0 => s.ends pid (eAgain, [])
  | loops + 1 =>
    if round % 8 = 0 && ctrlc then s.ends pid (eIntr, [])
    else
      let r := netTcpRecv (s.socks i).tcpConnId want s.net
      let s := { s with net := r.2 }
      if 0 ≤ r.1.1 then s.ends pid (if fault then (eFault, []) else r.1)
      else if r.1.1 ≠ eAgain then s.ends pid (r.1.1, [])
      else s.tick.waitsIn pid (.recv i want (round + 1) loops)

def resume (pid : ℕ) (ctrlc fault : Bool) (s : TcpSys) : TcpAnswer × TcpSys :=
  match s.waits pid with
  | none => (none, s)
  | some (.connect i conn loops) => s.connectRound pid i conn loops
  | some (.send i data round retries) => s.sendRound pid i data round retries ctrlc
  | some (.recv i want round loops) => s.recvRound pid i want round loops ctrlc fault

def connect (pid : ℕ) (fd : ℤ) (addr : UserAddr) (dstIp : List UInt8) (s : TcpSys) :
    TcpAnswer × TcpSys :=
  match s.tcpSocket pid fd with
  | none => s.fails eBadf
  | some i =>
    match addr.check afInet with
    | some e => s.fails e
    | none =>
      if addr.port = 0 then s.fails eInval
      else
        let s := s.bindPort i
        match netTcpConnect dstIp addr.port (s.socks i).boundPort s.net with
        | (.error e, net) => { s with net := net }.fails e
        | (.ok conn, net) => { s with net := net }.waitsIn pid (.connect i conn tcpConnectLoops)

/-- `sys_sendto` up to its loop; `buf` is `none` for a `NULL` buffer. -/
def sendto (pid : ℕ) (fd : ℤ) (buf : Option (List UInt8)) (len : ℕ) (fault : Bool) (s : TcpSys) :
    TcpAnswer × TcpSys :=
  match s.tcpSocket pid fd with
  | none => s.fails eBadf
  | some i =>
    if len = 0 then s.fails 0
    else
      match buf with
      | none => s.fails eMsgsize
      | some data =>
        if tcpSockBuf < len then s.fails eMsgsize
        else if fault then s.fails eFault
        else if !(s.socks i).connected || (s.socks i).tcpConnId < 0 then s.fails eNotconn
        else s.waitsIn pid (.send i (data.take len) 0 tcpSendRetries)

def recvfrom (pid : ℕ) (fd : ℤ) (len : ℕ) (null : Bool) (s : TcpSys) : TcpAnswer × TcpSys :=
  match s.tcpSocket pid fd with
  | none => s.fails eBadf
  | some i =>
    if len = 0 then s.fails 0
    else if null then s.fails eFault
    else if !(s.socks i).connected || (s.socks i).tcpConnId < 0 then s.fails eNotconn
    else s.waitsIn pid (.recv i (min len tcpSockBuf) 0 tcpRecvLoops)

def dropConn (i : ℕ) (s : TcpSys) : TcpSys :=
  if 0 ≤ (s.socks i).tcpConnId then s.closeConn (s.socks i).tcpConnId else s

def shutdown (pid : ℕ) (fd : ℤ) (s : TcpSys) : TcpAnswer × TcpSys :=
  match s.tcpSocket pid fd with
  | none => s.fails eBadf
  | some i => { s.dropConn i with socks := (sysShutdown pid fd s.socks).2 }.fails 0

def close (pid : ℕ) (fd : ℤ) (s : TcpSys) : TcpAnswer × TcpSys :=
  match s.tcpSocket pid fd with
  | none => s.fails eBadf
  | some i => { s.dropConn i with socks := closeSocket i s.socks }.fails 0

end TcpSys

/-- The system calls on TCP sockets. -/
inductive TcpCallOp
  | socket (protocol : ℤ) (netReady : Bool)
  | bind (fd : ℤ) (addr : UserAddr)
  | connect (fd : ℤ) (addr : UserAddr) (dstIp : List UInt8)
  | sendto (fd : ℤ) (buf : Option (List UInt8)) (len : ℕ) (fault : Bool)
  | recvfrom (fd : ℤ) (len : ℕ) (null : Bool)
  | shutdown (fd : ℤ)
  | close (fd : ℤ)

def TcpCallOp.exec (pid : ℕ) (s : TcpSys) : TcpCallOp → TcpAnswer × TcpSys
  | socket protocol netReady =>
    let r := sysSocket pid afInet sockStream protocol netReady s.socks
    (some (r.1, []), { s with socks := r.2 })
  | bind fd addr =>
    let r := sysBind pid fd addr s.socks
    (some (r.1, []), { s with socks := r.2 })
  | connect fd addr dstIp => s.connect pid fd addr dstIp
  | sendto fd buf len fault => s.sendto pid fd buf len fault
  | recvfrom fd len null => s.recvfrom pid fd len null
  | shutdown fd => s.shutdown pid fd
  | close fd => s.close pid fd

/-- What can happen: a call, a waiting process that runs again, the timer, a frame, a change of the
device's address. -/
inductive TcpSysOp
  | call (pid : ℕ) (c : TcpCallOp)
  | resume (pid : ℕ) (ctrlc fault : Bool)
  | tick
  | frame (f : List UInt8)
  | config (present : Bool) (ip : List UInt8)

def TcpSysOp.exec : TcpSysOp → TcpSys → TcpAnswer × TcpSys
  | call pid c, s => if (s.waits pid).isSome then (none, s) else c.exec pid s
  | resume pid ctrlc fault, s => s.resume pid ctrlc fault
  | tick, s => (none, s.tick)
  | frame f, s => (none, { s with net := netRxFrame f s.net })
  | config present ip, s => (none, { s with net := { s.net with present := present, ip := ip } })

def TcpSys.boot (present : Bool) (ip : List UInt8) (answers : List Bool) : TcpSys :=
  ⟨Net.init present ip answers, SockTable.init, fun _ => none⟩

end Obelisk
