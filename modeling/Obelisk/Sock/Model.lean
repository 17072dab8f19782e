import Obelisk.Lib.RingBuffer
import Obelisk.Proc.Model

/-!
# Sockets

The socket calls of `kernel/arch/x86_64/process/syscall.c` on the global `socket_table`.

`AF_UNIX` stream sockets are modelled in full. The answers of the network stack for `AF_INET` and the
failures of copies from or to the caller's memory are arguments.
-/

namespace Obelisk

open KLib Function

def afUnix : ℤ := 1
def afInet : ℤ := 2
def sockStream : ℤ := 1
def sockDgram : ℤ := 2
def sockRaw : ℤ := 3
def ipprotoIcmp : ℤ := 1
def ipprotoTcp : ℤ := 6
def ipprotoUdp : ℤ := 17
def socketFdBase : ℤ := 512
def socketMax : ℕ := 64
def unixPathMax : ℕ := 108
def unixRxBuf : ℕ := 4096
def unixPendingMax : ℕ := 8
def eFault : ℤ := -14
def ePipe : ℤ := -32
def eDestaddrreq : ℤ := -89
def eProtonosupport : ℤ := -93
def eOpnotsupp : ℤ := -95
def eAfnosupport : ℤ := -97
def eAddrinuse : ℤ := -98
def eConnrefused : ℤ := -111

/-- `struct ksocket`, but for `remote_ip` and `remote_port`. -/
structure KSocket where
  used : Bool
  ownerPid : ℕ
  domain : ℤ
  type : ℤ
  protocol : ℤ
  boundPort : ℕ
  tcpConnId : ℤ
  connected : Bool
  peerClosed : Bool
  peerFd : ℤ
  listening : Bool
  bound : Bool
  unixPath : List UInt8
  pendingFds : ℕ → ℤ
  pendingHead : ℕ
  pendingTail : ℕ
  rxBuf : ℕ → UInt8
  rxHead : ℕ
  rxLen : ℕ

def KSocket.zero : KSocket where
  used := false
  ownerPid := 0
  domain := 0
  type := 0
  protocol := 0
  boundPort := 0
  tcpConnId := 0
  connected := false
  peerClosed := false
  peerFd := 0
  listening := false
  bound := false
  unixPath := []
  pendingFds := fun _ => 0
  pendingHead := 0
  pendingTail := 0
  rxBuf := fun _ => 0
  rxHead := 0
  rxLen := 0

def KSocket.fresh (pid : ℕ) : KSocket :=
  { KSocket.zero with used := true, ownerPid := pid, tcpConnId := -1, peerFd := -1 }

def KSocket.unixStream (s : KSocket) : Bool := s.domain == afUnix && s.type == sockStream

abbrev SockTable := ℕ → KSocket

namespace SockTable

def upd (S : SockTable) (i : ℕ) (f : KSocket → KSocket) : SockTable := update S i (f (S i))

def init : SockTable := fun _ => KSocket.zero

end SockTable

def socketFd (i : ℕ) : ℤ := socketFdBase + i

def socketFdToIndex (fd : ℤ) : Option ℕ :=
  if 0 ≤ fd - socketFdBase ∧ fd - socketFdBase < socketMax then some (fd - socketFdBase).toNat
  else none

def socketGetAny (fd : ℤ) (S : SockTable) : Option ℕ :=
  (socketFdToIndex fd).filter fun i => (S i).used

def socketGetOwned (pid : ℕ) (fd : ℤ) (S : SockTable) : Option ℕ :=
  (socketFdToIndex fd).filter fun i => (S i).used && (S i).ownerPid == pid

def unusedSlot (S : SockTable) : Option ℕ := (List.range socketMax).find? fun i => !(S i).used

def socketAllocSlot (pid : ℕ) (S : SockTable) : Option (ℕ × SockTable) :=
  (unusedSlot S).map fun i => (i, update S i (.fresh pid))

def KSocket.queuePending (fd : ℤ) (s : KSocket) : Option KSocket :=
  let next := (s.pendingHead + 1) % unixPendingMax
  if next = s.pendingTail then none
  else some { s with
    pendingFds := update s.pendingFds s.pendingHead fd
    pendingHead := next }

def KSocket.popPending (s : KSocket) : Option (ℤ × KSocket) :=
  if s.pendingHead = s.pendingTail then none
  else some (s.pendingFds s.pendingTail,
    { s with pendingTail := (s.pendingTail + 1) % unixPendingMax })

/-- `unix_socket_rx_push`: the bytes that fit are stored; `none` if there is no room. -/
def KSocket.rxPush (data : List UInt8) (s : KSocket) : Option (ℕ × KSocket) :=
  let space := unixRxBuf - s.rxLen
  if data = [] then some (0, s)
  else if space = 0 then none
  else
    let n := min data.length space
    some (n, { s with
      rxBuf := ringWrite unixRxBuf (data.take n) ((s.rxHead + s.rxLen) % unixRxBuf) s.rxBuf
      rxLen := s.rxLen + n })

def KSocket.rxPop (len : ℕ) (s : KSocket) : List UInt8 × KSocket :=
  let n := min len s.rxLen
  (ringRead unixRxBuf s.rxBuf s.rxHead n,
    { s with rxHead := (s.rxHead + n) % unixRxBuf, rxLen := s.rxLen - n })

/-- A socket address in user memory. -/
structure UserAddr where
  /-- The pointer is not `NULL` and the length is large enough. -/
  valid : Bool
  fault : Bool
  family : ℤ
  /-- `sun_path` up to its terminating zero, at most 108 bytes. -/
  path : List UInt8
  port : ℕ

def UserAddr.check (family : ℤ) (a : UserAddr) : Option ℤ :=
  if !a.valid then some eInval
  else if a.fault then some eFault
  else if a.family ≠ family then some eAfnosupport
  else none

/-! ## The calls -/

/-- The end of `sys_socket`: take a slot and fill it in. -/
def openSocket (pid : ℕ) (domain type protocol : ℤ) (S : SockTable) : ℤ × SockTable :=
  match socketAllocSlot pid S with
  | none => (eMfile, S)
  | some (i, S) =>
    (socketFd i, S.upd i ({ · with domain := domain, type := type, protocol := protocol }))

def sysSocket (pid : ℕ) (domain type protocol : ℤ) (netReady : Bool) (S : SockTable) :
    ℤ × SockTable :=
  if type ≠ sockRaw ∧ type ≠ sockDgram ∧ type ≠ sockStream then (eProtonosupport, S)
  else if domain = afUnix then
    if type ≠ sockStream ∨ protocol ≠ 0 then (eProtonosupport, S)
    else openSocket pid domain type 0 S
  else if domain ≠ afInet then (eAfnosupport, S)
  else
    let own := if type = sockRaw then ipprotoIcmp else if type = sockDgram then ipprotoUdp
      else ipprotoTcp
    if protocol ≠ 0 ∧ protocol ≠ own then (eProtonosupport, S)
    else if !netReady then (eNetdown, S)
    else openSocket pid domain type (if protocol = 0 then own else protocol) S

def KSocket.paired (peer : ℤ) (s : KSocket) : KSocket :=
  { s with domain := afUnix, type := sockStream, protocol := 0, connected := true, peerFd := peer }

/-- `sys_socketpair` and `sys_pipe`: `sv` says that the pointer is not `NULL`, `copied` that the
descriptors could be copied to the caller. -/
def sysSocketpair (pid : ℕ) (domain type protocol : ℤ) (sv copied : Bool) (S : SockTable) :
    ℤ × SockTable :=
  if !sv then (eFault, S)
  else if domain ≠ afUnix ∨ type ≠ sockStream ∨ protocol ≠ 0 then (eOpnotsupp, S)
  else
    match socketAllocSlot pid S with
    | none => (eMfile, S)
    | some (i, S) =>
      match socketAllocSlot pid S with
      | none => (eMfile, update S i .zero)
      | some (j, S) =>
        let S := (S.upd i (·.paired (socketFd j))).upd j (·.paired (socketFd i))
        if !copied then (eFault, update (update S i .zero) j .zero) else (0, S)

def sysBind (pid : ℕ) (fd : ℤ) (addr : UserAddr) (S : SockTable) : ℤ × SockTable :=
  match socketGetOwned pid fd S with
  | none => (eBadf, S)
  | some i =>
    if (S i).unixStream then
      match addr.check afUnix with
      | some e => (e, S)
      | none =>
        if addr.path = [] then (eInval, S)
        else if (List.range socketMax).any fun j =>
            (S j).used && (S j).domain == afUnix && (S j).bound && (S j).unixPath == addr.path then
          (eAddrinuse, S)
        else (0, S.upd i ({ · with unixPath := addr.path.take (unixPathMax - 1), bound := true }))
    else if (S i).domain ≠ afInet then (eAfnosupport, S)
    else
      match addr.check afInet with
      | some e => (e, S)
      | none => (0, S.upd i ({ · with boundPort := addr.port }))

def sysListen (pid : ℕ) (fd : ℤ) (S : SockTable) : ℤ × SockTable :=
  match socketGetOwned pid fd S with
  | none => (eBadf, S)
  | some i =>
    if (S i).unixStream then
      if !(S i).bound then (eInval, S) else (0, S.upd i ({ · with listening := true }))
    else (eOpnotsupp, S)

def findListener (path : List UInt8) (S : SockTable) : Option ℕ :=
  (List.range socketMax).find? fun j =>
    (S j).used && (S j).domain == afUnix && (S j).listening && (S j).bound && (S j).unixPath == path

def UserAddr.connectPath (addr : UserAddr) : Except ℤ (List UInt8) :=
  match addr.check afUnix with
  | some e => .error e
  | none =>
    if addr.path.take (unixPathMax - 1) = [] then .error eInval
    else .ok (addr.path.take (unixPathMax - 1))

/-- `sys_connect` on the `AF_UNIX` stream socket in slot `s` once the listener in slot `l` is found.
Whether `s` is connected already is not looked at. -/
def connectTo (s l : ℕ) (S : SockTable) : ℤ × SockTable :=
  match socketAllocSlot (S l).ownerPid S with
  | none => (eMfile, S)
  | some (a, S) =>
    let S := S.upd a (·.paired (socketFd s))
    let S := S.upd s ({ · with connected := true, peerClosed := false, peerFd := socketFd a })
    match (S l).queuePending (socketFd a) with
    | none =>
      let S : SockTable := update S a .zero
      (eAgain, S.upd s ({ · with connected := false, peerFd := -1 }))
    | some listener => (0, update S l listener)

/-- `sys_connect`; `inet` is the outcome of the network stack: an error or a connection. -/
def sysConnect (pid : ℕ) (fd : ℤ) (addr : UserAddr) (inet : Except ℤ ℕ) (S : SockTable) :
    ℤ × SockTable :=
  match socketGetOwned pid fd S with
  | none => (eBadf, S)
  | some s =>
    if (S s).unixStream then
      match addr.connectPath with
      | .error e => (e, S)
      | .ok path =>
        match findListener path S with
        | none => (eConnrefused, S)
        | some l => connectTo s l S
    else if (S s).domain ≠ afInet then (eAfnosupport, S)
    else if (S s).type ≠ sockStream ∨ (S s).protocol ≠ ipprotoTcp then (eOpnotsupp, S)
    else
      match addr.check afInet with
      | some e => (e, S)
      | none =>
        if addr.port = 0 then (eInval, S)
        else
          let S := S.upd s fun x =>
            { x with boundPort := if x.boundPort = 0 then 45000 + s else x.boundPort }
          match inet with
          | .error e => (e, S)
          | .ok conn => (0, S.upd s ({ · with tcpConnId := conn, connected := true }))

/-- `sys_accept`; `fault` says that the address of the peer could not be copied to the caller. -/
def sysAccept (pid : ℕ) (fd : ℤ) (fault : Bool) (S : SockTable) : ℤ × SockTable :=
  match socketGetOwned pid fd S with
  | none => (eBadf, S)
  | some i =>
    if (S i).unixStream then
      match (S i).popPending with
      | none => (eAgain, S)
      | some (child, sock) => (if fault then eFault else child, update S i sock)
    else (eOpnotsupp, S)

/-- `sys_sendto`; `buf` is `none` for a `NULL` buffer. For `AF_INET`, `inet` is the result, and whether
the call has got as far as the network stack. -/
def sysSendto (pid : ℕ) (fd : ℤ) (buf : Option (List UInt8)) (fault : Bool) (inet : ℤ × Bool)
    (S : SockTable) : ℤ × SockTable :=
  match socketGetOwned pid fd S with
  | none => (eBadf, S)
  | some i =>
    if (S i).unixStream then
      if !(S i).connected || (S i).peerFd < 0 then (eNotconn, S)
      else if buf.getD [] = [] then (0, S)
      else if fault then (eFault, S)
      else
        match socketGetAny (S i).peerFd S with
        | none => (ePipe, S)
        | some p =>
          match (S p).rxPush ((buf.getD []).take 1024) with
          | none => (eAgain, S)
          | some (n, sock) => (n, update S p sock)
    else if (S i).domain ≠ afInet then (eAfnosupport, S)
    else if (S i).type = sockDgram ∧ (S i).boundPort = 0 ∧ inet.2 then
      (inet.1, S.upd i ({ · with boundPort := 40000 + i }))
    else (inet.1, S)

/-- `sys_recvfrom`: the result and the bytes copied to the caller. `fault` says that they could not
be copied; they are lost then. -/
def sysRecvfrom (pid : ℕ) (fd : ℤ) (len : ℕ) (null fault : Bool) (inet : ℤ) (S : SockTable) :
    (ℤ × List UInt8) × SockTable :=
  match socketGetOwned pid fd S with
  | none => ((eBadf, []), S)
  | some i =>
    if (S i).unixStream then
      if len = 0 then ((0, []), S)
      else if null then ((eFault, []), S)
      else
        match (S i).rxPop (min len 1024) with
        | ([], _) => ((if (S i).peerClosed then 0 else eAgain, []), S)
        | (got, sock) =>
          (if fault then (eFault, []) else ((got.length : ℤ), got), update S i sock)
    else ((inet, []), S)

def KSocket.peerGone (fd : ℤ) (p : KSocket) : KSocket :=
  if p.peerFd = fd then { p with peerClosed := true, peerFd := -1, connected := false }
  else { p with peerClosed := true }

def tellPeer (i : ℕ) (S : SockTable) : SockTable :=
  if (S i).unixStream && 0 ≤ (S i).peerFd then
    match socketGetAny (S i).peerFd S with
    | none => S
    | some p => S.upd p (·.peerGone (socketFd i))
  else S

def sysShutdown (pid : ℕ) (fd : ℤ) (S : SockTable) : ℤ × SockTable :=
  match socketGetOwned pid fd S with
  | none => (eBadf, S)
  | some i =>
    if (S i).unixStream then
      (0, (tellPeer i S).upd i ({ · with peerClosed := true, connected := false, peerFd := -1 }))
    else if (S i).type = sockStream ∧ (S i).protocol = ipprotoTcp ∧ 0 ≤ (S i).tcpConnId then
      (0, S.upd i ({ · with tcpConnId := -1, connected := false }))
    else (0, S)

def closeSocket (i : ℕ) (S : SockTable) : SockTable := update (tellPeer i S) i .zero

/-- `sys_close` of a descriptor, as far as sockets are concerned: `none` if it is not a socket of the
caller. -/
def sysCloseSocket (pid : ℕ) (fd : ℤ) (S : SockTable) : Option SockTable :=
  (socketGetOwned pid fd S).map fun i => closeSocket i S

def sysWrite (pid : ℕ) (fd : ℤ) (buf : Option (List UInt8)) (fault : Bool) (inet : ℤ × Bool)
    (S : SockTable) : ℤ × SockTable :=
  match buf, socketGetOwned pid fd S with
  | none, _ => (eFault, S)
  | some _, none => (0, S)
  | some _, some i =>
    if (S i).unixStream || (S i).type == sockStream && (S i).connected then
      sysSendto pid fd buf fault inet S
    else (eDestaddrreq, S)

def sysRead (pid : ℕ) (fd : ℤ) (len : ℕ) (null fault : Bool) (inet : ℤ) (S : SockTable) :
    (ℤ × List UInt8) × SockTable :=
  if null then ((eFault, []), S) else sysRecvfrom pid fd len null fault inet S

/-! ## Operations -/

/-- The system calls on sockets. -/
inductive SockOp
  | socket (domain type protocol : ℤ) (netReady : Bool)
  | socketpair (domain type protocol : ℤ) (sv copied : Bool)
  | bind (fd : ℤ) (addr : UserAddr)
  | listen (fd : ℤ)
  | connect (fd : ℤ) (addr : UserAddr) (inet : Except ℤ ℕ)
  | accept (fd : ℤ) (fault : Bool)
  | sendto (fd : ℤ) (buf : Option (List UInt8)) (fault : Bool) (inet : ℤ × Bool)
  | write (fd : ℤ) (buf : Option (List UInt8)) (fault : Bool) (inet : ℤ × Bool)
  | recvfrom (fd : ℤ) (len : ℕ) (null fault : Bool) (inet : ℤ)
  | read (fd : ℤ) (len : ℕ) (null fault : Bool) (inet : ℤ)
  | shutdown (fd : ℤ)
  | close (fd : ℤ)

def SockOp.perform (pid : ℕ) (op : SockOp) (S : SockTable) : (ℤ × List UInt8) × SockTable :=
  let plain := fun (r : ℤ × SockTable) => ((r.1, []), r.2)
  match op with
  | socket domain type protocol netReady => plain (sysSocket pid domain type protocol netReady S)
  | socketpair domain type protocol sv copied =>
    plain (sysSocketpair pid domain type protocol sv copied S)
  | bind fd addr => plain (sysBind pid fd addr S)
  | listen fd => plain (sysListen pid fd S)
  | connect fd addr inet => plain (sysConnect pid fd addr inet S)
  | accept fd fault => plain (sysAccept pid fd fault S)
  | sendto fd buf fault inet => plain (sysSendto pid fd buf fault inet S)
  | write fd buf fault inet => plain (sysWrite pid fd buf fault inet S)
  | recvfrom fd len null fault inet => sysRecvfrom pid fd len null fault inet S
  | read fd len null fault inet => sysRead pid fd len null fault inet S
  | shutdown fd => plain (sysShutdown pid fd S)
  | close fd =>
    match sysCloseSocket pid fd S with
    | some S' => ((0, []), S')
    | none => ((eBadf, []), S)

end Obelisk
