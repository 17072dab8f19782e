import Obelisk.Policy.Cache

/-!
# Policy queries

`policy_check_access` of `fs/axiomfs/policy_ipc.c` with the two message queues to and from the policy
daemon (`ipc/axiomd_channel.c`, `ipc/msgqueue.c`) and the daemon at their other end.
-/

namespace Obelisk

open KLib

inductive IpcError
  | eAgain
  | eNomem
  | eMsgsize
  | e2big
  deriving DecidableEq, Repr

/-- `struct ipc_message` -/
structure IpcMessage (α : Type*) where
  type : ℕ
  size : ℕ
  payload : α
  deriving DecidableEq, Repr

/-- `struct ipc_queue` -/
structure IpcQueue (α : Type*) where
  maxMessages : ℕ
  maxMessageSize : ℕ
  currentMessages : ℕ
  messages : List (IpcMessage α)
  deriving DecidableEq, Repr

def msgqueueCreate (α : Type*) : IpcQueue α := ⟨256, 8192, 0, []⟩

/-- `msgqueue_send` with `MSG_NOWAIT`; `kmalloc` says whether there is memory for the message. -/
def msgqueueSend {α : Type*} (kmalloc : Bool) (m : IpcMessage α) (queue : IpcQueue α) :
    Except IpcError (IpcQueue α) :=
  if queue.maxMessageSize < m.size then .error .eMsgsize
  else if queue.maxMessages ≤ queue.currentMessages then .error .eAgain
  else if !kmalloc then .error .eNomem
  else .ok { queue with
    messages := queue.messages ++ [m], currentMessages := queue.currentMessages + 1 }

def msgqueueRecv {α : Type*} (size type : ℕ) (queue : IpcQueue α) : Except IpcError (α × IpcQueue α) :=
  match queue.messages.span fun m => ¬(type = 0 ∨ m.type = type) with
  | (_, []) => .error .eAgain
  | (before, m :: rest) =>
    if size < m.size then .error .e2big
    else .ok (m.payload, { queue with
      messages := before ++ rest, currentMessages := queue.currentMessages - 1 })

/-! ## Queries -/

def axiomdMsgQuery : ℕ := 1
def axiomdMsgResponse : ℕ := 2

def sizeofPolicyQuery : ℕ := 4128
def sizeofPolicyResponse : ℕ := 268

def policyTimeoutMs : ℕ := 100

/-- `struct policy_query`, without the path and the flags, which only the daemon reads. -/
structure PolicyQuery where
  queryId : ℕ
  key : PolicyKey
  deriving DecidableEq, Repr

/-- `struct policy_response`, without the flags and the reason, which nothing reads. -/
structure PolicyResponse where
  queryId : ℕ
  result : ℤ
  deriving DecidableEq, Repr

def policyOpRead : ℕ := 1
def policyOpWrite : ℕ := 2
def policyOpExecute : ℕ := 3

def policyAllow : ℤ := 0
def policyDeny : ℤ := 1
def policyDefault : ℤ := 2

def policyFallbackResult (operation : ℕ) : ℤ :=
  if operation = policyOpRead ∨ operation = policyOpExecute then policyDefault else policyDeny

/-- A task in the receive loop of `axiomd_recv_response`. -/
structure PolicyWait where
  query : PolicyQuery
  start : ℕ
  deriving DecidableEq, Repr

/-- The kernel side, the queues and the daemon. -/
structure PolicySys where
  cache : Option PolicyCache
  daemonAvailable : Bool
  /-- `axiomd_is_connected()` -/
  connected : Bool
  nextQueryId : ℕ
  toDaemon : IpcQueue PolicyQuery
  toKernel : IpcQueue PolicyResponse
  /-- the queries that the daemon has received and not answered -/
  inHand : List PolicyQuery
  ticks : ℕ
  waits : ℕ → Option PolicyWait

/-- After the initialisation, with the cache that `policy_init` got memory for or without one. -/
def PolicySys.boot (cache : Option PolicyCache) : PolicySys where
  cache := cache
  daemonAvailable := false
  connected := false
  nextQueryId := 1
  toDaemon := msgqueueCreate PolicyQuery
  toKernel := msgqueueCreate PolicyResponse
  inHand := []
  ticks := 0
  waits := fun _ => none

/-- How a call stands: it waits, or it has returned the fallback, a decision from the cache or the
daemon's. -/
inductive CheckState
  | waiting
  | fallback
  | cached (result : ℤ)
  | answered (result : ℤ)
  deriving DecidableEq, Repr

def CheckState.value (operation : ℕ) : CheckState → Option ℤ
  | waiting => none
  | fallback => some (policyFallbackResult operation)
  | cached result => some result
  | answered result => some result

namespace PolicySys

/-- `policy_cache_lookup` on the global cache, which may be missing; the search always ends. -/
def lookup (k : PolicyKey) (s : PolicySys) : ℤ × PolicySys :=
  match s.cache with
  | none => (-1, s)
  | some c =>
    let r := (policyCacheLookup s.ticks k c).getD (-1, c)
    (r.1, { s with cache := some r.2 })

def insert (k : PolicyKey) (result : ℤ) (kzalloc : Option ℕ) (s : PolicySys) : PolicySys :=
  { s with cache := s.cache.map fun c => (policyCacheInsert s.ticks k result kzalloc c).getD c }

def refresh (s : PolicySys) : PolicySys := { s with daemonAvailable := s.connected }

def daemonQuery (pid : ℕ) (query : PolicyQuery) (kmalloc : Bool) (s : PolicySys) :
    CheckState × PolicySys :=
  let s := s.refresh
  if !s.daemonAvailable then (.fallback, s)
  else
    match msgqueueSend kmalloc ⟨axiomdMsgQuery, sizeofPolicyQuery, query⟩ s.toDaemon with
    | .error _ => (.fallback, s)
    | .ok queue =>
      (.waiting, { s with
        toDaemon := queue, waits := Function.update s.waits pid (some ⟨query, s.ticks⟩) })

def policyCheckAccess (pid : ℕ) (k : PolicyKey) (kmalloc : Bool) (s : PolicySys) :
    CheckState × PolicySys :=
  let r := s.lookup k
  if 0 ≤ r.1 then (.cached r.1, r.2)
  else if !r.2.daemonAvailable then (.fallback, r.2)
  else
    let query : PolicyQuery := ⟨r.2.nextQueryId, k⟩
    let s := { r.2 with nextQueryId := u32 (r.2.nextQueryId + 1) }
    s.daemonQuery pid query kmalloc

def recvRound (pid : ℕ) (wait : PolicyWait) (kzalloc : Option ℕ) (s : PolicySys) :
    CheckState × PolicySys :=
  let done := { s with waits := Function.update s.waits pid none }
  if u64Sub s.ticks wait.start < policyTimeoutMs then
    match msgqueueRecv sizeofPolicyResponse axiomdMsgResponse s.toKernel with
    | .ok (response, queue) =>
      let done := { done with toKernel := queue }
      if response.queryId ≠ wait.query.queryId then (.fallback, done)
      else (.answered response.result, done.insert wait.query.key response.result kzalloc)
    | .error .eAgain => (.waiting, s)
    | .error _ => (.fallback, done)
  else (.fallback, done)

def fetch (s : PolicySys) : PolicySys :=
  match msgqueueRecv sizeofPolicyQuery axiomdMsgQuery s.toDaemon with
  | .ok (query, queue) => { s with toDaemon := queue, inHand := s.inHand ++ [query] }
  | .error _ => s

def answer (result : ℤ) (kmalloc : Bool) (s : PolicySys) : PolicySys :=
  match s.inHand with
  | [] => s
  | query :: rest =>
    match msgqueueSend kmalloc ⟨axiomdMsgResponse, sizeofPolicyResponse, ⟨query.queryId, result⟩⟩ s.toKernel with
    | .ok queue => { s with toKernel := queue, inHand := rest }
    | .error _ => s

end PolicySys

/-- What happens next: a task calls `policy_check_access`, a waiting task makes a round, the daemon
receives or answers, the clock ticks, or the daemon comes and goes. -/
inductive PolicyOp
  | check (pid : ℕ) (k : PolicyKey) (kmalloc : Bool)
  | round (pid : ℕ) (kzalloc : Option ℕ)
  | available
  | fetch
  | answer (result : ℤ) (kmalloc : Bool)
  | tick
  | register
  | unregister
  deriving DecidableEq, Repr

def PolicyOp.exec : PolicyOp → PolicySys → Option CheckState × PolicySys
  | check pid k kmalloc, s =>
    match s.waits pid with
    | some _ => (none, s)
    | none =>
      let r := s.policyCheckAccess pid k kmalloc
      (some r.1, r.2)
  | round pid kzalloc, s =>
    match s.waits pid with
    | some wait =>
      let r := s.recvRound pid wait kzalloc
      (some r.1, r.2)
    | none => (none, s)
  | available, s => (none, s.refresh)
  | fetch, s => (none, s.fetch)
  | answer result kmalloc, s => (none, s.answer result kmalloc)
  | tick, s => (none, { s with ticks := u64 (s.ticks + 1) })
  | register, s => (none, { s with connected := true })
  | unregister, s => (none, { s with connected := false })

end Obelisk
