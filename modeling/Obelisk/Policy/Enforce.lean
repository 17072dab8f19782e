import Obelisk.Cred.Model
import Obelisk.Policy.Match

/-!
# Policy enforcement

`axiomfs_policy_check_access` of `fs/axiomfs/file.c` and `generic_permission` of `fs/inode.c`: the
permissions that are asked for become one operation, and the decision about it an error or not.
-/

namespace Obelisk

open KLib PolicyWait PolicySys

variable {d fuel : ℕ} {delay : Option ℕ} {p : Permission}
variable {mask : BitVec 32} {daemon : PolicyKey → ℤ}

/-! ## The mode bits -/

def eAcces : ℤ := -13

def mayExec : BitVec 32 := 0x1
def mayWrite : BitVec 32 := 0x2
def mayRead : BitVec 32 := 0x4

/-- The attributes of an inode that are checked. -/
structure InodeAttr where
  ino : ℕ
  uid : Id32
  gid : Id32
  mode : BitVec 32
  deriving DecidableEq, Repr

def asks (mask bit : BitVec 32) : Bool := (mask &&& bit) != 0

def currentFsuid (current : Option Cred) : Id32 := (current.map Cred.fsuid).getD 0

def currentFsgid (current : Option Cred) : Id32 := (current.map Cred.fsgid).getD 0

def permissionBits (uid gid : Id32) (inode : InodeAttr) : BitVec 32 :=
  if uid = inode.uid then (inode.mode >>> 6) &&& 7
  else if gid = inode.gid then (inode.mode >>> 3) &&& 7
  else inode.mode &&& 7

def genericPermission (current : Option Cred) (inode : InodeAttr) (mask : BitVec 32) : ℤ :=
  let uid := currentFsuid current
  let gid := currentFsgid current
  if uid = 0 then 0
  else
    let bits := permissionBits uid gid inode
    if asks mask mayRead && !asks bits 0x4 then eAcces
    else if asks mask mayWrite && !asks bits 0x2 then eAcces
    else if asks mask mayExec && !asks bits 0x1 then eAcces
    else 0

namespace PolicySys

/-- The loop of `axiomd_recv_response` with a daemon that answers after `delay` ticks, or never. The
clock ticks between the rounds. -/
def recvLoop (pid : ℕ) (wait : PolicyWait) (kzalloc : Option ℕ) (daemon : PolicyKey → ℤ) :
    ℕ → Option ℕ → PolicySys → CheckState × PolicySys
  | 0, _, s => (.waiting, s)
  | fuel + 1, delay, s =>
    let s := if delay = some 0 then s.fetch.answer (daemon wait.query.key) true else s
    match s.recvRound pid wait kzalloc with
    | (.waiting, s) =>
      recvLoop pid wait kzalloc daemon fuel (delay.map (· - 1)) { s with ticks := u64 (s.ticks + 1) }
    | r => r

def checkAccess (pid : ℕ) (k : PolicyKey) (kmalloc : Bool) (kzalloc : Option ℕ)
    (daemon : PolicyKey → ℤ) (delay : Option ℕ) (s : PolicySys) : CheckState × PolicySys :=
  match s.policyCheckAccess pid k kmalloc with
  | (.waiting, s) =>
    match s.waits pid with
    | some wait => recvLoop pid wait kzalloc daemon (policyTimeoutMs + 1) delay s
    | none => (.waiting, s)
  | r => r

end PolicySys

def axiomfsOperation (mask : BitVec 32) : ℕ :=
  let op := if asks mask mayRead then policyOpRead else 0
  let op := op ||| if asks mask mayWrite then policyOpWrite else 0
  op ||| if asks mask mayExec then policyOpExecute else 0

def axiomfsDecide (current : Option Cred) (inode : InodeAttr) (mask : BitVec 32) (result : ℤ) : ℤ :=
  if result = policyAllow then 0
  else if result = policyDeny then eAcces
  else genericPermission current inode mask

def policyKeyOf (current : Option Cred) (inode : InodeAttr) (operation : ℕ) : PolicyKey :=
  ⟨(currentFsuid current).toNat, (currentFsgid current).toNat, inode.ino, operation⟩

/-- `axiomfs_policy_check_access`, with the daemon's policy and how long its answer takes; `none` if
it did not return. -/
def axiomfsPolicyCheckAccess (pid : ℕ) (current : Option Cred) (inode : InodeAttr) (mask : BitVec 32)
    (kmalloc : Bool) (kzalloc : Option ℕ) (daemon : PolicyKey → ℤ) (delay : Option ℕ)
    (s : PolicySys) : Option ℤ :=
  let s := s.refresh
  if !s.daemonAvailable then some (genericPermission current inode mask)
  else
    let op := axiomfsOperation mask
    let r := s.checkAccess pid (policyKeyOf current inode op) kmalloc kzalloc daemon delay
    (r.1.value op).map (axiomfsDecide current inode mask)

section Wait

variable {s : PolicySys} {pid : ℕ} {wait : PolicyWait} {kzalloc : Option ℕ} {daemon : PolicyKey → ℤ}

def PolicyWait.elapsed (wait : PolicyWait) (s : PolicySys) : ℕ := u64Sub s.ticks wait.start

lemma PolicyWait.elapsed_tick (h : wait.elapsed s < policyTimeoutMs) :
    wait.elapsed { s with ticks := u64 (s.ticks + 1) } = wait.elapsed s + 1 := by
  unfold elapsed u64Sub u64 policyTimeoutMs at h
  unfold elapsed u64Sub u64
  dsimp only
  omega

lemma PolicyWait.elapsed_start (hw : wait.start = s.ticks) : wait.elapsed s = 0 := by
  unfold elapsed u64Sub u64
  omega

lemma recvRound_waiting (h : wait.elapsed s < policyTimeoutMs) (hk : s.toKernel.messages = []) :
    s.recvRound pid wait kzalloc = (.waiting, s) := by
  have h' : u64Sub s.ticks wait.start < policyTimeoutMs := h
  rw [recvRound, if_pos h', msgqueueRecv_nil hk]

lemma recvRound_timeout (h : ¬wait.elapsed s < policyTimeoutMs) :
    (s.recvRound pid wait kzalloc).1 = .fallback := by
  have h' : ¬u64Sub s.ticks wait.start < policyTimeoutMs := h
  rw [recvRound, if_neg h']

lemma recvRound_served (h : wait.elapsed s < policyTimeoutMs)
    (hd : s.toDaemon.messages = [queryMessage wait.query]) (hh : s.inHand = [])
    (hk : s.toKernel = msgqueueCreate PolicyResponse) :
    ((s.fetch.answer (daemon wait.query.key) true).recvRound pid wait kzalloc).1 =
      .answered (daemon wait.query.key) := by
  have hrecv : msgqueueRecv sizeofPolicyQuery axiomdMsgQuery s.toDaemon = .ok (wait.query,
      { s.toDaemon with messages := [], currentMessages := s.toDaemon.currentMessages - 1 }) :=
    msgqueueRecv_cons hd rfl (le_refl _)
  have hfetch : s.fetch = { s with
      toDaemon := { s.toDaemon with messages := [], currentMessages := s.toDaemon.currentMessages - 1 }
      inHand := [wait.query] } := by
    rw [fetch, hrecv, hh]
    rfl
  have hans : s.fetch.answer (daemon wait.query.key) true = { s.fetch with
      toKernel := ⟨256, 8192, 1, [responseMessage wait.query (daemon wait.query.key)]⟩
      inHand := [] } := by
    rw [hfetch, answer, hk]
    rfl
  generalize s.fetch.answer (daemon wait.query.key) true = s' at hans
  have hels : u64Sub s'.ticks wait.start < policyTimeoutMs := by
    rwa [hans, hfetch]
  have hresp : msgqueueRecv sizeofPolicyResponse axiomdMsgResponse s'.toKernel =
      .ok (⟨wait.query.queryId, daemon wait.query.key⟩, ⟨256, 8192, 0, []⟩) := by
    rw [hans]
    rfl
  rw [recvRound, if_pos hels, hresp]
  dsimp only
  rw [if_neg (not_not_intro rfl)]

lemma recvLoop_answered (hd : s.toDaemon.messages = [queryMessage wait.query])
    (hh : s.inHand = []) (hk : s.toKernel = msgqueueCreate PolicyResponse)
    (hels : wait.elapsed s + d < policyTimeoutMs) (hf : d < fuel) :
    (s.recvLoop pid wait kzalloc daemon fuel (some d)).1 = .answered (daemon wait.query.key) := by
  induction d generalizing s fuel with
  | zero =>
    obtain ⟨fuel, rfl⟩ := Nat.exists_eq_add_of_lt hf
    have hr := @recvRound_served s pid wait kzalloc daemon hels hd hh hk
    rw [zero_add, recvLoop, if_pos rfl]
    generalize (s.fetch.answer (daemon wait.query.key) true).recvRound pid wait kzalloc = r at hr
    obtain ⟨_, s'⟩ := r
    cases hr
    rfl
  | succ d ih =>
    obtain ⟨fuel, rfl⟩ : ∃ n, fuel = n + 1 := ⟨fuel - 1, by omega⟩
    have hlt : wait.elapsed s < policyTimeoutMs := by omega
    rw [recvLoop, if_neg (by simp), recvRound_waiting hlt (by rw [hk]; rfl)]
    refine ih hd hh hk ?_ (by omega)
    rw [elapsed_tick hlt]
    omega

lemma recvLoop_silent (hk : s.toKernel.messages = []) (hdelay : ∀ d ∈ delay, policyTimeoutMs ≤ wait.elapsed s + d)
    (hels : wait.elapsed s ≤ policyTimeoutMs) (hf : policyTimeoutMs < wait.elapsed s + fuel) :
    (s.recvLoop pid wait kzalloc daemon fuel delay).1 = .fallback := by
  induction fuel generalizing s delay with
  | zero => omega
  | succ fuel ih =>
    rw [recvLoop]
    by_cases hlt : wait.elapsed s < policyTimeoutMs
    · have hne : delay ≠ some 0 := fun h => by
        have := hdelay 0 h
        omega
      rw [if_neg hne, recvRound_waiting hlt hk]
      have htick := elapsed_tick hlt
      refine ih hk (fun d hd => ?_) (by omega) (by omega)
      obtain ⟨d', hd', rfl⟩ := Option.map_eq_some_iff.mp hd
      have hle := hdelay d' hd'
      have hpos : d' ≠ 0 := fun h => hne (h ▸ hd')
      omega
    -- the answer, if it comes now, comes too late
    have hout : ∀ s' : PolicySys, s'.ticks = s.ticks →
        (s'.recvRound pid wait kzalloc).1 = .fallback := fun s' ht => by
      refine recvRound_timeout ?_
      rwa [elapsed, ht]
    have hr := hout (if delay = some 0 then s.fetch.answer (daemon wait.query.key) true else s) (by
      split
      · unfold answer fetch
        split <;> split <;> first | rfl | (split <;> rfl)
      · rfl)
    generalize (if delay = some 0 then s.fetch.answer (daemon wait.query.key) true else s).recvRound
      pid wait kzalloc = r at hr
    obtain ⟨_, s'⟩ := r
    cases hr
    rfl

end Wait

/-- `POLICY_*` -/
inductive PolicyDecision
  | allow
  | deny
  | defer
  deriving DecidableEq, Repr

def PolicyDecision.code : PolicyDecision → ℤ
  | allow => policyAllow
  | deny => policyDeny
  | defer => policyDefault

/-- No query is under way. -/
structure PolicyAtRest (s : PolicySys) : Prop where
  toDaemon : s.toDaemon = msgqueueCreate PolicyQuery
  toKernel : s.toKernel = msgqueueCreate PolicyResponse
  inHand : s.inHand = []

def FilledFrom (policy : PolicyKey → PolicyDecision) (s : PolicySys) : Prop :=
  ∀ c ∈ s.cache, ∃ nodes order, PolicyOk c nodes order ∧
    ∀ e ∈ order, (c.entries e).result = (policy (c.entries e).key).code

section Decision

variable {s : PolicySys} {policy : PolicyKey → PolicyDecision} {pid : ℕ} {k : PolicyKey}
  {kmalloc : Bool} {kzalloc : Option ℕ}

lemma lookup_filled (h : FilledFrom policy s) (hr : 0 ≤ (s.lookup k).1) :
    (s.lookup k).1 = (policy k).code := by
  cases hs : s.cache with
  | none => simp [lookup, hs] at hr
  | some c =>
    obtain ⟨nodes, order, hok, hent⟩ := h c hs
    obtain ⟨r, c', hlook, -, -, hfound⟩ := hok.lookup s.ticks k
    simp only [lookup, hs, hlook, Option.getD_some] at hr ⊢
    obtain rfl | ⟨e, he, rfl, -, rfl⟩ := hfound
    · cases hr
    · exact hent e he

lemma policyCheckAccess_uncached (hrest : PolicyAtRest s) (hr : (s.lookup k).1 < 0) :
    (s.policyCheckAccess pid k kmalloc).1 = .fallback ∧ ¬(s.daemonAvailable ∧ s.connected ∧ kmalloc) ∨
      ∃ s', s.policyCheckAccess pid k kmalloc = (.waiting, s') ∧
        s'.waits pid = some ⟨⟨s.nextQueryId, k⟩, s'.ticks⟩ ∧
        s'.toDaemon.messages = [queryMessage ⟨s.nextQueryId, k⟩] ∧
        s'.toKernel = msgqueueCreate PolicyResponse ∧ s'.inHand = [] := by
  rw [policyCheckAccess]
  dsimp only
  rw [if_neg (Int.not_le.mpr hr), lookup_frame]
  dsimp only
  cases hav : s.daemonAvailable with
  | false => exact .inl ⟨rfl, by simp⟩
  | true =>
    rw [if_neg (by simp), daemonQuery, refresh]
    dsimp only
    cases hcon : s.connected with
    | false => exact .inl ⟨rfl, by simp⟩
    | true =>
      rw [if_neg (by simp), hrest.toDaemon]
      cases kmalloc with
      | false => exact .inl ⟨rfl, by simp⟩
      | true =>
        refine .inr ⟨_, rfl, ?_, rfl, hrest.toKernel, hrest.inHand⟩
        exact Function.update_self ..

lemma checkAccess_waiting {s' : PolicySys} {wait : PolicyWait} (h : s.policyCheckAccess pid k kmalloc = (.waiting, s'))
    (hw : s'.waits pid = some wait) :
    s.checkAccess pid k kmalloc kzalloc daemon delay =
      s'.recvLoop pid wait kzalloc daemon (policyTimeoutMs + 1) delay := by
  rw [checkAccess, h]
  dsimp only
  rw [hw]

lemma checkAccess_answered (hrest : PolicyAtRest s) (hfill : FilledFrom policy s)
    (hav : s.daemonAvailable) (hcon : s.connected) (hd : d < policyTimeoutMs) (op : ℕ) :
    (s.checkAccess pid k true kzalloc (fun k => (policy k).code) (some d)).1.value op =
      some (policy k).code := by
  by_cases hr : 0 ≤ (s.lookup k).1
  · rw [checkAccess, policyCheckAccess]
    dsimp only
    rw [if_pos hr, lookup_filled hfill hr]
    rfl
  obtain ⟨-, hno⟩ | ⟨s', hwait, hw, hq, hk, hh⟩ :=
    @policyCheckAccess_uncached s pid k true hrest (Int.not_le.mp hr)
  · exact absurd ⟨hav, hcon, rfl⟩ hno
  have hels : elapsed ⟨⟨s.nextQueryId, k⟩, s'.ticks⟩ s' + d < policyTimeoutMs := by
    rw [elapsed_start rfl]
    omega
  rw [checkAccess_waiting hwait hw, recvLoop_answered hq hh hk hels (by omega)]
  rfl

lemma checkAccess_silent (hrest : PolicyAtRest s) (hr : (s.lookup k).1 < 0)
    (hd : ∀ d ∈ delay, policyTimeoutMs ≤ d) :
    (s.checkAccess pid k kmalloc kzalloc daemon delay).1 = .fallback := by
  obtain ⟨hback, -⟩ | ⟨s', hwait, hw, -, hk, -⟩ :=
    @policyCheckAccess_uncached s pid k kmalloc hrest hr
  · rw [checkAccess]
    generalize s.policyCheckAccess pid k kmalloc = r at hback
    obtain ⟨_, s'⟩ := r
    cases hback
    rfl
  have hels : elapsed ⟨⟨s.nextQueryId, k⟩, s'.ticks⟩ s' = 0 :=
    elapsed_start rfl
  rw [checkAccess_waiting hwait hw]
  refine recvLoop_silent (by rw [hk]; rfl) (fun d hdel => ?_) (by omega) (by omega)
  rw [hels, zero_add]
  exact hd d hdel

end Decision

/-! ## The permissions -/

inductive Permission
  | read
  | write
  | exec
  deriving DecidableEq, Repr

def Permission.bit : Permission → BitVec 32
  | read => mayRead
  | write => mayWrite
  | exec => mayExec

def Permission.operation : Permission → ℕ
  | read => policyOpRead
  | write => policyOpWrite
  | exec => policyOpExecute

def ModeGrants (current : Option Cred) (inode : InodeAttr) (p : Permission) : Prop :=
  currentFsuid current = 0 ∨ asks (permissionBits (currentFsuid current) (currentFsgid current) inode) p.bit

def PolicyGrants (policy : PolicyKey → PolicyDecision) (current : Option Cred) (inode : InodeAttr)
    (p : Permission) : Prop :=
  policy (policyKeyOf current inode p.operation) = .allow ∨
    policy (policyKeyOf current inode p.operation) = .defer ∧ ModeGrants current inode p

def OnePermission (mask : BitVec 32) : Prop :=
  ∀ p q : Permission, asks mask p.bit → asks mask q.bit → p = q

lemma genericPermission_eq_zero {current : Option Cred} {inode : InodeAttr}
    (h : genericPermission current inode mask = 0) (hp : asks mask p.bit) :
    ModeGrants current inode p := by
  unfold genericPermission at h
  dsimp only at h
  split_ifs at h with hroot hread hwrite hexec
  · exact .inl hroot
  · cases h
  · cases h
  · cases h
  refine .inr ?_
  by_contra hno
  have hno' : (!asks (permissionBits (currentFsuid current) (currentFsgid current) inode) p.bit) =
      true := by simpa using hno
  cases p with
  | read => exact hread (Bool.and_eq_true_iff.mpr ⟨hp, hno'⟩)
  | write => exact hwrite (Bool.and_eq_true_iff.mpr ⟨hp, hno'⟩)
  | exec => exact hexec (Bool.and_eq_true_iff.mpr ⟨hp, hno'⟩)

lemma axiomfsOperation_eq {r w x : Bool} (hr : asks mask mayRead = r)
    (hw : asks mask mayWrite = w) (hx : asks mask mayExec = x) :
    axiomfsOperation mask = ((if r then 1 else 0) ||| if w then 2 else 0) ||| if x then 3 else 0 := by
  subst hr hw hx
  rfl

lemma OnePermission.operation (h : OnePermission mask)
    (hp : asks mask p.bit) : axiomfsOperation mask = p.operation := by
  have hno : ∀ q, q ≠ p → asks mask q.bit = false := fun q hq => by
    by_contra hask
    exact hq (h q p (by simpa using hask) hp)
  cases p with
  | read => exact axiomfsOperation_eq hp (hno .write nofun) (hno .exec nofun)
  | write => exact axiomfsOperation_eq (hno .read nofun) hp (hno .exec nofun)
  | exec => exact axiomfsOperation_eq (hno .read nofun) (hno .write nofun) hp

lemma axiomfsOperation_two {q : Permission} (hp : asks mask p.bit)
    (hq : asks mask q.bit) (hne : p ≠ q) : axiomfsOperation mask = policyOpExecute := by
  rw [axiomfsOperation_eq rfl rfl rfl]
  cases hr : asks mask mayRead <;> cases hw : asks mask mayWrite <;> cases hx : asks mask mayExec <;>
    first | rfl | (cases p <;> cases q <;> simp_all [Permission.bit])

section Whole

variable {s : PolicySys} {policy : PolicyKey → PolicyDecision} {pid : ℕ} {current : Option Cred}
  {inode : InodeAttr} {mask : BitVec 32} {kmalloc : Bool} {kzalloc : Option ℕ}

lemma PolicyAtRest.refresh (h : PolicyAtRest s) : PolicyAtRest s.refresh :=
  ⟨h.toDaemon, h.toKernel, h.inHand⟩

lemma axiomfs_disconnected (h : s.connected = false) :
    axiomfsPolicyCheckAccess pid current inode mask kmalloc kzalloc daemon delay s =
      some (genericPermission current inode mask) := by
  rw [axiomfsPolicyCheckAccess, refresh]
  dsimp only
  rw [h]
  rfl

lemma axiomfs_answered (hrest : PolicyAtRest s) (hfill : FilledFrom policy s) (hcon : s.connected) (hd : d < policyTimeoutMs) :
    axiomfsPolicyCheckAccess pid current inode mask true kzalloc (fun k => (policy k).code) (some d) s =
      some (axiomfsDecide current inode mask
        (policy (policyKeyOf current inode (axiomfsOperation mask))).code) := by
  have hav : s.refresh.daemonAvailable = true := hcon
  rw [axiomfsPolicyCheckAccess]
  dsimp only
  rw [if_neg (by simp [hav]), checkAccess_answered hrest.refresh hfill hav hcon hd]
  rfl

lemma axiomfs_silent (hrest : PolicyAtRest s) (hnone : ∀ k, (s.lookup k).1 < 0) (hcon : s.connected)
    (hd : ∀ d ∈ delay, policyTimeoutMs ≤ d) :
    axiomfsPolicyCheckAccess pid current inode mask kmalloc kzalloc daemon delay s =
      some (axiomfsDecide current inode mask (policyFallbackResult (axiomfsOperation mask))) := by
  have hav : s.refresh.daemonAvailable = true := hcon
  have hmiss : ∀ k, (s.refresh.lookup k).1 < 0 := fun k => by
    have hsame : (s.refresh.lookup k).1 = (s.lookup k).1 := by
      unfold lookup refresh
      dsimp only
      cases s.cache <;> rfl
    rw [hsame]
    exact hnone k
  rw [axiomfsPolicyCheckAccess]
  dsimp only
  rw [if_neg (by simp [hav]), checkAccess_silent hrest.refresh (hmiss _) hd]
  rfl

lemma axiomfsDecide_eq_zero {d : PolicyDecision} (h : axiomfsDecide current inode mask d.code = 0) :
    d = .allow ∨ d = .defer ∧ genericPermission current inode mask = 0 := by
  cases d with
  | allow => exact .inl rfl
  | deny => cases h
  | defer => exact .inr ⟨rfl, h⟩

end Whole

/-- Decided per operation: a daemon that answers in time grants every permission that is asked for,
or the call fails; and without an answer a mask with the permission to write is refused. -/
def PerOperation (connected : Bool) (mask : BitVec 32) : Prop :=
  ∀ (s : PolicySys) (pid : ℕ) (current : Option Cred) (inode : InodeAttr) (kzalloc : Option ℕ)
    (policy : PolicyKey → PolicyDecision), PolicyAtRest s → s.connected = connected →
    (connected → FilledFrom policy s → ∀ d < policyTimeoutMs,
      axiomfsPolicyCheckAccess pid current inode mask true kzalloc (fun k => (policy k).code) (some d) s = some 0 →
      ∀ p : Permission, asks mask p.bit → PolicyGrants policy current inode p) ∧
    ((∀ k, (s.lookup k).1 < 0) → ∀ kmalloc, ∀ delay : Option ℕ, (∀ d ∈ delay, policyTimeoutMs ≤ d) →
      asks mask mayWrite →
      axiomfsPolicyCheckAccess pid current inode mask kmalloc kzalloc (fun k => (policy k).code) delay s =
        some eAcces)

/-- **Which masks are decided per operation**: those that ask for at most one permission if the daemon
is connected, and those that do not ask for the permission to write if it is not. -/
theorem axiomfs_check_access_per_operation (connected : Bool) (mask : BitVec 32) : PerOperation connected mask ↔
      (connected → OnePermission mask) ∧ (asks mask mayWrite → connected) := by
  constructor
  · intro h
    refine ⟨fun hcon p q hp hq => ?_, fun hw => ?_⟩
    · -- the daemon allows to execute and nothing else
      by_contra hne
      let s : PolicySys := { boot none with connected := connected }
      let policy : PolicyKey → PolicyDecision :=
        fun k => if k.operation = policyOpExecute then .allow else .deny
      let inode : InodeAttr := ⟨0, 0, 0, 0⟩
      have hrest : PolicyAtRest s := ⟨rfl, rfl, rfl⟩
      have hfill : FilledFrom policy s := fun c hc => by cases hc
      have hop := axiomfsOperation_two hp hq hne
      have hzero : axiomfsPolicyCheckAccess 0 none inode mask true none (fun k => (policy k).code)
          (some 0) s = some 0 := by
        rw [axiomfs_answered hrest hfill hcon (by decide), hop]
        rfl
      have hgrant := (h s 0 none inode none policy hrest rfl).1 hcon hfill 0 (by decide) hzero
      have honly : ∀ p : Permission, PolicyGrants policy none inode p → p = .exec := by
        rintro (_ | _ | _) (h | ⟨h, -⟩) <;> first | rfl | cases h
      exact hne ((honly p (hgrant p hp)).trans (honly q (hgrant q hq)).symm)
    -- without a daemon only the mode bits are looked at, and root is granted everything
    by_contra hcon
    let s : PolicySys := boot none
    have hrest : PolicyAtRest s := ⟨rfl, rfl, rfl⟩
    have hres := (h s 0 none ⟨0, 0, 0, 0⟩ none (fun _ => .deny) hrest
      (Bool.eq_false_iff.mpr hcon).symm).2 (fun _ => Int.negSucc_lt_zero 0) true none (by simp) hw
    rw [axiomfs_disconnected rfl] at hres
    cases hres
  rintro ⟨hone, hw⟩ s pid current inode kzalloc policy hrest hcon
  refine ⟨fun hc hfill d hd hres p hp => ?_, fun hnone kmalloc delay hdelay hask => ?_⟩
  · rw [axiomfs_answered hrest hfill (hcon.trans hc) hd, (hone hc).operation hp] at hres
    obtain hallow | ⟨hdefer, hmode⟩ := axiomfsDecide_eq_zero (Option.some.inj hres)
    · exact .inl hallow
    · exact .inr ⟨hdefer, genericPermission_eq_zero hmode hp⟩
  have hc := hw hask
  have hop : axiomfsOperation mask = policyOpWrite :=
    OnePermission.operation (p := .write) (hone hc) hask
  rw [axiomfs_silent hrest hnone (hcon.trans hc) hdelay, hop]
  rfl

def executeOnly (k : PolicyKey) : PolicyDecision :=
  if k.operation = policyOpExecute then .allow else .deny

/-- A mask with two permissions is asked for as the permission to execute: user 5 may open inode 7 to
read and write although the policy denies both. -/
theorem read_write_asks_execute : let user : Option Cred := some ⟨5, 5, 5, 5, 5, 5, 5, 5⟩
    let inode : InodeAttr := ⟨7, 0, 0, 0o600⟩
    axiomfsPolicyCheckAccess 1 user inode (mayRead ||| mayWrite) true none
        (fun k => (executeOnly k).code) (some 0) { PolicySys.boot none with connected := true } =
      some 0 ∧
    executeOnly (policyKeyOf user inode policyOpRead) = .deny ∧
    executeOnly (policyKeyOf user inode policyOpWrite) = .deny := by
  decide +kernel

end Obelisk
