import Obelisk.Sock.Queue
import Obelisk.Sock.System

/-!
# Who owns a socket

A slot of `socket_table` belongs to a process by its identifier alone, and identifiers are used again.
-/

namespace Obelisk

open KLib Function Option Procs

variable {i l p : ℕ} {x : Process} {sop : SockOp} {S S' : SockTable} {s : Sys}

/-- What a call does to the pids. -/
inductive PidStep (op : KernOp) (P P' : Procs) : Prop
  | same : (∀ p, (P'.table.lookup p).map Process.pid = (P.table.lookup p).map Process.pid) → PidStep op P P'
  | spawn (c : ℕ) (x : Process) : P.Spawn P' c x → PidStep op P P'
  | reap (p z : ℕ) (pid : ℤ) : op = .wait p pid → P.zombieChild p pid = some z → P' = P.unlink z → PidStep op P P'

lemma Procs.upd_pid {P : Procs} {q : ℕ} {f : Process → Process} (hf : ∀ x, (f x).pid = x.pid)
    (p : ℕ) : ((P.upd q f).table.lookup p).map Process.pid = (P.table.lookup p).map Process.pid := by
  rw [Procs.upd, lookup_modify]
  split_ifs with hp
  · rw [hp, map_map]
    exact congrArg (Option.map · _) (funext hf)
  · rfl

lemma pid_step {k : Kern} (hk : k.Base) {kop : KernOp} (hrun : k.procs.runnable kop.caller = true) :
    PidStep kop k.procs (kernStep kop k).2.procs := by
  obtain ⟨y, hp, -⟩ := runnable_iff.mp hrun
  rw [kernStep, if_pos hrun]
  cases kop with
  | fork p flags a =>
    change k.procs.table.lookup p = some y at hp
    obtain h | ⟨c, x, h, -⟩ := doFork_cases hk hp flags a
    · obtain ⟨n, -, hprocs⟩ := h.procs
      refine .same fun q => ?_
      rw [KernOp.perform, hprocs]
      rfl
    · exact .spawn c x h.spawn
  | execve p a ok =>
    change k.procs.table.lookup p = some y at hp
    obtain ⟨-, h⟩ | ⟨-, -, -, h⟩ | ⟨-, -, -, h⟩ := doExecve_cases hk hp a ok
    all_goals rw [KernOp.perform, h]
    · exact .same fun q => rfl
    · exact .same fun q => rfl
    · exact .same (upd_pid fun _ => rfl)
  | exit p code => exact .same (upd_pid fun _ => rfl)
  | wait p pid =>
    cases hz : k.procs.zombieChild p pid with
    | none =>
      simp only [KernOp.perform, doWait, hz]
      exact .same fun q => rfl
    | some z =>
      simp only [KernOp.perform, doWait, hz]
      exact .reap p z pid rfl hz rfl
  | openFile | closeFile | dup | dup2 => exact .same fun q => rfl

/-! ## Obtaining a socket -/

/-- The system, with the sockets that each process was given. -/
structure OwnerWatch where
  sys : Sys
  got : ℕ → Finset ℕ

def SysOp.obtains (op : SysOp) (r : ℤ) (S S' : SockTable) (i : ℕ) : Bool :=
  match op with
  | sock _ (.accept ..) => r == socketFd i
  | sock _ sop => sop.opens && isNew S S' i
  | kern _ => false

def OwnerWatch.observe (op : SysOp) (r : ℤ) (s' : Sys) (w : OwnerWatch) : OwnerWatch where
  sys := s'
  got := fun i => ((if isNew w.sys.socks s'.socks i then ∅ else w.got i) ∪
    if op.obtains r w.sys.socks s'.socks i then {op.caller} else ∅).filter (· ∈ s'.kern.procs.table)

def ownerStep (op : SysOp) (w : OwnerWatch) : (ℤ × List UInt8) × OwnerWatch :=
  let r := sysStep op w.sys
  (r.1, w.observe op r.1.1 r.2)

def OwnerWatch.boot (k : Kern) : OwnerWatch := ⟨Sys.boot k, fun _ => ∅⟩

/-- Every used slot belongs to a process, and a process has obtained the sockets under its identifier,
or they wait for a listener of it. -/
structure SocketsOwned (w : OwnerWatch) : Prop where
  owner : ∀ i < socketMax, (w.sys.socks i).used = true →
    ∃ p x, w.sys.kern.procs.table.lookup p = some x ∧ x.pid = (w.sys.socks i).ownerPid
  mine : ∀ p x i, w.sys.kern.procs.table.lookup p = some x → Owned x.pid i w.sys.socks →
    p ∈ w.got i ∨ Waits w.sys.socks i

def WaitsElse (S : SockTable) (l i : ℕ) : Prop :=
  ∃ l' < socketMax, l' ≠ l ∧ (S l').used = true ∧ (S l').ownerPid = (S i).ownerPid ∧ socketFd i ∈ (S l').pending

def ClosesAll (p l : ℕ) (w : OwnerWatch) : Prop :=
  Owned (w.sys.pid p) l w.sys.socks → ∀ i, i ≠ l → Owned (w.sys.pid p) i w.sys.socks →
    socketFd i ∈ (w.sys.socks l).pending → p ∈ w.got i ∨ WaitsElse w.sys.socks l i

/-- The call leaves no socket behind: a process that is reaped has none, a listener that is closed has
no connections that have not been accepted, and `sys_accept` does not fail once it has taken a
connection from the queue. -/
def Released (op : SysOp) (w : OwnerWatch) : Prop :=
  w.sys.kern.procs.runnable op.caller = true → match op with
    | .kern (.wait p pid) => ∀ z, w.sys.kern.procs.zombieChild p pid = some z →
      ∀ i < socketMax, (w.sys.socks i).used = true → (w.sys.socks i).ownerPid ≠ (w.sys.kern.procs.get z).pid
    | .kern (.closeFile p fd) => ∀ l, fd = socketFd l → ClosesAll p l w
    | .sock p (.close fd) => ∀ l, fd = socketFd l → ClosesAll p l w
    | .sock p (.accept fd true) => ∀ l child rest, fd = socketFd l →
      Owned (w.sys.pid p) l w.sys.socks → (w.sys.socks l).unixStream = true →
      (w.sys.socks l).pending = child :: rest → ∀ i, child = socketFd i → Owned (w.sys.pid p) i w.sys.socks →
          p ∈ w.got i ∨ socketFd i ∈ rest ∨ WaitsElse w.sys.socks l i
    | _ => True

variable {w : OwnerWatch} {op : SysOp} {r : ℤ × List UInt8} {s' : Sys}

lemma isNew_self (S : SockTable) (i : ℕ) : isNew S S i = false := by
  rw [isNew, Bool.not_and_self]

lemma mem_observe {r : ℤ} : p ∈ (w.observe op r s').got i ↔
    p ∈ s'.kern.procs.table ∧ (isNew w.sys.socks s'.socks i = false ∧ p ∈ w.got i ∨
      op.obtains r w.sys.socks s'.socks i = true ∧ p = op.caller) := by
  simp only [OwnerWatch.observe, Finset.mem_filter, Finset.mem_union]
  rw [and_comm]
  refine and_congr_right fun _ => or_congr ?_ ?_
  · cases isNew w.sys.socks s'.socks i with
    | true | false => simp
  cases op.obtains r w.sys.socks s'.socks i with
  | true | false => simp

/-- While the sockets stay, it is enough that the owners stay. -/
lemma SocketsOwned.of_procs (h : SocketsOwned w) {r : ℤ} (hsocks : s'.socks = w.sys.socks)
    (hkept : ∀ {p x i}, w.sys.kern.procs.table.lookup p = some x → Owned x.pid i w.sys.socks →
      ∃ y, s'.kern.procs.table.lookup p = some y ∧ y.pid = x.pid)
    (hold : ∀ {p y i}, s'.kern.procs.table.lookup p = some y → Owned y.pid i w.sys.socks →
      ∃ x, w.sys.kern.procs.table.lookup p = some x ∧ x.pid = y.pid) : SocketsOwned (w.observe op r s') := by
  constructor
  · intro i hi hu
    change (s'.socks i).used = true at hu
    change ∃ p x, s'.kern.procs.table.lookup p = some x ∧ x.pid = (s'.socks i).ownerPid
    rw [hsocks] at hu ⊢
    obtain ⟨p, x, hp, hx⟩ := h.owner i hi hu
    obtain ⟨y, hy, hyx⟩ := hkept hp ⟨hi, hu, hx.symm⟩
    exact ⟨p, y, hy, hyx.trans hx⟩
  intro p y i hp hown
  change Owned y.pid i s'.socks at hown
  change _ ∨ Waits s'.socks i
  rw [hsocks] at hown ⊢
  obtain ⟨x, hx, hxy⟩ := hold hp hown
  refine (h.mine p x i hx (hxy ▸ hown)).imp_left fun hgot => ?_
  rw [mem_observe, hsocks, isNew_self]
  exact ⟨Finmap.mem_of_lookup_eq_some hp, .inl ⟨rfl, hgot⟩⟩

lemma SocketsOwned.of_pids (h : SocketsOwned w) {r : ℤ} (hsocks : s'.socks = w.sys.socks)
    (hpids : ∀ p, (s'.kern.procs.table.lookup p).map Process.pid =
      (w.sys.kern.procs.table.lookup p).map Process.pid) : SocketsOwned (w.observe op r s') := by
  refine h.of_procs hsocks (fun {p} _ _ hp _ => ?_) fun {p} _ _ hp _ => ?_
  · have := hpids p
    rwa [hp, map_some, map_eq_some_iff] at this
  · have := (hpids p).symm
    rwa [hp, map_some, map_eq_some_iff] at this

lemma SocketsOwned.spawn (h : SocketsOwned w) (hT : w.sys.kern.procs.Tree) {r : ℤ} {c : ℕ} (hsocks : s'.socks = w.sys.socks)
    (hs : w.sys.kern.procs.Spawn s'.kern.procs c x) : SocketsOwned (w.observe op r s') := by
  have hpid : ∀ {q : ℕ} {y : Process}, (if q = x.parent then addChild c y else y).pid = y.pid := by
    intro q y
    split_ifs <;> rfl
  refine h.of_procs hsocks (fun hq _ => ⟨_, (hs.lookup_old hq).2, hpid⟩) fun {q y i} hq hown => ?_
  obtain ⟨rfl, rfl⟩ | ⟨-, y', hy', rfl⟩ := hs.cases hq
  · -- the new process owns no socket yet
    obtain ⟨q', y', hq', hy'⟩ := h.owner i hown.1 hown.2.1
    have h0 := (hT.node hq').ne_zero
    rw [← (hT.node hq').pidTable, hy', hown.2.2, hs.pid_free] at h0
    exact absurd rfl h0
  · exact ⟨y', hy', hpid.symm⟩

lemma SocketsOwned.reap (h : SocketsOwned w) (hT : w.sys.kern.procs.Tree) {r : ℤ} {z : ℕ} (hz : w.sys.kern.procs.table.lookup z = some x) (s' : Sys)
    (hsocks : s'.socks = w.sys.socks)
    (hprocs : s'.kern.procs = w.sys.kern.procs.unlink z) :
    SocketsOwned (w.observe op r s') ↔
      ∀ i < socketMax, (w.sys.socks i).used = true → (w.sys.socks i).ownerPid ≠ x.pid := by
  have hpid : ∀ {q : ℕ} {y : Process}, (if q = x.parent then { y with children := y.children.erase z }
      else y).pid = y.pid := by
    intro q y
    split_ifs <;> rfl
  constructor
  · intro h' i hi hu howner
    obtain ⟨q, y, hq, hy⟩ := h'.owner i hi (hsocks ▸ hu)
    change s'.kern.procs.table.lookup q = some y at hq
    change y.pid = (s'.socks i).ownerPid at hy
    rw [hprocs] at hq
    rw [hsocks, howner] at hy
    obtain ⟨hqz, y', hy', rfl⟩ := unlink_cases hz hq
    exact hqz (hT.pid_inj hy' hz (hpid.symm.trans hy))
  intro hfree
  refine h.of_procs hsocks (fun {q y i} hq hown => ?_) fun {q y i} hq _ => ?_ <;> rw [hprocs] at *
  · have hqz : q ≠ z := by
      rintro rfl
      obtain rfl := some.inj (hz.symm.trans hq)
      exact hfree i hown.1 hown.2.1 hown.2.2
    rw [unlink_lookup hz hqz, hq]
    exact ⟨_, rfl, hpid (q := q)⟩
  · obtain ⟨-, y', hy', rfl⟩ := unlink_cases hz hq
    exact ⟨y', hy', hpid.symm⟩

lemma WaitsElse.waits {pid : ℕ} (h : WaitsElse S l i) (hstep : SockStep pid sop S r S') (hq : Queues S)
    (hop : sop = .close (socketFd l) ∨ ∃ fault, sop = .accept (socketFd l) fault)
    (howner : (S' i).ownerPid = (S i).ownerPid) : Waits S' i := by
  obtain ⟨l', hl', hne, hu, ho, hmem⟩ := h
  cases queue_step hstep hq hu with
  | kept ext hu' ho' hpend _ =>
    refine ⟨l', hl', hu', ho'.trans (ho.trans howner.symm), ?_⟩
    rw [hpend]
    exact List.mem_append_left _ hmem
  | popped fault child hacc _ _ _ _ _ _ =>
    obtain hop | ⟨fault', hop⟩ := hop
    · cases hop.symm.trans hacc
    · exact absurd (socketFd_inj (SockOp.accept.inj (hop.symm.trans hacc)).1).symm hne
  | closed hclose _ _ =>
    obtain hop | ⟨fault', hop⟩ := hop
    · exact absurd (socketFd_inj (SockOp.close.inj (hop.symm.trans hclose))).symm hne
    · cases hop.symm.trans hclose

lemma eq_sock_of_asSock (h : op.asSock = some (p, sop))
    (hop : ∀ fd, sop ≠ .close fd) : op = .sock p sop := by
  cases op with
  | kern kop =>
    cases kop with
    | closeFile q fd => exact absurd (congrArg Prod.snd (some.inj h)).symm (hop fd)
    | _ => cases h
  | sock q sop' =>
    cases h
    rfl

lemma obtains_of_opens {r : ℤ}
    (h : op.asSock = some (p, sop)) (hopens : sop.opens = true) (hnew : isNew S S' i = true) :
    op.obtains r S S' i = true := by
  have hop : op = .sock p sop := eq_sock_of_asSock h (by rintro fd rfl; cases hopens)
  subst hop
  cases sop with
  | socket | socketpair => exact hnew
  | _ => cases hopens

lemma Released.closesAll (h : Released op w) (hrun : w.sys.kern.procs.runnable op.caller = true)
    (hop : op.asSock = some (p, .close (socketFd l))) : ClosesAll p l w := by
  cases op with
  | kern kop =>
    cases kop with
    | closeFile q fd =>
      obtain ⟨rfl, hfd⟩ := Prod.mk.inj (some.inj hop)
      exact h hrun l (SockOp.close.inj hfd)
    | _ => cases hop
  | sock q sop =>
    cases hop
    exact h hrun l rfl

lemma SocketsOwned.sock (h : SocketsOwned w) (hT : w.sys.kern.procs.Tree) (hq : Queues w.sys.socks)
    (hop : op.asSock = some (p, sop)) (hrun : w.sys.kern.procs.runnable op.caller = true)
    (hstep : SockStep (w.sys.pid p) sop w.sys.socks r S) (hrel : Released op w) :
    SocketsOwned (w.observe op r.1 { w.sys with socks := S }) := by
  obtain rfl := asSock_caller hop
  obtain ⟨y, hy, -⟩ := runnable_iff.mp hrun
  have hpid : w.sys.pid op.caller = y.pid := congrArg Process.pid (get_of_lookup hy)
  -- a process with the identifier of the caller is the caller
  have hcaller : ∀ {q x}, w.sys.kern.procs.table.lookup q = some x → x.pid = w.sys.pid op.caller →
      q = op.caller := fun hx hxp => hT.pid_inj hx hy (hxp.trans hpid)
  have hcallerOwned : ∀ {x i}, w.sys.kern.procs.table.lookup op.caller = some x →
      Owned x.pid i w.sys.socks → Owned (w.sys.pid op.caller) i w.sys.socks := by
    intro x i hx hown
    rwa [← get_of_lookup hx] at hown
  have hkept : ∀ {i}, (w.sys.socks i).used = true → (S i).used = true →
      (S i).ownerPid = (w.sys.socks i).ownerPid := by
    intro i hui hu
    cases slot_step hstep i with
    | new _ hu' _ _ => cases hui.symm.trans hu'
    | kept _ ho _ => exact ho hui
    | closed _ _ hu' => cases hu.symm.trans hu'
  constructor
  · intro i hi hu
    change (S i).used = true at hu
    change ∃ p x, w.sys.kern.procs.table.lookup p = some x ∧ x.pid = (S i).ownerPid
    cases hui : (w.sys.socks i).used with
    | true =>
      rw [hkept hui hu]
      exact h.owner i hi hui
    | false =>
      obtain ⟨-, ho⟩ | ⟨-, l, hl, hlu, hlo⟩ := new_step hstep hq hui hu
      · exact ⟨op.caller, y, hy, (ho.trans hpid).symm⟩
      rw [← hlo]
      exact h.owner l hl hlu
  intro q x i hx hown
  change w.sys.kern.procs.table.lookup q = some x at hx
  change Owned x.pid i S at hown
  change q ∈ (w.observe op r.1 { w.sys with socks := S }).got i ∨ Waits S i
  obtain ⟨hi, hu, ho⟩ := hown
  have hqmem := Finmap.mem_of_lookup_eq_some hx
  cases hui : (w.sys.socks i).used with
  | false =>
    obtain ⟨hopens, ho'⟩ | ⟨hwait, -⟩ := new_step hstep hq hui hu
    · left
      obtain rfl := hcaller hx (ho.symm.trans ho')
      refine mem_observe.mpr ⟨hqmem, .inr ⟨?_, rfl⟩⟩
      exact obtains_of_opens hop hopens (isNew_of hui hu)
    · exact .inr hwait
  | true =>
    have hsame := hkept hui hu
    have hown : Owned x.pid i w.sys.socks := ⟨hi, hui, hsame.symm.trans ho⟩
    have hkeep : q ∈ w.got i → q ∈ (w.observe op r.1 { w.sys with socks := S }).got i :=
      fun hgot => mem_observe.mpr ⟨hqmem, .inl ⟨not_isNew hui, hgot⟩⟩
    obtain hgot | ⟨l, hl, hlu, hlo, hpend⟩ := h.mine q x i hx hown
    · exact .inl (hkeep hgot)
    cases queue_step hstep hq hlu with
    | kept ext hlu' hlo' hext _ =>
      refine .inr ⟨l, hl, hlu', hlo'.trans (hlo.trans hsame.symm), ?_⟩
      rw [hext]
      exact List.mem_append_left _ hpend
    | popped fault child hacc hlown hunix hlu' hlo' hcons hr =>
      rw [hcons] at hpend
      obtain hchild | hrest := List.mem_cons.mp hpend
      · -- the slot is the one that is taken from the queue, so the caller is its owner
        obtain rfl := hcaller hx (hown.2.2.symm.trans (hlo.symm.trans hlown.2.2))
        have hop' := eq_sock_of_asSock hop (by rw [hacc]; nofun)
        rw [hacc] at hop'
        cases fault with
        | false =>
          left
          refine mem_observe.mpr ⟨hqmem, .inr ⟨?_, rfl⟩⟩
          rw [hop']
          exact beq_iff_eq.mpr (hr.trans hchild.symm)
        | true =>
          have hiown := hcallerOwned hx hown
          rw [hop'] at hrel
          obtain hgot | hrest | helse :=
            hrel hrun l child _ rfl hlown hunix hcons i hchild.symm hiown
          · exact .inl (hkeep hgot)
          · exact .inr ⟨l, hl, hlu', hlo'.trans (hlo.trans hsame.symm), hrest⟩
          · exact .inr (helse.waits hstep hq (.inr ⟨true, hacc⟩) hsame)
      · exact .inr ⟨l, hl, hlu', hlo'.trans (hlo.trans hsame.symm), hrest⟩
    | closed hclose hlown hlu' =>
      have hil : i ≠ l := by
        rintro rfl
        rw [hu] at hlu'
        cases hlu'
      obtain rfl := hcaller hx (hown.2.2.symm.trans (hlo.symm.trans hlown.2.2))
      have hall := hrel.closesAll hrun (hclose ▸ hop)
      obtain hgot | helse := hall hlown i hil (hcallerOwned hx hown) hpend
      · exact .inl (hkeep hgot)
      · exact .inr (helse.waits hstep hq (.inl hclose) hsame)

lemma SocketsOwned.mine_of_step {r : ℤ} (hrun : w.sys.kern.procs.runnable op.caller = true)
    (h' : SocketsOwned (w.observe op r { w.sys with socks := S }))
    (hown : Owned (w.sys.pid op.caller) i S)
    (hobtains : op.obtains r w.sys.socks S i = false) :
    op.caller ∈ w.got i ∨ Waits S i := by
  obtain ⟨y, hy, -⟩ := runnable_iff.mp hrun
  have hpid : w.sys.pid op.caller = y.pid := congrArg Process.pid (get_of_lookup hy)
  obtain hgot | hwait := h'.mine op.caller y i hy (hpid ▸ hown)
  · obtain ⟨-, ⟨-, hgot⟩ | ⟨hobt, -⟩⟩ := mem_observe.mp hgot
    · exact .inl hgot
    · rw [hobtains] at hobt
      cases hobt
  · exact .inr hwait

lemma sysClose_eq (hown : Owned (s.pid p) l s.socks) :
    s.sysClose p (socketFd l) = ((0, []), { s with socks := closeSocket l s.socks }) := by
  have hget : socketGetOwned (s.pid p) (socketFd l) s.socks = some l :=
    socketGetOwned_eq_some.mpr ⟨rfl, hown⟩
  rw [Sys.sysClose, sysCloseSocket, hget]
  rfl

lemma closesAll_of_step (hrun : w.sys.kern.procs.runnable op.caller = true)
    (hperform : Owned (w.sys.pid op.caller) l w.sys.socks →
      (sysStep op w.sys) = ((0, []), { w.sys with socks := closeSocket l w.sys.socks }))
    (hobtains : ∀ r S i, op.obtains r w.sys.socks S i = false)
    (h' : SocketsOwned (ownerStep op w).2) : ClosesAll op.caller l w := by
  intro hlown i hil hiown hpend
  rw [ownerStep, hperform hlown] at h'
  have halike : ∀ {k}, k ≠ l → (w.sys.socks k).Alike (closeSocket l w.sys.socks k) := by
    intro k hk
    rw [closeSocket, update_of_ne hk]
    exact tellPeer_alike l k w.sys.socks
  have hi := halike hil
  have hown : Owned (w.sys.pid op.caller) i (closeSocket l w.sys.socks) :=
    ⟨hiown.1, hi.used.trans hiown.2.1, hi.ownerPid.trans hiown.2.2⟩
  obtain hgot | ⟨l', hl', hlu, hlo, hmem⟩ := h'.mine_of_step hrun hown (hobtains ..)
  · exact .inl hgot
  have hne : l' ≠ l := by
    rintro rfl
    rw [closeSocket, update_self] at hlu
    cases hlu
  have hl := halike hne
  refine .inr ⟨l', hl', hne, hl.used.symm.trans hlu, ?_, hl.queue.pending ▸ hmem⟩
  exact hl.ownerPid.symm.trans (hlo.trans hi.ownerPid)

lemma SocketsOwned.released (h : SocketsOwned w) (hT : w.sys.kern.procs.Tree)
    (hq : Queues w.sys.socks) (h' : SocketsOwned (ownerStep op w).2) : Released op w := by
  intro hrun
  have hsys : sysStep op w.sys = op.perform w.sys := if_pos hrun
  cases op with
  | kern kop =>
    cases kop with
    | wait p pid =>
      intro z hz
      obtain ⟨x, hx, -⟩ := zombieChild_spec hT hz
      have hperform : (sysStep (.kern (.wait p pid)) w.sys).2 =
          { w.sys with kern := processDestroy z w.sys.kern } := by
        simp only [hsys, SysOp.perform, KernOp.perform, doWait, hz]
      rw [ownerStep, hperform] at h'
      rw [get_of_lookup hx]
      exact (h.reap hT hx { w.sys with kern := processDestroy z w.sys.kern } rfl rfl).mp h'
    | closeFile p fd =>
      rintro l rfl
      exact closesAll_of_step hrun (fun hlown => hsys.trans (sysClose_eq hlown)) (fun _ _ _ => rfl) h'
    | _ => trivial
  | sock p sop =>
    cases sop with
    | close fd =>
      rintro l rfl
      exact closesAll_of_step hrun (fun hlown => hsys.trans (sysClose_eq hlown)) (fun _ _ _ => rfl) h'
    | accept fd fault =>
      cases fault with
      | false => trivial
      | true =>
        rintro l child rest rfl hlown hunix hcons i rfl hiown
        obtain ⟨x, hpop, rfl⟩ := pending_eq_cons (hq l) hcons
        obtain ⟨hxu, hxo⟩ := popPending_owner hpop
        have hget : socketGetOwned (w.sys.pid p) (socketFd l) w.sys.socks = some l :=
          socketGetOwned_eq_some.mpr ⟨rfl, hlown⟩
        have hperform : sysStep (.sock p (.accept (socketFd l) true)) w.sys =
            ((eFault, []), { w.sys with socks := update w.sys.socks l x }) := by
          rw [hsys]
          simp only [SysOp.perform, SockOp.perform, sysAccept, hget, hunix, if_true, hpop]
        rw [ownerStep, hperform] at h'
        have hsame : ∀ k, (update w.sys.socks l x k).used = (w.sys.socks k).used ∧
            (update w.sys.socks l x k).ownerPid = (w.sys.socks k).ownerPid := by
          intro k
          by_cases hk : k = l
          · rw [hk, update_self]
            exact ⟨hxu, hxo⟩
          rw [update_of_ne hk]
          exact ⟨rfl, rfl⟩
        have hown : Owned (w.sys.pid p) i (update w.sys.socks l x) :=
          ⟨hiown.1, (hsame i).1.trans hiown.2.1, (hsame i).2.trans hiown.2.2⟩
        have hobtains : (SysOp.sock p (.accept (socketFd l) true)).obtains eFault w.sys.socks
            (update w.sys.socks l x) i = false := by
          have := socketFd_nonneg i
          simp only [SysOp.obtains, beq_eq_false_iff_ne, eFault]
          omega
        obtain hgot | ⟨l', hl', hlu, hlo, hmem⟩ := h'.mine_of_step hrun hown hobtains
        · exact .inl hgot
        by_cases hne : l' = l
        · rw [hne, update_self] at hmem
          exact .inr (.inl hmem)
        rw [update_of_ne hne] at hlu hlo hmem
        exact .inr (.inr ⟨l', hl', hne, hlu, hlo.trans (hsame i).2, hmem⟩)
    | _ => trivial

lemma SocketsOwned.step (h : SocketsOwned w) (hok : w.sys.Ok) (hq : Queues w.sys.socks)
    (hrel : Released op w) : SocketsOwned (ownerStep op w).2 := by
  have hstep := sysStep_cases op w.sys
  rw [ownerStep]
  generalize sysStep op w.sys = r at hstep ⊢
  obtain ⟨r, s'⟩ := r
  cases hstep with
  | idle _ => exact h.of_pids rfl fun _ => rfl
  | sock p sop r S hop hrun hsock => exact h.sock hok.base.tree hq hop hrun hsock hrel
  | kern kop hop hrun =>
    have hrun' : w.sys.kern.procs.runnable kop.caller = true := asKern_caller hop ▸ hrun
    cases pid_step hok.base hrun' with
    | same hpids => exact h.of_pids rfl hpids
    | spawn c x hs => exact h.spawn hok.base.tree rfl hs
    | reap p z pid hwait hz hprocs =>
      obtain ⟨x, hx, -⟩ := zombieChild_spec hok.base.tree hz
      refine (h.reap hok.base.tree hx { w.sys with kern := (kernStep kop w.sys.kern).2 } rfl hprocs).mpr ?_
      have hop' : op = .kern (.wait p pid) := by
        cases op with
        | kern kop' => rw [← hwait, ← some.inj hop]
        | sock q sop =>
          cases sop with
          | close fd => cases (some.inj hop).trans hwait
          | _ => cases hop
      rw [hop'] at hrel hrun
      rw [← get_of_lookup hx]
      exact hrel hrun z hz

lemma queues_sysStep (hq : Queues s.socks) (op : SysOp) : Queues (sysStep op s).2.socks := by
  have hstep := sysStep_cases op s
  generalize sysStep op s = r at hstep ⊢
  obtain ⟨r, s'⟩ := r
  cases hstep with
  | idle _ => exact hq
  | sock p sop r S _ _ hsock => exact queues_step hsock hq
  | kern kop _ _ => exact hq

lemma socketsOwned_boot (k : Kern) : SocketsOwned (OwnerWatch.boot k) := by
  constructor
  · intro i _ hu
    cases hu
  rintro p x i - ⟨-, hu, -⟩
  cases hu

/-- **Every socket belongs to a process that has obtained it**, or waits for one of its listeners, in
every state of a run from `process_init`, just when no call leaves a socket behind. -/
theorem owner_run_obtained {k : Kern} {a b : CreateAns} (hk : processInit a b = some k) (ops : List SysOp) :
    (∀ pre, pre <+: ops → SocketsOwned (runOps ownerStep pre (OwnerWatch.boot k)).2) ↔
      Along ownerStep Released ops (OwnerWatch.boot k) := by
  have hstep : ∀ op (w : OwnerWatch), w.sys.Ok ∧ Queues w.sys.socks →
      (ownerStep op w).2.sys.Ok ∧ Queues (ownerStep op w).2.sys.socks :=
    fun op w h => ⟨h.1.step op, queues_sysStep h.2 op⟩
  have hboot : (OwnerWatch.boot k).sys.Ok ∧ Queues (OwnerWatch.boot k).sys.socks :=
    ⟨Sys.Ok.boot hk, fun _ => queueOk_new rfl rfl⟩
  have hall : ∀ pre, (runOps ownerStep pre (OwnerWatch.boot k)).2.sys.Ok ∧
      Queues (runOps ownerStep pre (OwnerWatch.boot k)).2.sys.socks :=
    fun pre => runOps_inv (fun w : OwnerWatch => w.sys.Ok ∧ Queues w.sys.socks) hstep pre hboot
  have hiff := forall_prefix_iff_along (fun w : OwnerWatch => (w.sys.Ok ∧ Queues w.sys.socks) ∧ SocketsOwned w)
    (fun op w h => (and_iff_right (hstep op w h.1)).trans
      ⟨h.2.released h.1.1.base.tree h.1.2, h.2.step h.1.1 h.1.2⟩) ops
    ⟨hboot, socketsOwned_boot k⟩
  rw [← hiff]
  exact forall₂_congr fun pre _ => (and_iff_right (hall pre)).symm

theorem owner_run_obtained_small : ∃ k, processInit idleAns initAns = some k ∧
    SocketsOwned (runOps ownerStep [.kern (.execve 101 10 true),
      .kern (.fork 101 0 childAns),
      .sock 102 (.socket afUnix sockStream 0 true), .sock 102 (.close 512), .kern (.exit 102 0),
      .kern (.wait 101 (-1))] (OwnerWatch.boot k)).2 := by
  obtain ⟨k, hk, hclose, hwait⟩ := exists_boot (P := fun k =>
    let w := (runOps ownerStep [.kern (.execve 101 10 true),
      .kern (.fork 101 0 childAns),
      .sock 102 (.socket afUnix sockStream 0 true)] (OwnerWatch.boot k)).2
    (w.sys.socks 0).pending = [] ∧ ∀ i < socketMax,
      ((runOps ownerStep [.sock 102 (.close 512), .kern (.exit 102 0)] w).2.sys.socks i).used = false)
    (by decide +kernel)
  refine ⟨k, hk, (owner_run_obtained hk _).mpr ?_ _ List.prefix_rfl⟩
  refine ⟨fun _ => trivial, fun _ => trivial, fun _ => trivial, fun _ l hl => ?_, fun _ => trivial,
    fun _ z _ i hi hu => ?_, trivial⟩
  · obtain rfl : l = 0 := socketFd_inj (hl.symm.trans (by decide))
    intro _ i _ _ hmem
    exact absurd (hclose.subst (motive := (socketFd i ∈ ·)) hmem) List.not_mem_nil
  · cases hu.symm.trans (hwait i hi)

theorem reaped_process_leaves_socket : ∃ k,
    processInit idleAns initAns = some k ∧
    let run := runOps ownerStep [.kern (.execve 101 10 true),
      .kern (.fork 101 0 childAns),
      .sock 102 (.socket afUnix sockStream 0 true), .kern (.exit 102 0),
      .kern (.wait 101 (-1))] (OwnerWatch.boot k)
    run.1 = [(0, []), (3, []), (512, []), (0, []), (3, [])] ∧
      (run.2.sys.socks 0).used = true ∧ (run.2.sys.socks 0).ownerPid = 3 ∧
      run.2.sys.kern.procs.pidTable 3 = 0 ∧ ¬SocketsOwned run.2 := by
  obtain ⟨k, hk, hres, hused, howner, hfree⟩ := exists_boot (P := fun k =>
    let run := runOps ownerStep [.kern (.execve 101 10 true),
      .kern (.fork 101 0 childAns),
      .sock 102 (.socket afUnix sockStream 0 true), .kern (.exit 102 0),
      .kern (.wait 101 (-1))] (OwnerWatch.boot k)
    run.1 = [(0, []), (3, []), (512, []), (0, []), (3, [])] ∧
      (run.2.sys.socks 0).used = true ∧ (run.2.sys.socks 0).ownerPid = 3 ∧
      run.2.sys.kern.procs.pidTable 3 = 0) (by decide +kernel)
  refine ⟨k, hk, hres, hused, howner, hfree, fun h => ?_⟩
  have hT : ∀ ops, (runOps ownerStep ops (OwnerWatch.boot k)).2.sys.Ok := fun ops =>
    runOps_inv (fun w : OwnerWatch => w.sys.Ok) (fun op w h => h.step op) ops (Sys.Ok.boot hk)
  obtain ⟨p, x, hp, hx⟩ := h.owner 0 (by decide) hused
  have h0 := ((hT _).base.tree.node hp).ne_zero
  rw [← ((hT _).base.tree.node hp).pidTable, hx, howner] at h0
  exact h0 hfree

end Obelisk
