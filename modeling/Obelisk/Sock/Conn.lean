import Obelisk.Net.Timer
import Obelisk.Sock.Step
import Obelisk.Sock.Tcp

/-!
# A TCP socket and its connection

- `conn_run_own`: when a socket has only its own connections.
-/

namespace Obelisk

open KLib Function SockTable

variable {s s' : TcpSys} {i j k pid : ℕ}
variable {n : Net} {S S' : SockTable} {x : KSocket} {w : ConnWatch} {conn loops : ℕ}

/-- Slot `i` has the connection slot `k`: as its `tcp_conn_id`, or its `sys_connect` waits for it. -/
def Holds (s : TcpSys) (i k : ℕ) : Prop :=
  ((s.socks i).used = true ∧ (s.socks i).tcpConnId = k) ∨ ∃ pid loops, s.waits pid = some (.connect i k loops)

def WaitsOwned (s : TcpSys) : Prop :=
  ∀ pid w, s.waits pid = some w → Owned pid w.sock s.socks

def Shrinks (n n' : Net) : Prop := ∀ k, (n'.conns k).used = true → (n.conns k).used = true

lemma Shrinks.refl (n : Net) : Shrinks n n := fun _ h => h

lemma Shrinks.trans {n' n'' : Net} (h : Shrinks n n') (h' : Shrinks n' n'') : Shrinks n n'' :=
  fun k hk => h k (h' k hk)

lemma exec_shrinks (op : NetOp) (n : Net) : Shrinks n (op.exec n).2 := by
  intro k hk
  change ((op.exec n).2.conns k).rx.used = true at hk
  change (n.conns k).rx.used = true
  have h := exec_connStep op n k
  generalize (n.conns k).rx = r, ((op.exec n).2.conns k).rx = r', op.got k (op.exec n).1 = g,
    op.finTaken k n = b at h hk
  cases h with
  | quiet hq =>
    cases hq with
    | same => exact hk
    | closed => simp at hk
  | read | opens => exact hk
  | segment _ _ _ _ _ =>
    rw [RxPart.input, RxPart.take] at hk
    split_ifs at hk <;> exact hk

lemma netTick_shrinks (n : Net) : Shrinks n (netTick n) := exec_shrinks .tick n

lemma netTcpClose_shrinks (c : ℤ) (n : Net) : Shrinks n (netTcpClose c n).2 := by
  intro k hk
  change ((netTcpClose c n).2.conns k).tx.used = true at hk
  change (n.conns k).tx.used = true
  have h := netTcpClose_txStep c n k
  generalize (n.conns k).tx = r, ((netTcpClose c n).2.conns k).tx = r' at h hk
  cases h with
  | same | acked | opens => exact hk
  | closed => simp at hk
  | cleared => simp [TcpConn.tx, TcpConn.zero] at hk

def unusedConn (n : Net) : Option ℕ := (List.range netTcpConnMax).find? fun k => !(n.conns k).used

/-- A new connection is taken. -/
structure Takes (n n' : Net) (k : ℕ) : Prop where
  unused : (n.conns k).used = false
  used : (n'.conns k).used = true
  other : ∀ j ≠ k, n'.conns j = n.conns j

lemma netTcpConnect_cases (dstIp : List UInt8) {dstPort localPort : ℕ} (hd : dstPort ≠ 0)
    (hl : localPort ≠ 0) (n : Net) :
    (∃ e, netTcpConnect dstIp dstPort localPort n = (.error e, n) ∧ (n.present = false ∨ unusedConn n = none)) ∨
    ∃ k n', netTcpConnect dstIp dstPort localPort n = (.ok k, n') ∧ n.present = true ∧
      unusedConn n = some k ∧ Takes n n' k := by
  rw [netTcpConnect, if_neg (by simp [hd, hl])]
  cases hp : n.present with
  | false => exact .inl ⟨eNetdown, rfl, .inl rfl⟩
  | true =>
    rw [if_neg (by simp), ← unusedConn]
    cases hk : unusedConn n with
    | none => exact .inl ⟨eMfile, rfl, .inr rfl⟩
    | some k =>
      have hu : (n.conns k).used = false := by simpa using List.find?_some hk
      refine .inr ⟨k, _, rfl, rfl, rfl, hu, ?_, fun j hj => by rw [setConn_conns, if_neg hj]⟩
      rw [setConn_conns, if_pos rfl]
      obtain _ | ⟨_ | _, rest⟩ := n.answers <;> rfl

/-! ## What an operation can do -/

/-- Nothing comes to be held: every connection that a socket has it had before, and no connection comes
up. -/
structure HoldsLess (s s' : TcpSys) : Prop where
  net : Shrinks s.net s'.net
  holds : ∀ i k, Holds s' i k → Holds s i k ∧ isNew s.socks s'.socks i = false
  owned : WaitsOwned s'

lemma HoldsLess.of (hW : WaitsOwned s) (hn : Shrinks s.net s'.net)
    (hsock : ∀ j (k : ℕ), (s'.socks j).used = true → (s'.socks j).tcpConnId = k →
      (s.socks j).used = true ∧ Holds s j k)
    (hconn : ∀ p i k l, s'.waits p = some (.connect i k l) → ∃ l0, s.waits p = some (.connect i k l0))
    (hown : WaitsOwned s') : HoldsLess s s' where
  net := hn
  owned := hown
  holds := by
    rintro i k (⟨hu, hk⟩ | ⟨p, l, hw⟩)
    · obtain ⟨hu0, hh⟩ := hsock i k hu hk
      exact ⟨hh, not_isNew hu0⟩
    obtain ⟨l0, hw0⟩ := hconn p i k l hw
    exact ⟨.inr ⟨p, l0, hw0⟩, not_isNew (hW p _ hw0).2.1⟩

/-- The socket holds the same connection. -/
structure SameHold (S S' : SockTable) (j : ℕ) : Prop where
  used : (S' j).used = (S j).used
  owner : (S' j).ownerPid = (S j).ownerPid
  conn : (S' j).tcpConnId = (S j).tcpConnId

lemma SameHold.refl (S : SockTable) (j : ℕ) : SameHold S S j := ⟨rfl, rfl, rfl⟩

lemma SameHold.owned (h : SameHold S S' j) (ho : Owned pid j S) :
    Owned pid j S' :=
  ⟨ho.1, h.used.trans ho.2.1, h.owner.trans ho.2.2⟩

lemma SameHold.update (hu : x.used = (S i).used)
    (ho : x.ownerPid = (S i).ownerPid) (hc : x.tcpConnId = (S i).tcpConnId) (j : ℕ) :
    SameHold S (update S i x) j := by
  by_cases hj : j = i
  · subst hj
    exact ⟨by rw [update_self, hu], by rw [update_self, ho], by rw [update_self, hc]⟩
  have h := update_of_ne hj x S
  exact ⟨congrArg _ h, congrArg _ h, congrArg _ h⟩

lemma HoldsLess.of_same (hW : WaitsOwned s) (hn : Shrinks s.net s'.net) (hs : ∀ j, SameHold s.socks s'.socks j)
    (hconn : ∀ p i k l, s'.waits p = some (.connect i k l) → ∃ l0, s.waits p = some (.connect i k l0))
    (hown : ∀ p w, s'.waits p = some w → Owned p w.sock s.socks) : HoldsLess s s' :=
  .of hW hn (fun j k hu hk => by
      rw [(hs j).used] at hu
      rw [(hs j).conn] at hk
      exact ⟨hu, .inl ⟨hu, hk⟩⟩)
    hconn fun p w hw => (hs w.sock).owned (hown p w hw)

lemma HoldsLess.of_net (hW : WaitsOwned s) (hn : Shrinks s.net n) :
    HoldsLess s { s with net := n } :=
  .of_same hW hn (fun j => .refl _ j) (fun _ _ _ l hw => ⟨l, hw⟩) hW

lemma HoldsLess.refl (hW : WaitsOwned s) : HoldsLess s s := .of_net hW (.refl _)

lemma HoldsLess.ends (h : HoldsLess s s') (p : ℕ) (r : ℤ × List UInt8) :
    HoldsLess s (s'.ends p r).2 := by
  have hsub : ∀ q w, (s'.ends p r).2.waits q = some w → s'.waits q = some w := by
    intro q w hw
    rw [TcpSys.ends] at hw
    by_cases hq : q = p
    · subst hq
      simp at hw
    · simpa [hq] using hw
  refine ⟨h.net, fun i k hk => h.holds i k ?_, fun q w hw => h.owned q w (hsub q w hw)⟩
  rcases hk with hk | ⟨q, l, hw⟩
  · exact .inl hk
  · exact .inr ⟨q, l, hsub q _ hw⟩

lemma HoldsLess.waitsIn (h : HoldsLess s s') {p : ℕ} {w : TcpWait} (ho : Owned p w.sock s'.socks)
    (hc : ∀ i k l, w = .connect i k l → ∃ l0, s'.waits p = some (.connect i k l0)) :
    HoldsLess s (s'.waitsIn p w).2 := by
  have hcase : ∀ q v, (s'.waitsIn p w).2.waits q = some v →
      (q = p ∧ v = w) ∨ s'.waits q = some v := by
    intro q v hv
    rw [TcpSys.waitsIn] at hv
    by_cases hq : q = p
    · subst hq
      exact .inl ⟨rfl, by simpa using hv.symm⟩
    · exact .inr (by simpa [hq] using hv)
  refine ⟨h.net, fun i k hk => h.holds i k ?_, fun q v hv => ?_⟩
  · rcases hk with hk | ⟨q, l, hw⟩
    · exact .inl hk
    · rcases hcase q _ hw with ⟨rfl, he⟩ | hw
      · obtain ⟨l0, hw0⟩ := hc i k l he.symm
        exact .inr ⟨q, l0, hw0⟩
      · exact .inr ⟨q, l, hw⟩
  rcases hcase q v hv with ⟨rfl, rfl⟩ | hw
  · exact ho
  · exact h.owned q v hw

section

variable (hW : WaitsOwned s)
include hW

lemma connected_less (hw : s.waits pid = some (.connect i conn loops)) : HoldsLess s
      { s with socks := s.socks.upd i ({ · with tcpConnId := conn, connected := true }) } := by
  have ho : Owned pid i s.socks := hW pid _ hw
  refine .of hW (.refl _) (fun j k hu hk => ?_) (fun _ _ _ l h => ⟨l, h⟩) fun p w h => ?_
  · dsimp only at hu hk
    by_cases hj : j = i
    · subst hj
      rw [upd_self] at hk
      obtain rfl : conn = k := Int.natCast_inj.mp hk
      exact ⟨ho.2.1, .inr ⟨pid, loops, hw⟩⟩
    rw [upd_ne hj] at hu hk
    exact ⟨hu, .inl ⟨hu, hk⟩⟩
  have h0 := hW p w h
  refine ⟨h0.1, ?_⟩
  dsimp only
  by_cases hj : w.sock = i
  · rw [hj, upd_self]
    exact hj ▸ h0.2
  rw [upd_ne hj]
  exact h0.2

lemma connectRound_less (hw : s.waits pid = some (.connect i conn loops)) :
    HoldsLess s (s.connectRound pid i conn loops).2 := by
  have ho : Owned pid i s.socks := hW pid _ hw
  have hclose := HoldsLess.of_net hW (netTcpClose_shrinks conn s.net)
  cases loops with
  | zero => exact hclose.ends pid _
  | succ loops =>
    rw [TcpSys.connectRound]
    split_ifs
    · exact (connected_less hW hw).ends pid _
    · exact hclose.ends pid _
    refine (HoldsLess.of_net hW (netTick_shrinks s.net)).waitsIn ho fun i' k l h => ?_
    cases h
    exact ⟨loops + 1, hw⟩

lemma sendRound_less (ho : Owned pid i s.socks) (data : List UInt8) (round retries : ℕ) (ctrlc : Bool) :
    HoldsLess s (s.sendRound pid i data round retries ctrlc).2 := by
  have hsend : Shrinks s.net (netTcpSend (s.socks i).tcpConnId data s.net).2 :=
    exec_shrinks (.send (s.socks i).tcpConnId data) s.net
  rw [TcpSys.sendRound]
  generalize netTcpSend (s.socks i).tcpConnId data s.net = r at hsend ⊢
  dsimp only
  have htick := HoldsLess.of_net hW (hsend.trans (netTick_shrinks r.2))
  split_ifs
  · exact (HoldsLess.refl hW).ends pid _
  · exact (HoldsLess.of_net hW hsend).ends pid _
  · exact (HoldsLess.of_net hW hsend).ends pid _
  · exact htick.ends pid _
  · exact htick.waitsIn ho nofun

lemma recvRound_less (ho : Owned pid i s.socks) (want round loops : ℕ)
    (ctrlc fault : Bool) : HoldsLess s (s.recvRound pid i want round loops ctrlc fault).2 := by
  have hrecv : Shrinks s.net (netTcpRecv (s.socks i).tcpConnId want s.net).2 :=
    exec_shrinks (.recv (s.socks i).tcpConnId want) s.net
  cases loops with
  | zero => exact (HoldsLess.refl hW).ends pid _
  | succ loops =>
    rw [TcpSys.recvRound]
    generalize netTcpRecv (s.socks i).tcpConnId want s.net = r at hrecv ⊢
    dsimp only
    split_ifs
    · exact (HoldsLess.refl hW).ends pid _
    · exact (HoldsLess.of_net hW hrecv).ends pid _
    · exact (HoldsLess.of_net hW hrecv).ends pid _
    · exact (HoldsLess.of_net hW hrecv).ends pid _
    · exact (HoldsLess.of_net hW (hrecv.trans (netTick_shrinks r.2))).waitsIn ho nofun

lemma resume_less (pid : ℕ) (ctrlc fault : Bool) :
    HoldsLess s (s.resume pid ctrlc fault).2 := by
  rw [TcpSys.resume]
  cases hw : s.waits pid with
  | none => exact .refl hW
  | some w =>
    cases w with
    | connect i conn loops => exact connectRound_less hW hw
    | send i data round retries => exact sendRound_less hW (hW pid _ hw) ..
    | recv i want round loops => exact recvRound_less hW (hW pid _ hw) ..

end

/-! ## The calls -/

lemma tcpSocket_eq_some {fd : ℤ} (h : s.tcpSocket pid fd = some i) :
    fd = socketFd i ∧ Owned pid i s.socks ∧ (s.socks i).isTcp = true := by
  obtain ⟨hi, ht⟩ := Option.filter_eq_some_iff.mp h
  obtain ⟨hfd, ho⟩ := socketGetOwned_eq_some.mp hi
  exact ⟨hfd, ho, ht⟩

lemma socket_less (hW : WaitsOwned s) (protocol : ℤ) (netReady : Bool) :
    HoldsLess s { s with socks := (sysSocket pid afInet sockStream protocol netReady s.socks).2 } := by
  obtain ⟨-, proto, h⟩ | ⟨-, e, h⟩ := sysSocket_eq pid s.socks afInet sockStream protocol netReady
  · rw [h, openSocket, socketAllocSlot]
    cases hi : unusedSlot s.socks with
    | none => exact .refl hW
    | some i =>
      obtain ⟨-, hu⟩ := unusedSlot_eq_some hi
      refine .of hW (.refl _) (fun j k hu' hk => ?_) (fun _ _ _ l h => ⟨l, h⟩) fun p w hw => ?_
      · by_cases hj : j = i
        · subst hj
          simp [upd, KSocket.fresh] at hk
        · simp only [Option.map_some] at hu' hk
          rw [upd_ne hj, update_of_ne hj] at hu' hk
          exact ⟨hu', .inl ⟨hu', hk⟩⟩
      have h0 := hW p w hw
      have hj : w.sock ≠ i := by
        rintro rfl
        rw [h0.2.1] at hu
        cases hu
      refine ⟨h0.1, ?_⟩
      simp only [Option.map_some]
      rw [upd_ne hj, update_of_ne hj]
      exact h0.2
  rw [h]
  exact .refl hW

lemma bindPort_same (i j : ℕ) (s : TcpSys) : SameHold s.socks (s.bindPort i).socks j := by
  refine SameHold.update ?_ ?_ ?_ j <;> rfl

lemma bind_less (hW : WaitsOwned s) (fd : ℤ) (addr : UserAddr) :
    HoldsLess s { s with socks := (sysBind pid fd addr s.socks).2 } := by
  refine .of_same hW (.refl _) (fun j => ?_) (fun _ _ _ l h => ⟨l, h⟩) hW
  rw [sysBind]
  cases socketGetOwned pid fd s.socks with
  | none => exact .refl _ j
  | some i =>
    cases addr.check afUnix <;> cases addr.check afInet <;> dsimp only <;> split_ifs
    all_goals first
      | exact .refl _ j
      | refine SameHold.update ?_ ?_ ?_ j <;> rfl

lemma drop_less (hW : WaitsOwned s) (hw : s.waits pid = none) (ho : Owned pid i s.socks) (hx : x.used = true → x.tcpConnId < 0) :
    HoldsLess s { s.dropConn i with socks := update s.socks i x } := by
  have hn : Shrinks s.net (s.dropConn i).net := by
    rw [TcpSys.dropConn]
    split_ifs
    · exact netTcpClose_shrinks _ _
    · exact .refl _
  have hwaits : (s.dropConn i).waits = s.waits := by
    rw [TcpSys.dropConn]
    split_ifs <;> rfl
  refine .of hW hn (fun j k hu hk => ?_) (fun p i' k l h => ⟨l, hwaits ▸ h⟩) fun p w h => ?_
  · dsimp only at hu hk
    by_cases hj : j = i
    · subst hj
      rw [update_self] at hu hk
      have := hx hu
      omega
    rw [update_of_ne hj] at hu hk
    exact ⟨hu, .inl ⟨hu, hk⟩⟩
  dsimp only at h
  rw [hwaits] at h
  have h0 := hW p w h
  have hj : w.sock ≠ i := by
    intro hj
    rw [hj] at h0
    obtain rfl : p = pid := h0.2.2.symm.trans ho.2.2
    rw [hw] at h
    cases h
  refine ⟨h0.1, ?_⟩
  dsimp only
  rw [update_of_ne hj]
  exact h0.2

lemma not_unixStream (h : x.isTcp = true) : x.unixStream = false := by
  simp only [KSocket.isTcp, Bool.and_eq_true, beq_iff_eq] at h
  simp [KSocket.unixStream, h.1.1, afUnix, afInet]

section

variable (hW : WaitsOwned s)
include hW

lemma shutdown_less (hw : s.waits pid = none) (fd : ℤ) :
    HoldsLess s (s.shutdown pid fd).2 := by
  rw [TcpSys.shutdown]
  cases hi : s.tcpSocket pid fd with
  | none => exact .refl hW
  | some i =>
    obtain ⟨rfl, ho, ht⟩ := tcpSocket_eq_some hi
    have hown := socketGetOwned_eq_some.mpr ⟨rfl, ho⟩
    have htcp : (s.socks i).type = sockStream ∧ (s.socks i).protocol = ipprotoTcp := by
      simp only [KSocket.isTcp, Bool.and_eq_true, beq_iff_eq] at ht
      exact ⟨ht.1.2, ht.2⟩
    dsimp only
    rw [sysShutdown, hown]
    dsimp only
    rw [if_neg (by simp [not_unixStream ht])]
    split_ifs with hc
    · exact drop_less hW hw ho fun _ => by simp
    have hneg : ¬ 0 ≤ (s.socks i).tcpConnId := fun h => hc ⟨htcp.1, htcp.2, h⟩
    rw [TcpSys.dropConn, if_neg hneg]
    exact .refl hW

lemma close_less (hw : s.waits pid = none) (fd : ℤ) :
    HoldsLess s (s.close pid fd).2 := by
  rw [TcpSys.close]
  cases hi : s.tcpSocket pid fd with
  | none => exact .refl hW
  | some i =>
    obtain ⟨rfl, ho, ht⟩ := tcpSocket_eq_some hi
    have hclose : closeSocket i s.socks = update s.socks i .zero := by
      rw [closeSocket, tellPeer, if_neg (by simp [not_unixStream ht])]
    dsimp only
    rw [hclose]
    exact drop_less hW hw ho fun h => by simp [KSocket.zero] at h

lemma sendto_less (fd : ℤ) (buf : Option (List UInt8)) (len : ℕ)
    (fault : Bool) : HoldsLess s (s.sendto pid fd buf len fault).2 := by
  rw [TcpSys.sendto]
  cases hi : s.tcpSocket pid fd with
  | none => exact .refl hW
  | some i =>
    obtain ⟨-, ho, -⟩ := tcpSocket_eq_some hi
    cases buf with
    | none =>
      dsimp only
      split_ifs <;> exact .refl hW
    | some data =>
      dsimp only
      split_ifs
      · exact .refl hW
      · exact .refl hW
      · exact .refl hW
      · exact .refl hW
      · exact (HoldsLess.refl hW).waitsIn ho nofun

lemma recvfrom_less (fd : ℤ) (len : ℕ) (null : Bool) :
    HoldsLess s (s.recvfrom pid fd len null).2 := by
  rw [TcpSys.recvfrom]
  cases hi : s.tcpSocket pid fd with
  | none => exact .refl hW
  | some i =>
    obtain ⟨-, ho, -⟩ := tcpSocket_eq_some hi
    dsimp only
    split_ifs
    · exact .refl hW
    · exact .refl hW
    · exact .refl hW
    · exact (HoldsLess.refl hW).waitsIn ho nofun

end

def TcpSysOp.takes (s : TcpSys) : TcpSysOp → Option (ℕ × ℕ)
  | call pid (.connect fd addr _) =>
    if (s.waits pid).isSome then none
    else
      match s.tcpSocket pid fd with
      | none => none
      | some i =>
        if (addr.check afInet).isSome || addr.port = 0 || !s.net.present then none
        else (unusedConn s.net).map (i, ·)
  | _ => none

/-- **What an operation can do**: only a `sys_connect` takes a connection slot. -/
inductive TcpStep (s s' : TcpSys) : Option (ℕ × ℕ) → Prop
  | less : HoldsLess s s' → TcpStep s s' none
  | takes {i k : ℕ} : Takes s.net s'.net k → (∀ j m, Holds s' j m ↔ Holds s j m ∨ j = i ∧ m = k) →
      (∀ j, isNew s.socks s'.socks j = false) → WaitsOwned s' → TcpStep s s' (some (i, k))

lemma TcpStep.owned {t : Option (ℕ × ℕ)} (h : TcpStep s s' t) : WaitsOwned s' := by
  cases h with
  | less hl => exact hl.owned
  | takes _ _ _ hown => exact hown

lemma SameHold.not_isNew (h : SameHold S S' j) : isNew S S' j = false := by
  rw [isNew, h.used]
  cases (S j).used <;> rfl

lemma takes_step (hW : WaitsOwned s) (hw : s.waits pid = none) (ho : Owned pid i s.socks)
    (hn : Takes s.net n k) (l : ℕ) :
    TcpStep s ({ s.bindPort i with net := n }.waitsIn pid (.connect i k l)).2 (some (i, k)) := by
  have hsame (j : ℕ) : SameHold s.socks (s.bindPort i).socks j := bindPort_same i j s
  have hcase : ∀ q v, update s.waits pid (some (.connect i k l)) q = some v ↔
      (q = pid ∧ v = .connect i k l) ∨ s.waits q = some v := by
    intro q v
    by_cases hq : q = pid
    · subst hq
      simp [hw, eq_comm]
    · simp [hq]
  refine .takes hn (fun j m => ?_) (fun j => (hsame j).not_isNew) fun q v hv => ?_
  · change ((((s.bindPort i).socks j).used = true ∧ ((s.bindPort i).socks j).tcpConnId = m) ∨
      ∃ p l', update s.waits pid (some (.connect i k l)) p = some (.connect j m l')) ↔ _
    rw [(hsame j).used, (hsame j).conn, Holds, or_assoc]
    refine or_congr_right ?_
    simp only [hcase, TcpWait.connect.injEq]
    constructor
    · rintro ⟨p, l', ⟨-, rfl, rfl, -⟩ | h⟩
      · exact .inr ⟨rfl, rfl⟩
      · exact .inl ⟨p, l', h⟩
    rintro (⟨p, l', h⟩ | ⟨rfl, rfl⟩)
    · exact ⟨p, l', .inr h⟩
    · exact ⟨pid, l, .inl ⟨rfl, rfl, rfl, rfl⟩⟩
  refine (hsame v.sock).owned ?_
  rcases (hcase q v).mp hv with ⟨rfl, rfl⟩ | h
  · exact ho
  · exact hW q v h

lemma connect_step (hW : WaitsOwned s) (hw : s.waits pid = none) (fd : ℤ) (addr : UserAddr)
    (dstIp : List UInt8) : TcpStep s (s.connect pid fd addr dstIp).2
      ((TcpSysOp.call pid (.connect fd addr dstIp)).takes s) := by
  have hbusy : ¬ (s.waits pid).isSome = true := by simp [hw]
  rw [TcpSys.connect, TcpSysOp.takes, if_neg hbusy]
  cases hi : s.tcpSocket pid fd with
  | none => exact .less (.refl hW)
  | some i =>
    obtain ⟨-, ho, -⟩ := tcpSocket_eq_some hi
    have hbind : HoldsLess s (s.bindPort i) :=
      .of_same hW (.refl _) (fun j => bindPort_same i j s) (fun _ _ _ l h => ⟨l, h⟩) hW
    cases addr.check afInet with
    | some e => exact .less (.refl hW)
    | none =>
      dsimp only
      by_cases hp : addr.port = 0
      · rw [if_pos hp, if_pos (by simp [hp])]
        exact .less (.refl hW)
      rw [if_neg hp]
      have hport : ((s.bindPort i).socks i).boundPort ≠ 0 := by
        rw [TcpSys.bindPort]
        dsimp only
        rw [upd_self]
        dsimp only
        split_ifs
        · omega
        · assumption
      obtain ⟨e, he, hnone⟩ | ⟨k, n, hk, hpres, hunused, htake⟩ :=
        netTcpConnect_cases dstIp hp hport (s.bindPort i).net
      · have htakes : (if ((none : Option ℤ).isSome || decide (addr.port = 0) || !s.net.present) = true
            then none else (unusedConn s.net).map (i, ·)) = none := by
          rcases hnone with hn | hn
          · rw [if_pos (by simp [show s.net.present = false from hn])]
          · rw [show unusedConn s.net = none from hn, Option.map_none, ite_self]
        rw [he, htakes]
        exact .less hbind
      rw [hk, if_neg (by simp [hp, show s.net.present = true from hpres]),
        show unusedConn s.net = some k from hunused]
      exact takes_step hW hw ho htake _

lemma WaitsOwned.boot (present : Bool) (ip : List UInt8) (answers : List Bool) :
    WaitsOwned (TcpSys.boot present ip answers) := nofun

lemma exec_tcpStep (hW : WaitsOwned s) (op : TcpSysOp) :
    TcpStep s (op.exec s).2 (op.takes s) := by
  cases op with
  | resume pid ctrlc fault => exact .less (resume_less hW pid ctrlc fault)
  | tick => exact .less (.of_net hW (netTick_shrinks s.net))
  | frame f => exact .less (.of_net hW (exec_shrinks (.frame f) s.net))
  | config present ip => exact .less (.of_net hW (exec_shrinks (.config present ip) s.net))
  | call pid c =>
    cases hw : s.waits pid with
    | some w =>
      have hb : (s.waits pid).isSome = true := by simp [hw]
      have ht : (TcpSysOp.call pid c).takes s = none := by
        cases c <;> simp [TcpSysOp.takes, hb]
      rw [ht, TcpSysOp.exec, if_pos hb]
      exact .less (.refl hW)
    | none =>
      have hb : ¬ (s.waits pid).isSome = true := by simp [hw]
      rw [TcpSysOp.exec, if_neg hb]
      cases c with
      | socket protocol netReady => exact .less (socket_less hW protocol netReady)
      | bind fd addr => exact .less (bind_less hW fd addr)
      | connect fd addr dstIp => exact connect_step hW hw fd addr dstIp
      | sendto fd buf len fault => exact .less (sendto_less hW fd buf len fault)
      | recvfrom fd len null => exact .less (recvfrom_less hW fd len null)
      | shutdown fd => exact .less (shutdown_less hW hw fd)
      | close fd => exact .less (close_less hW hw fd)

/-! ## Runs -/

/-- A run, with the number of sockets each slot has had and the socket that made each connection: its
slot and its number there. -/
structure ConnWatch where
  sys : TcpSys
  gen : ℕ → ℕ
  maker : ℕ → ℕ × ℕ

def connStep (op : TcpSysOp) (w : ConnWatch) : TcpAnswer × ConnWatch :=
  let r := op.exec w.sys
  (r.1,
    { sys := r.2
      gen := fun i => if isNew w.sys.socks r.2.socks i then w.gen i + 1 else w.gen i
      maker := match op.takes w.sys with
        | none => w.maker
        | some (i, k) => update w.maker k (i, w.gen i) })

def ConnWatch.boot (present : Bool) (ip : List UInt8) (answers : List Bool) : ConnWatch :=
  ⟨TcpSys.boot present ip answers, fun _ => 0, fun _ => (0, 0)⟩

def OwnConns (w : ConnWatch) : Prop :=
  ∀ i k, Holds w.sys i k → (w.sys.net.conns k).used = true → w.maker k = (i, w.gen i)

/-- A `sys_connect` does not take a slot that another socket holds. -/
def TakesFree (op : TcpSysOp) (w : ConnWatch) : Prop :=
  ∀ i k, op.takes w.sys = some (i, k) → ∀ j, Holds w.sys j k → j = i

lemma ownConns_step (hW : WaitsOwned w.sys) (h : OwnConns w) (op : TcpSysOp) :
    WaitsOwned (connStep op w).2.sys ∧ (OwnConns (connStep op w).2 ↔ TakesFree op w) := by
  have hstep := exec_tcpStep hW op
  rw [OwnConns, TakesFree, connStep]
  dsimp only
  generalize (op.exec w.sys).2 = s' at hstep ⊢
  generalize op.takes w.sys = t at hstep ⊢
  cases hstep with
  | less hl =>
    refine ⟨hl.owned, fun _ => nofun, fun _ i k hk hu => ?_⟩
    obtain ⟨hk0, hnew⟩ := hl.holds i k hk
    rw [hnew]
    exact h i k hk0 (hl.net k hu)
  | @takes i k ht hholds hnew hown =>
    refine ⟨hown, fun hown' i' k' he j hj => ?_, fun hfree j m hj hu => ?_⟩
    · cases he
      have := hown' j k ((hholds j k).mpr (.inl hj)) ht.used
      dsimp only at this
      rw [update_self] at this
      exact (Prod.mk.inj this).1.symm
    rw [hnew]
    dsimp only
    by_cases hm : m = k
    · subst hm
      rw [update_self]
      rcases (hholds j m).mp hj with hj | ⟨rfl, -⟩
      · rw [hfree i m rfl j hj]
        rfl
      · rfl
    rw [update_of_ne hm]
    rw [ht.other m hm] at hu
    rcases (hholds j m).mp hj with hj | ⟨-, rfl⟩
    · exact h j m hj hu
    · exact absurd rfl hm

lemma waitsOwned_run (present : Bool) (ip : List UInt8) (answers : List Bool) (ops : List TcpSysOp) :
    WaitsOwned (runOps connStep ops (.boot present ip answers)).2.sys := by
  refine runOps_inv (fun w : ConnWatch => WaitsOwned w.sys) (fun op w hW => ?_) ops (.boot present ip answers)
  exact (exec_tcpStep hW op).owned

/-- **What a socket has of the connections**: those it holds are its own, no other socket holds them, and
what it sends and receives goes over its own connections. -/
structure ConnPrivate (w : ConnWatch) : Prop where
  own : OwnConns w
  alone : ∀ i j k, Holds w.sys i k → Holds w.sys j k → (w.sys.net.conns k).used = true → i = j
  sends : ∀ i data k, (w.sys.socks i).used = true →
    (netTcpSend (w.sys.socks i).tcpConnId data w.sys.net).2.conns k ≠ w.sys.net.conns k →
    w.maker k = (i, w.gen i)
  receives : ∀ i len, (w.sys.socks i).used = true → (netTcpRecv (w.sys.socks i).tcpConnId len w.sys.net).1.2 ≠ [] →
    ∃ k : ℕ, (w.sys.socks i).tcpConnId = k ∧ w.maker k = (i, w.gen i)

lemma netTcpSend_conns (c : ℤ) (data : List UInt8) (n : Net) {k : ℕ}
    (h : (netTcpSend c data n).2.conns k ≠ n.conns k) : c = k ∧ (n.conns k).used = true := by
  rw [netTcpSend] at h
  cases hi : n.tcpConnById c with
  | none =>
    rw [hi] at h
    exact absurd rfl h
  | some i =>
    obtain ⟨rfl, -, hu⟩ := tcpConnById_eq_some hi
    rw [hi] at h
    by_cases hk : k = i
    · exact ⟨by rw [hk], by rwa [hk]⟩
    exfalso
    apply h
    dsimp only
    split_ifs
    · rfl
    · rfl
    · rfl
    · rfl
    split <;> rw [setConn_conns, if_neg hk]

lemma netTcpRecv_bytes (c : ℤ) (len : ℕ) (n : Net) (h : (netTcpRecv c len n).1.2 ≠ []) :
    ∃ k : ℕ, c = k ∧ (n.conns k).used = true := by
  rw [netTcpRecv] at h
  cases hi : n.tcpConnById c with
  | none =>
    rw [hi] at h
    exact absurd rfl h
  | some i =>
    obtain ⟨rfl, -, hu⟩ := tcpConnById_eq_some hi
    exact ⟨i, rfl, hu⟩

lemma OwnConns.private (h : OwnConns w) : ConnPrivate w where
  own := h
  alone := fun i j k hi hj hu => (Prod.mk.inj ((h i k hi hu).symm.trans (h j k hj hu))).1
  sends := fun i data k hu hk =>
    have hc := netTcpSend_conns _ data _ hk
    h i k (.inl ⟨hu, hc.1⟩) hc.2
  receives := fun i len hu hr =>
    have ⟨k, hk, huk⟩ := netTcpRecv_bytes _ len _ hr
    ⟨k, hk, h i k (.inl ⟨hu, hk⟩) huk⟩

/-- **A TCP socket has only its own connections.** In every run, each connection slot that a socket holds
is unused or the connection of its own `sys_connect`, and no other socket holds or uses it, in every state
that is reached, just when no `sys_connect` takes a slot that another socket holds. -/
theorem conn_run_own (present : Bool) (ip : List UInt8) (answers : List Bool) (ops : List TcpSysOp) :
    (∀ pre, pre <+: ops → ConnPrivate (runOps connStep pre (.boot present ip answers)).2) ↔
      Along connStep TakesFree ops (.boot present ip answers) := by
  have hboot : OwnConns (.boot present ip answers) := fun i k _ hu => by
    simp [ConnWatch.boot, TcpSys.boot, Net.init, TcpConn.zero] at hu
  have hiff := @forall_prefix_iff_along _ _ _ _ TakesFree connStep
    (fun w : ConnWatch => WaitsOwned w.sys ∧ OwnConns w)
    (fun op w hw => by
      obtain ⟨hW', h'⟩ := ownConns_step hw.1 hw.2 op
      rw [← h']
      exact and_iff_right hW') ops ⟨.boot present ip answers, hboot⟩
  rw [← hiff]
  refine forall₂_congr fun pre _ => ⟨fun h => ⟨waitsOwned_run present ip answers pre, h.own⟩, fun h => h.2.private⟩

def portTwo : UserAddr := ⟨true, false, afInet, [], 2⟩

def stolenRun : List TcpSysOp :=
  [.call 7 (.socket 0 true), .call 7 (.connect 512 portTwo [10, 0, 2, 2]), .resume 7 false false,
    .frame (tcpFrame 2 45000 7 0x10afc803 (2 ^ tcpFlagSyn + 2 ^ tcpFlagAck)), .resume 7 false false,
    .frame (tcpFrame 2 45000 8 0 (2 ^ tcpFlagRst)),
    .call 8 (.socket 0 true), .call 8 (.connect 513 portTwo [10, 0, 2, 2]), .resume 8 false false,
    .frame (tcpFrame 2 45001 7 0x10afc904 (2 ^ tcpFlagSyn + 2 ^ tcpFlagAck)), .resume 8 false false,
    .call 7 (.sendto 512 (some [120]) 1 false), .resume 7 false false]

theorem reset_slot_shared :
    let r := runOps connStep stolenRun (.boot true [10, 0, 2, 15] (List.replicate 8 true))
    r.1.getLast? = some (some (1, [])) ∧ ¬ ConnPrivate r.2 := by
  intro r
  have hlast : r.1.getLast? = some (some (1, [])) := by decide +kernel
  have hused : (r.2.sys.net.conns 0).used = true := by decide +kernel
  have h0 : (r.2.sys.socks 0).used = true ∧ (r.2.sys.socks 0).tcpConnId = 0 := by decide +kernel
  have h1 : (r.2.sys.socks 1).used = true ∧ (r.2.sys.socks 1).tcpConnId = 0 := by decide +kernel
  exact ⟨hlast, fun h => absurd (h.alone 0 1 0 (.inl h0) (.inl h1) hused) (by decide)⟩

end Obelisk
