import Obelisk.Net.Receive

/-!
# End of file

`net_tcp_recv` answers `0` when the buffer is empty and `peer_closed` is set, and every `FIN` sets
`peer_closed`, whether or not the bytes before it have arrived.
-/

namespace Obelisk

open KLib List RxPart

variable {len : ℕ} {s : Net} {w : Watch} {f : List UInt8}

/-- A `FIN` that the connection handles finds the whole stream received, or brings the last of it in
a payload for which there is room. -/
def NetOp.FinReady (S : List UInt8) (id : ℕ) (op : NetOp) (w : Watch) : Prop :=
  ∀ f seg, op = .frame f → w.net.target f = some (id, seg) → seg.has tcpFlagRst = false →
    (w.net.conns id).state = .established → seg.has tcpFlagFin = true →
    let received := w.got.length + (w.net.conns id).rxLen
    received = S.length ∨ (received + seg.payload.length = S.length ∧
      (w.net.conns id).rxLen + seg.payload.length ≤ netTcpRxBuf)

lemma netTcpRecv_eq_zero {id : ℕ} (h : (netTcpRecv id len s).1.1 = 0) :
    (s.conns id).rxLen = 0 ∧ (s.conns id).peerClosed = true := by
  unfold netTcpRecv at h
  cases hi : s.tcpConnById id with
  | none => simp [hi, eInval] at h
  | some i =>
    obtain rfl : id = i := by
      unfold Net.tcpConnById at hi
      split_ifs at hi
      simpa using hi
    simp only [hi] at h
    split_ifs at h with h0 h1 h2
    · simp [eInval] at h
    · exact ⟨by simpa using h1, h2⟩
    · simp [eAgain] at h
    have h0 : len ≠ 0 := by simpa using h0
    have h1 : (s.conns id).rxLen ≠ 0 := by simpa using h1
    have h : ((min len (s.conns id).rxLen : ℕ) : ℤ) = 0 := h
    omega

lemma tcpConnById_of_used {id : ℕ} (hid : id < netTcpConnMax)
    (hu : (s.conns id).used = true) : s.tcpConnById id = some id := by
  simp [Net.tcpConnById, hu, hid]

lemma netTcpRecv_drain {id : ℕ} (hid : id < netTcpConnMax)
    (hu : (s.conns id).used = true) (hp : (s.conns id).peerClosed = true)
    (hroom : (s.conns id).rxLen ≤ netTcpRxBuf) :
    let r := netTcpRecv id netTcpRxBuf s
    r.1.2 = contents (s.conns id).rxBuf (s.conns id).rxLen ∧ (netTcpRecv id 1 r.2).1.1 = 0 := by
  intro r
  have hc := tcpConnById_of_used hid hu
  by_cases h0 : (s.conns id).rxLen = 0
  · have hr : r = ((0, []), s) := by
      simp [r, netTcpRecv, hc, h0, hp, netTcpRxBuf]
    rw [hr]
    exact ⟨by simp [contents, h0], by simp [netTcpRecv, hc, h0, hp]⟩
  have hmin : min netTcpRxBuf (s.conns id).rxLen = (s.conns id).rxLen := min_eq_right hroom
  set t := s.setConn id ((s.conns id).consume (s.conns id).rxLen, s.answers) with ht
  have hr : r = ((((s.conns id).rxLen : ℤ), contents (s.conns id).rxBuf (s.conns id).rxLen), t) := by
    have hne : (netTcpRxBuf == 0) = false := rfl
    simp [r, netTcpRecv, hc, hne, beq_iff_eq, h0, hmin, ht]
  have hconn : t.conns id = (s.conns id).consume (s.conns id).rxLen := by
    rw [ht, setConn_conns, if_pos rfl]
  have hc' : t.tcpConnById id = some id := tcpConnById_of_used hid (by rwa [hconn])
  rw [hr]
  exact ⟨rfl, by simp [netTcpRecv, hc', hconn, TcpConn.consume, hp]⟩

namespace Receives

variable {S got : List UInt8} {irs : ℕ} {fin : Bool} {r : RxPart} {seg : Segment}

lemma length_take (h : Receives S irs got fin r) (hS : S.length < 2 ^ 32 - 2)
    (hc : seg.Carries S irs) (hf : seg.has tcpFlagFin = true) :
    (got ++ (r.take seg).bytes).length = S.length ↔
      got.length + r.rxLen = S.length ∨ (got.length + r.rxLen + seg.payload.length = S.length ∧
        r.rxLen + seg.payload.length ≤ netTcpRxBuf) := by
  obtain ⟨k, hk, -, hseq, hend⟩ := hc (.inr hf)
  have hend := hend hf
  have hL : (got ++ r.bytes).length = got.length + r.rxLen := by simp [bytes]
  have hroom := h.room
  by_cases hcond : 0 < seg.payload.length ∧ seg.seq = r.rcvNxt
  · -- the payload starts where the receiver stands, so that it is the rest of the stream
    obtain ⟨-, hkL⟩ := (h.seq_eq_iff hS (by omega)).mp (hseq ▸ hcond.2)
    rw [bytes_take seg r hcond, ← List.append_assoc, List.length_append, hL, List.length_take]
    omega
  have htake : r.take seg = r := by
    unfold RxPart.take
    rw [if_neg (by simpa using hcond)]
  rw [htake, hL]
  refine ⟨.inl, fun h' => h'.elim id fun h1 => ?_⟩
  by_contra hne
  -- otherwise the payload would have been taken
  refine hcond ⟨by omega, ?_⟩
  rw [hseq, h.rcvNxt, hL]
  cases fin with
  | false => simp only [Bool.toNat_false]; congr 1; omega
  | true => have := h.fin_end rfl; omega

lemma takesFin_of_length (h : Receives S irs got fin r) (hS : S.length < 2 ^ 32 - 2)
    (hc : seg.Carries S irs) (hf : seg.has tcpFlagFin = true)
    (hlen : (got ++ (r.take seg).bytes).length = S.length) : (fin || r.takesFin seg) = true := by
  cases fin with
  | true => rfl
  | false =>
    obtain ⟨k, hk, -, hseq, hend⟩ := hc (.inr hf)
    have hend := hend hf
    have hnxt := (h.take hS hc).rcvNxt
    rw [hlen] at hnxt
    simp only [Bool.false_or, takesFin, hf, Bool.true_and, beq_iff_eq, hnxt, hseq, Bool.toNat_false]
    unfold u32
    omega

end Receives

lemma peerClosed_input (seg : Segment) (r : RxPart) :
    (r.input seg).peerClosed = (r.peerClosed || seg.has tcpFlagFin) := by
  unfold RxPart.input RxPart.take
  split_ifs <;> rfl

variable {dstIp : List UInt8} {dstPort localPort irs id : ℕ} {S : List UInt8}

/-- The invariant of a run in which every `FIN` is in time: the peer has closed only if the `FIN`
was taken in sequence. -/
structure Watch.Truthful (dstIp : List UInt8) (dstPort localPort : ℕ) (S : List UInt8) (irs id : ℕ)
    (w : Watch) : Prop extends w.Ok dstIp dstPort localPort S irs id where
  closed : (w.net.conns id).peerClosed = true → w.fin = true

section

variable (h : w.Truthful dstIp dstPort localPort S irs id)
include h

lemma Watch.Truthful.step {op : NetOp} (hS : S.length < 2 ^ 32 - 2)
    (hc : op.Carries dstIp dstPort localPort S irs) (hr : op.FinReady S id w) :
    (op.watch id w).2.Truthful dstIp dstPort localPort S irs id := by
  refine ⟨h.toOk.step hS hc, ?_⟩
  have hstep := exec_connStep op w.net id
  change (((op.exec w.net).2.conns id).rx.peerClosed = true → (w.fin || op.finTaken id w.net) = true)
  generalize hr' : ((op.exec w.net).2.conns id).rx = r' at hstep ⊢
  generalize hfin : op.finTaken id w.net = b at hstep ⊢
  generalize op.got id (op.exec w.net).1 = out at hstep
  have hclosed : (w.net.conns id).rx.peerClosed = true → w.fin = true := h.closed
  intro hp
  generalize hrx : (w.net.conns id).rx = r at hstep hclosed
  cases hstep with
  | quiet hq =>
    have hp : r.peerClosed = true := by cases hq <;> exact hp
    simp [hclosed hp]
  | read | opens => simp [hclosed hp]
  | @segment _ f seg hop ht hrst ha hs =>
    subst hrx
    rw [peerClosed_input, Bool.or_eq_true] at hp
    rcases hp with hp | hf
    · simp [hclosed hp]
    have hcar := h.carries hc hop (target_eq_some ht).1 ha
    have hready := hr f seg hop ht hrst hs hf
    exact h.receives.takesFin_of_length hS hcar hf ((h.receives.length_take hS hcar hf).mpr hready)

lemma watchRun_truthful (hS : S.length < 2 ^ 32 - 2) (ops : List NetOp)
    (hops : ∀ op ∈ ops, op.Carries dstIp dstPort localPort S irs)
    (hready : Along (NetOp.watch id) (NetOp.FinReady S id) ops w) :
    (watchRun id ops w).Truthful dstIp dstPort localPort S irs id := by
  have hstep : ∀ (op : NetOp) (w : Watch), op.Carries dstIp dstPort localPort S irs →
      op.FinReady S id w → w.Truthful dstIp dstPort localPort S irs id →
      (op.watch id w).2.Truthful dstIp dstPort localPort S irs id := fun op w hc hr h => h.step hS hc hr
  exact runOps_inv_along _ hstep hops hready h

lemma Watch.Truthful.eof (h0 : (netTcpRecv id len w.net).1.1 = 0) : w.got = S := by
  obtain ⟨hlen, hp⟩ := netTcpRecv_eq_zero h0
  have hb : (w.net.conns id).rx.bytes = [] := by
    simp [bytes, contents, TcpConn.rx, hlen]
  have hend := h.receives.fin_end (h.closed hp)
  have hpre := h.receives.isPrefix
  rw [hb, append_nil] at hend hpre
  exact hpre.eq_of_length hend

end

/-- **A `FIN` ahead of missing bytes** makes the connection report end of file once what waits has
been read, although bytes of the stream are missing. -/
theorem Watch.Ok.early_fin (h : w.Ok dstIp dstPort localPort S irs id) (hS : S.length < 2 ^ 32 - 2) {seg : Segment}
    (ht : w.net.target f = some (id, seg)) (hc : seg.Carries S irs)
    (hnot : ¬ NetOp.FinReady S id (.frame f) w) :
    let w' := watchRun id [.frame f, .recv id netTcpRxBuf] w
    (netTcpRecv id 1 w'.net).1.1 = 0 ∧ w'.got.length < S.length := by
  obtain ⟨hrst, hs, hf, hlate⟩ : seg.has tcpFlagRst = false ∧
      (w.net.conns id).state = .established ∧ seg.has tcpFlagFin = true ∧
      (w.got ++ ((w.net.conns id).rx.take seg).bytes).length ≠ S.length := by
    unfold NetOp.FinReady at hnot
    push Not at hnot
    obtain ⟨f', seg', he, ht', hrst, hs, hf, hlate⟩ := hnot
    cases he
    cases ht.symm.trans ht'
    exact ⟨hrst, hs, hf, fun e => hlate ((h.receives.length_take hS hc hf).mp e)⟩
  obtain ⟨-, -, hid, hu⟩ := target_eq_some ht
  set t := netRxFrame f w.net with ht'
  have hrx : (t.conns id).rx = (w.net.conns id).rx.input seg := by
    rw [ht', netRxFrame, ht]
    simp only [setConn_conns, if_true]
    exact tcpInput_rx hrst hs
  have hin := h.receives.input hS hc
  have htk := h.receives.take hS hc
  have hinput : ((w.net.conns id).rx.input seg).bytes = ((w.net.conns id).rx.take seg).bytes := rfl
  have hu' : (t.conns id).used = true := by
    have : ((w.net.conns id).rx.input seg).used = (w.net.conns id).used := by
      unfold RxPart.input RxPart.take
      split_ifs <;> rfl
    exact (congrArg used hrx).trans (this.trans hu)
  have hp : (t.conns id).peerClosed = true := by
    have := congrArg peerClosed hrx
    rwa [peerClosed_input, hf, Bool.or_true] at this
  have hroom : (t.conns id).rxLen ≤ netTcpRxBuf := (congrArg rxLen hrx).trans_le hin.room
  obtain ⟨hout, hzero⟩ := netTcpRecv_drain hid hu' hp hroom
  refine ⟨hzero, ?_⟩
  have hgot : (watchRun id [.frame f, .recv id netTcpRxBuf] w).got =
      w.got ++ ((w.net.conns id).rx.take seg).bytes := by
    change w.got ++ [] ++ (if (id : ℤ) = id then (netTcpRecv id netTcpRxBuf t).1.2 else []) = _
    rw [if_pos rfl, hout, append_nil, ← hinput, ← hrx]
    rfl
  rw [hgot]
  exact lt_of_le_of_ne htk.isPrefix.length_le hlate

/-- **End of file is truthful** when every `FIN` the connection handles is in time: `net_tcp_recv`
answers `0` only after all of the stream has been read. The condition is exact: a `FIN` that comes
too early makes a later `net_tcp_recv` answer `0` with bytes of the stream missing. -/
theorem tcp_eof_truthful (s₀ s : Net) (events : List NetOp) (synAck : List UInt8)
    (hconn : Connects dstIp dstPort localPort s₀ events synAck irs id s)
    (hS : S.length < 2 ^ 32 - 2) (ops : List NetOp)
    (hops : ∀ op ∈ ops, op.Carries dstIp dstPort localPort S irs)
    (hready : Along (NetOp.watch id) (NetOp.FinReady S id) ops ⟨s, [], false⟩) :
    let w := watchRun id ops ⟨s, [], false⟩
    (∀ len, (netTcpRecv id len w.net).1.1 = 0 → w.got = S) ∧
      ∀ f seg, w.net.target f = some (id, seg) → seg.Carries S irs → ¬ NetOp.FinReady S id (.frame f) w →
        let w' := watchRun id [.frame f, .recv id netTcpRxBuf] w
        (netTcpRecv id 1 w'.net).1.1 = 0 ∧ w'.got ≠ S := by
  intro w
  obtain ⟨hr, ho, hp⟩ := hconn.receives S
  have hw : w.Truthful dstIp dstPort localPort S irs id :=
    watchRun_truthful ⟨⟨hr, ho⟩, fun h => by rw [hp] at h; cases h⟩ hS ops hops hready
  refine ⟨fun len h0 => hw.eof h0, fun f seg ht hc hnot => ?_⟩
  obtain ⟨h0, hlt⟩ := hw.toOk.early_fin hS ht hc hnot
  exact ⟨h0, fun e => absurd (congrArg List.length e) hlt.ne⟩

theorem tcp_eof_truthful_small :
    let ops := [NetOp.frame (smallFrame [0, 0, 0, 100] [0, 0, 0, 0] 0x10 [7]),
      .frame (smallFrame [0, 0, 0, 101] [0, 0, 0, 0] 0x11 [8]), .recv 0 5]
    let w := watchRun 0 ops ⟨smallEstablished, [], false⟩
    (netTcpRecv 0 1 w.net).1.1 = 0 ∧ w.got = [7, 8] := by
  intro ops w
  have h1 : tcpOfFrame (smallFrame [0, 0, 0, 100] [0, 0, 0, 0] 0x10 [7]) =
      some ⟨[10, 0, 0, 1], [10, 0, 0, 2], 80, 45000, 100, 0, 0x10, [7]⟩ := by decide +kernel
  have h2 : tcpOfFrame (smallFrame [0, 0, 0, 101] [0, 0, 0, 0] 0x11 [8]) =
      some ⟨[10, 0, 0, 1], [10, 0, 0, 2], 80, 45000, 101, 0, 0x11, [8]⟩ := by decide +kernel
  have h0 : (netTcpRecv 0 1 w.net).1.1 = 0 := by decide +kernel
  refine ⟨h0, (tcp_eof_truthful smallNet smallEstablished [] smallSynAck smallConnects (by decide)
    ops ?_ ⟨?_, ?_, ?_, trivial⟩).1 1 h0⟩
  · intro op hop f seg he hf _ _ _
    subst he
    simp only [ops, mem_cons, NetOp.frame.injEq, reduceCtorEq, not_mem_nil, or_false] at hop
    rcases hop with rfl | rfl
    · cases h1.symm.trans hf
      exact fun _ => ⟨0, by decide, by decide, by decide, by decide⟩
    cases h2.symm.trans hf
    exact fun _ => ⟨1, by decide, by decide, by decide, by decide⟩
  · intro f seg he ht _ _ hfin
    cases he
    cases h1.symm.trans (target_eq_some ht).1
    exact absurd hfin (by decide)
  · intro f seg he ht _ _ _
    cases he
    cases h2.symm.trans (target_eq_some ht).1
    exact .inr ⟨by decide +kernel, by decide +kernel⟩
  intro f seg he
  cases he

/-- Of a stream of one byte the `FIN` behind it arrives first: `net_tcp_recv` answers `0` although
nothing of the stream was read. -/
theorem tcp_eof_early : let finFrame := smallFrame [0, 0, 0, 101] [0, 0, 0, 0] 0x11 []
    let w := watchRun 0 [.frame finFrame] ⟨smallEstablished, [], false⟩
    Connects [10, 0, 0, 1] 80 45000 smallNet [] smallSynAck 99 0 smallEstablished ∧
      (NetOp.frame finFrame).Carries [10, 0, 0, 1] 80 45000 [7] 99 ∧
      (netTcpRecv 0 5 w.net).1.1 = 0 ∧ w.got = [] := by
  intro finFrame w
  have h1 : tcpOfFrame finFrame =
      some ⟨[10, 0, 0, 1], [10, 0, 0, 2], 80, 45000, 101, 0, 0x11, []⟩ := by decide +kernel
  refine ⟨smallConnects, fun f seg he hf _ _ _ => ?_, by decide +kernel, by decide +kernel⟩
  cases he
  cases h1.symm.trans hf
  exact fun _ => ⟨1, by decide, by decide, by decide, by decide⟩

end Obelisk
