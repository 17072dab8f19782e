import Mathlib.Data.List.Infix
import Obelisk.Lib.Run
import Obelisk.Net.Model

/-!
# What a connection receives

- `tcp_receive_integrity`: what is read is an initial part of the stream.
-/

namespace Obelisk

open KLib List

variable {x : ConnTx} {s s₀ : Net} {i id : ℕ} {f out : List UInt8} {op : NetOp} {b : Bool} {w : Watch}
variable {irs : ℕ} {seg : Segment} {S : List UInt8}
variable {r r' : RxPart}

/-- The receiving side of a connection. -/
structure RxPart where
  used : Bool
  remoteIp : List UInt8
  localPort : ℕ
  remotePort : ℕ
  state : TcpConnState
  rcvNxt : ℕ
  peerClosed : Bool
  rxBuf : ℕ → UInt8
  rxLen : ℕ

def TcpConn.rx (c : TcpConn) : RxPart :=
  ⟨c.used, c.remoteIp, c.localPort, c.remotePort, c.state, c.rcvNxt, c.peerClosed, c.rxBuf, c.rxLen⟩

namespace RxPart

def bytes (r : RxPart) : List UInt8 := contents r.rxBuf r.rxLen

def take (seg : Segment) (r : RxPart) : RxPart :=
  if 0 < seg.payload.length && seg.seq == r.rcvNxt then
    let n := min seg.payload.length (netTcpRxBuf - r.rxLen)
    { r with
      rxBuf := blit r.rxBuf r.rxLen (seg.payload.take n)
      rxLen := r.rxLen + n
      rcvNxt := u32 (r.rcvNxt + n) }
  else r

def takesFin (seg : Segment) (r : RxPart) : Bool :=
  seg.has tcpFlagFin && u32 (seg.seq + seg.payload.length) == (r.take seg).rcvNxt

def input (seg : Segment) (r : RxPart) : RxPart :=
  let r' := r.take seg
  { r' with
    rcvNxt := if r.takesFin seg then u32 (r'.rcvNxt + 1) else r'.rcvNxt
    peerClosed := r'.peerClosed || seg.has tcpFlagFin }

def consume (n : ℕ) (r : RxPart) : RxPart :=
  { r with rxBuf := shiftDown n r.rxLen r.rxBuf, rxLen := r.rxLen - n }

lemma bytes_take (seg : Segment) (r : RxPart) (h : 0 < seg.payload.length ∧ seg.seq = r.rcvNxt) :
    (r.take seg).bytes =
      r.bytes ++ seg.payload.take (min seg.payload.length (netTcpRxBuf - r.rxLen)) := by
  have hn : (seg.payload.take (min seg.payload.length (netTcpRxBuf - r.rxLen))).length =
      min seg.payload.length (netTcpRxBuf - r.rxLen) := by simp
  simp only [take, h.1, h.2, decide_true, beq_self_eq_true, Bool.and_self, if_true, bytes]
  nth_rewrite 2 [← hn]
  exact contents_blit _ _ _

lemma bytes_consume {n : ℕ} (r : RxPart) : (r.consume n).bytes = r.bytes.drop n :=
  contents_shiftDown _

end RxPart

/-! ## What an event does to a connection -/

lemma tcpSendOnConn_rx (tick seq ack flags : ℕ) (payload : List UInt8) (track : Bool)
    (x : ConnTx) : (tcpSendOnConn tick seq ack flags payload track x).2.1.rx = x.1.rx := by
  obtain ⟨c, _ | ⟨_ | _, rest⟩⟩ := x
  · rfl
  · rfl
  · cases track <;> rfl

lemma sendAck_rx (tick : ℕ) (x : ConnTx) : (sendAck tick x).1.rx = x.1.rx :=
  tcpSendOnConn_rx ..

lemma tcpAck_rx (seg : Segment) (c : TcpConn) : (tcpAck seg c).rx = c.rx := by
  unfold tcpAck
  dsimp only
  split_ifs <;> rfl

lemma tcpTake_rx (seg : Segment) (c : TcpConn) : (tcpTake seg c).rx = c.rx.take seg := by
  rw [tcpTake, RxPart.take, show c.rx.rcvNxt = c.rcvNxt from rfl]
  split_ifs <;> rfl

lemma tcpPayload_rx (tick : ℕ) (seg : Segment) (x : ConnTx) :
    (tcpPayload tick seg x).1.rx = x.1.rx.take seg := by
  unfold tcpPayload
  split_ifs with h
  · rw [sendAck_rx, tcpTake_rx]
  · simp [RxPart.take, h]

lemma tcpFin_rx (tick : ℕ) (seg : Segment) (x : ConnTx) (r : RxPart) (h : x.1.rx = r.take seg) :
    (tcpFin tick seg x).1.rx = r.input seg := by
  have hnxt : x.1.rcvNxt = (r.take seg).rcvNxt := congrArg RxPart.rcvNxt h
  unfold tcpFin RxPart.input
  cases hf : seg.has tcpFlagFin with
  | false => simp [h, RxPart.takesFin, hf]
  | true =>
    have hseq : finInSequence seg x.1 = r.takesFin seg := by
      simp [finInSequence, RxPart.takesFin, hnxt, hf]
    rw [if_pos rfl, sendAck_rx, ← h, hseq]
    cases r.takesFin seg <;> simp [TcpConn.rx]

lemma tcpInput_rx {tick : ℕ} (hr : seg.has tcpFlagRst = false)
    (hs : x.1.state = .established) : (tcpInput tick seg x).1.rx = x.1.rx.input seg := by
  simp only [tcpInput, hr, hs, reduceCtorEq, if_false, Bool.false_eq_true, ne_eq, not_true_eq_false]
  exact tcpFin_rx _ _ _ _ (by rw [tcpPayload_rx, tcpAck_rx])

/-- Nothing has been received; the connection may have been closed. -/
inductive Quiet (r : RxPart) : RxPart → Prop
  | same : Quiet r r
  | closed : Quiet r { r with state := .closed, used := false }

lemma Quiet.trans {r'' : RxPart} (h : Quiet r r') (h' : Quiet r' r'') : Quiet r r'' := by
  cases h <;> cases h'
  · exact .same
  · exact .closed
  · exact .closed
  · exact .closed

lemma tickConn_quiet (tick : ℕ) (x : ConnTx) : Quiet x.1.rx (tickConn tick x).1.rx := by
  unfold tickConn
  dsimp only
  split_ifs
  · exact .same
  · exact .same
  · exact .closed
  · rw [tcpSendOnConn_rx]
    exact .same
  · rw [tcpSendOnConn_rx]
    exact .same
  · exact .same

lemma setConn_conns (s : Net) (i j : ℕ) (x : ConnTx) :
    (s.setConn i x).conns j = if j = i then x.1 else s.conns j := by
  simp [Net.setConn, Function.update_apply]

lemma setConn_quiet (h : Quiet (s.conns i).rx x.1.rx) (j : ℕ) :
    Quiet (s.conns j).rx ((s.setConn i x).conns j).rx := by
  rw [setConn_conns]
  split_ifs with e
  · exact e ▸ h
  · exact .same

lemma netTick_quiet (s : Net) (j : ℕ) : Quiet (s.conns j).rx ((netTick s).conns j).rx := by
  unfold netTick
  exact forRange_inv (fun _ (t : Net) => Quiet (s.conns j).rx (t.conns j).rx) .same
    fun i t _ _ ht => ht.trans (setConn_quiet (tickConn_quiet t.tickCount (t.conns i, t.answers)) j)

lemma netTcpSend_quiet (connId : ℤ) (data : List UInt8) (s : Net) (j : ℕ) :
    Quiet (s.conns j).rx ((netTcpSend connId data s).2.conns j).rx := by
  unfold netTcpSend
  cases s.tcpConnById connId with
  | none => exact .same
  | some i =>
    dsimp only
    split_ifs
    · exact .same
    · exact .same
    · exact .same
    · exact .same
    have hrx := tcpSendOnConn_rx s.tickCount (s.conns i).sndNxt (s.conns i).rcvNxt
      (2 ^ tcpFlagAck + 2 ^ tcpFlagPsh) data true (s.conns i, s.answers)
    split
    · next he =>
      rw [he] at hrx
      exact setConn_quiet (hrx ▸ .same) j
    · next he =>
      rw [he] at hrx
      exact setConn_quiet (hrx ▸ .same) j

def NetOp.got (id : ℕ) : NetOp → ℤ × List UInt8 → List UInt8
  | recv connId _, r => if connId = id then r.2 else []
  | _, _ => []

def NetOp.finTaken (id : ℕ) : NetOp → Net → Bool
  | frame f, s =>
    match s.target f with
    | some (i, seg) => i == id && !seg.has tcpFlagRst && decide ((s.conns i).state = .established) &&
        (s.conns i).rx.takesFin seg
    | none => false
  | _, _ => false

def RxPart.Addressed (r : RxPart) (seg : Segment) : Prop :=
  r.localPort = seg.dstPort ∧ r.remotePort = seg.srcPort ∧ r.remoteIp = seg.saddr

/-- **What an event can do** to connection `id`: the bytes read, whether a `FIN` is taken, the part
before and the part after. -/
inductive ConnStep (s : Net) (id : ℕ) (op : NetOp) : List UInt8 → Bool → RxPart → RxPart → Prop
  | quiet {r r' : RxPart} : Quiet r r' → ConnStep s id op [] false r r'
  | read {r : RxPart} (n : ℕ) : ConnStep s id op (r.bytes.take n) false r (r.consume n)
  | opens {r : RxPart} {f : List UInt8} {seg : Segment} : op = .frame f → tcpOfFrame f = some seg →
      r.state = .synSent →
      ConnStep s id op [] false r { r with rcvNxt := u32 (seg.seq + 1), state := .established }
  | segment {r : RxPart} {f : List UInt8} {seg : Segment} : op = .frame f →
      s.target f = some (id, seg) → seg.has tcpFlagRst = false → r.Addressed seg →
      r.state = .established →
      ConnStep s id op [] (r.takesFin seg) r (r.input seg)

lemma target_eq_some (h : s.target f = some (i, seg)) :
    tcpOfFrame f = some seg ∧ (s.conns i).rx.Addressed seg ∧ i < netTcpConnMax ∧
      (s.conns i).used = true := by
  unfold Net.target at h
  split_ifs at h
  cases hf : tcpOfFrame f with
  | none => simp [hf] at h
  | some seg' =>
    simp only [hf] at h
    split_ifs at h
    obtain ⟨j, hj, he⟩ := Option.map_eq_some_iff.mp h
    cases he
    have hm := find?_some hj
    simp only [Net.matchesConn, Bool.and_eq_true, beq_iff_eq] at hm
    exact ⟨rfl, ⟨hm.2.1.1, hm.2.1.2, hm.2.2⟩, mem_range.mp (mem_of_find?_eq_some hj), hm.1.1⟩

lemma tcpInput_connStep (h : s.target f = some (i, seg)) :
    ConnStep s i (.frame f) [] (NetOp.finTaken i (.frame f) s) (s.conns i).rx
      (tcpInput s.tickCount seg (s.conns i, s.answers)).1.rx := by
  obtain ⟨hf, ha, -⟩ := target_eq_some h
  have hfin : NetOp.finTaken i (.frame f) s = (!seg.has tcpFlagRst &&
      decide ((s.conns i).state = .established) && (s.conns i).rx.takesFin seg) := by
    simp [NetOp.finTaken, h]
  rw [hfin]
  cases hr : seg.has tcpFlagRst with
  | true =>
    simp only [tcpInput, hr, if_true]
    exact .quiet .closed
  | false =>
    cases hs : (s.conns i).state with
    | established =>
      rw [tcpInput_rx hr hs]
      simpa using ConnStep.segment rfl h hr ha hs
    | synSent =>
      simp only [tcpInput, hr, hs, if_true, if_false, Bool.false_eq_true]
      split_ifs
      · rw [sendAck_rx]
        exact .opens rfl hf hs
      · exact .quiet .same
    | free | closed => simpa [tcpInput, hr, hs] using ConnStep.quiet .same

lemma netTcpRecv_connStep (connId : ℤ) (len : ℕ) (s : Net) (id : ℕ) :
    ConnStep s id (.recv connId len) (NetOp.got id (.recv connId len) (netTcpRecv connId len s).1) false
      (s.conns id).rx ((netTcpRecv connId len s).2.conns id).rx := by
  cases h : s.tcpConnById connId with
  | none =>
    simp only [netTcpRecv, h, NetOp.got, ite_self]
    exact .quiet .same
  | some i =>
    have hi : connId = i := by
      unfold Net.tcpConnById at h
      split_ifs at h with h1 h2
      have : connId.toNat = i := Option.some.inj h
      simp only [Bool.or_eq_true, decide_eq_true_eq, not_or, not_lt] at h1
      omega
    simp only [netTcpRecv, h, NetOp.got]
    split_ifs with h0 h1 h2 he he
    all_goals try exact .quiet .same
    · obtain rfl : i = id := by omega
      rw [setConn_conns, if_pos rfl]
      have hn : contents (s.conns i).rxBuf (min len (s.conns i).rxLen) =
          (s.conns i).rx.bytes.take (min len (s.conns i).rxLen) := by
        simp [contents, RxPart.bytes, TcpConn.rx, ← map_take]
      rw [hn]
      exact .read _
    rw [setConn_conns, if_neg (by omega)]
    exact .quiet .same

lemma exec_connStep (op : NetOp) (s : Net) (id : ℕ) :
    ConnStep s id op (op.got id (op.exec s).1) (op.finTaken id s) (s.conns id).rx
      ((op.exec s).2.conns id).rx := by
  cases op with
  | recv connId len => exact netTcpRecv_connStep connId len s id
  | send connId data => exact .quiet (netTcpSend_quiet connId data s id)
  | tick => exact .quiet (netTick_quiet s id)
  | config present ip => exact .quiet .same
  | frame f =>
    change ConnStep s id (.frame f) [] _ _ ((netRxFrame f s).conns id).rx
    cases h : s.target f with
    | none =>
      simp only [netRxFrame, NetOp.finTaken, h]
      exact .quiet .same
    | some x =>
      obtain ⟨i, seg⟩ := x
      by_cases hi : id = i
      · subst hi
        simpa [netRxFrame, h, setConn_conns] using tcpInput_connStep h
      have hne : (i == id) = false := beq_eq_false_iff_ne.mpr (Ne.symm hi)
      simp only [netRxFrame, NetOp.finTaken, h, setConn_conns, hi, if_false, hne, Bool.false_and]
      exact .quiet .same

/-- The segment carries a slice of the stream `S` that starts after `irs`, with `FIN` only at the
end of the stream; a segment with neither payload nor `FIN` is not constrained. -/
def Segment.Carries (S : List UInt8) (irs : ℕ) (seg : Segment) : Prop :=
  seg.payload ≠ [] ∨ seg.has tcpFlagFin = true → ∃ k, k + seg.payload.length ≤ S.length ∧
    seg.payload = slice S k seg.payload.length ∧ seg.seq = u32 (irs + 1 + k) ∧
    (seg.has tcpFlagFin = true → k + seg.payload.length = S.length)

/-- **The receiver's invariant**: what was read and what waits to be read is an initial part of the
stream, `rcv_nxt` stands behind it, and a `FIN` was taken only at the end of the stream. -/
structure Receives (S : List UInt8) (irs : ℕ) (got : List UInt8) (fin : Bool) (r : RxPart) :
    Prop where
  isPrefix : got ++ r.bytes <+: S
  rcvNxt : r.rcvNxt = u32 (irs + 1 + (got ++ r.bytes).length + fin.toNat)
  fin_end : fin = true → (got ++ r.bytes).length = S.length
  room : r.rxLen ≤ netTcpRxBuf
  opened : r.state ≠ .synSent

namespace Receives

variable {S got : List UInt8} {irs : ℕ} {fin : Bool} {r r' : RxPart} {seg : Segment}

section

variable (h : Receives S irs got fin r)
include h

lemma quiet (hq : Quiet r r') : Receives S irs got fin r' := by
  cases hq with
  | same => exact h
  | closed => exact ⟨h.isPrefix, h.rcvNxt, h.fin_end, h.room, by simp⟩

lemma read (n : ℕ) : Receives S irs (got ++ r.bytes.take n) fin (r.consume n) := by
  have hb : got ++ r.bytes.take n ++ (r.consume n).bytes = got ++ r.bytes := by
    rw [RxPart.bytes_consume, append_assoc, take_append_drop]
  exact ⟨hb ▸ h.isPrefix, hb ▸ h.rcvNxt, hb ▸ h.fin_end, (Nat.sub_le ..).trans h.room, h.opened⟩

lemma seq_eq_iff (hS : S.length < 2 ^ 32 - 2) {k : ℕ} (hk : k ≤ S.length) :
    u32 (irs + 1 + k) = r.rcvNxt ↔ fin = false ∧ k = (got ++ r.bytes).length := by
  have hlen := h.isPrefix.length_le
  rw [h.rcvNxt]
  unfold u32
  cases fin with
  | false => simp only [Bool.toNat_false, true_and]; omega
  | true =>
    have := h.fin_end rfl
    simp only [Bool.toNat_true, Bool.true_eq_false, false_and, iff_false]
    omega

lemma take (hS : S.length < 2 ^ 32 - 2) (hc : seg.Carries S irs) :
    Receives S irs got fin (r.take seg) := by
  by_cases hcond : 0 < seg.payload.length ∧ seg.seq = r.rcvNxt
  · obtain ⟨k, hk, hpay, hseq, -⟩ := hc (.inl (ne_nil_of_length_pos hcond.1))
    obtain ⟨rfl, rfl⟩ := (h.seq_eq_iff hS (by omega)).mp (hseq ▸ hcond.2)
    set n := min seg.payload.length (netTcpRxBuf - r.rxLen) with hn
    have hbytes : got ++ (r.take seg).bytes = S.take ((got ++ r.bytes).length + n) := by
      rw [RxPart.bytes_take seg r hcond, ← hn, ← append_assoc, take_add,
        ← prefix_iff_eq_take.mp h.isPrefix, hpay, slice, take_take,
        min_eq_left (min_le_left ..)]
    have hlen : (got ++ (r.take seg).bytes).length = (got ++ r.bytes).length + n := by
      rw [hbytes, length_take, min_eq_left (by omega)]
    have htake : (r.take seg).rxLen = r.rxLen + n ∧ (r.take seg).rcvNxt = u32 (r.rcvNxt + n) ∧
        (r.take seg).state = r.state := by
      simp [RxPart.take, hcond.1, hcond.2, hn]
    refine ⟨hbytes ▸ take_prefix .., ?_, fun e => by simp at e, ?_, htake.2.2 ▸ h.opened⟩
    · rw [htake.2.1, hlen, h.rcvNxt]
      unfold u32
      omega
    have := h.room
    rw [htake.1]
    omega
  have : r.take seg = r := by
    unfold RxPart.take
    rw [if_neg (by simpa using hcond)]
  rwa [this]

lemma input (hS : S.length < 2 ^ 32 - 2) (hc : seg.Carries S irs) :
    Receives S irs got (fin || r.takesFin seg) (r.input seg) := by
  have ht := h.take hS hc
  cases hf : r.takesFin seg with
  | false =>
    have hi : r.input seg = { r.take seg with
        peerClosed := (r.take seg).peerClosed || seg.has tcpFlagFin } := by
      simp [RxPart.input, hf]
    rw [hi, Bool.or_false]
    exact ⟨ht.isPrefix, ht.rcvNxt, ht.fin_end, ht.room, ht.opened⟩
  | true =>
    have hi : r.input seg = { r.take seg with
        rcvNxt := u32 ((r.take seg).rcvNxt + 1)
        peerClosed := (r.take seg).peerClosed || seg.has tcpFlagFin } := by
      simp [RxPart.input, hf]
    simp only [RxPart.takesFin, Bool.and_eq_true, beq_iff_eq] at hf
    obtain ⟨k, hk, -, hseq, hend⟩ := hc (.inr hf.1)
    have hend := hend hf.1
    -- the `FIN` stands at the end of the stream, and the receiver stands there too
    have hnxt : u32 (irs + 1 + S.length) = (r.take seg).rcvNxt := by
      rw [← hf.2, hseq, ← hend]
      unfold u32
      omega
    obtain ⟨rfl, hlen⟩ := (ht.seq_eq_iff hS le_rfl).mp hnxt
    rw [hi]
    refine ⟨ht.isPrefix, ?_, fun _ => hlen.symm, ht.room, ht.opened⟩
    change u32 ((r.take seg).rcvNxt + 1) = u32 (irs + 1 + (got ++ (r.take seg).bytes).length + 1)
    rw [ht.rcvNxt]
    unfold u32
    simp only [Bool.toNat_false]
    omega

lemma step (hS : S.length < 2 ^ 32 - 2) (hstep : ConnStep s id op out b r r')
    (hc : ∀ f seg, op = .frame f → tcpOfFrame f = some seg → r.Addressed seg → seg.Carries S irs) :
    Receives S irs (got ++ out) (fin || b) r' := by
  cases hstep with
  | quiet hq => simpa using h.quiet hq
  | read n => simpa using h.read n
  | opens _ _ hs => exact absurd hs h.opened
  | segment hop ht _ ha _ => simpa using h.input hS (hc _ _ hop (target_eq_some ht).1 ha)

end

end Receives

/-! ## Runs -/

/-- The stack with the bytes that the reader got, and whether it saw the end. -/
structure Watch where
  net : Net
  got : List UInt8
  fin : Bool

def NetOp.watch (id : ℕ) (op : NetOp) (w : Watch) : (ℤ × List UInt8) × Watch :=
  let r := op.exec w.net
  (r.1, ⟨r.2, w.got ++ op.got id r.1, w.fin || op.finTaken id w.net⟩)

def netRun (ops : List NetOp) (s : Net) : Net := (runOps NetOp.exec ops s).2

def watchRun (id : ℕ) (ops : List NetOp) (w : Watch) : Watch := (runOps (NetOp.watch id) ops w).2

/-- The connection is the one that was opened. -/
structure Opened (dstIp : List UInt8) (dstPort localPort : ℕ) (r : RxPart) : Prop where
  remoteIp : r.remoteIp = dstIp
  remotePort : r.remotePort = dstPort
  localPort : r.localPort = localPort

variable {dstIp : List UInt8} {dstPort localPort : ℕ}

lemma Opened.step (h : Opened dstIp dstPort localPort r) (hstep : ConnStep s id op out b r r') :
    Opened dstIp dstPort localPort r' := by
  cases hstep with
  | quiet hq => cases hq <;> exact ⟨h.1, h.2, h.3⟩
  | read | opens => exact ⟨h.1, h.2, h.3⟩
  | @segment _ _ seg =>
    unfold RxPart.input RxPart.take
    split_ifs <;> exact ⟨h.1, h.2, h.3⟩

def Waiting (r : RxPart) : Prop := r.state = .synSent → r.rxLen = 0 ∧ r.peerClosed = false

lemma Waiting.step
    (h : Waiting r) (hstep : ConnStep s id op out b r r') : Waiting r' := by
  cases hstep with
  | quiet hq =>
    cases hq with
    | same => exact h
    | closed => intro hs; cases hs
  | read n =>
    intro hs
    obtain ⟨h0, hp⟩ := h hs
    exact ⟨by simp [RxPart.consume, h0], hp⟩
  | opens => intro hs; cases hs
  | @segment _ _ seg _ _ _ _ he =>
    intro hs
    have : (r.input seg).state = r.state := by
      unfold RxPart.input RxPart.take
      split_ifs <;> rfl
    rw [this, he] at hs
    cases hs

lemma netTcpConnect_opened (h : netTcpConnect dstIp dstPort localPort s₀ = (.ok id, s)) :
    Opened dstIp dstPort localPort (s.conns id).rx ∧ Waiting (s.conns id).rx := by
  unfold netTcpConnect at h
  split_ifs at h
  · simp at h
  · simp at h
  split at h
  · simp at h
  obtain ⟨h1, rfl⟩ := Prod.mk.inj h
  cases h1
  rw [setConn_conns, if_pos rfl, tcpSendOnConn_rx]
  exact ⟨⟨rfl, rfl, rfl⟩, fun _ => ⟨rfl, rfl⟩⟩

lemma ConnStep.establishes (h : ConnStep s id (.frame f) out b r r') (hw : r.state = .synSent)
    (he : r'.state = .established) :
    ∃ seg, tcpOfFrame f = some seg ∧
      r' = { r with rcvNxt := u32 (seg.seq + 1), state := .established } := by
  cases h with
  | quiet hq =>
    cases hq with
    | same => rw [hw] at he; cases he
    | closed => cases he
  | read n => exact absurd (hw.symm.trans he) (by simp)
  | segment _ _ _ _ hs => rw [hw] at hs; cases hs
  | @opens _ _ seg hop hf =>
    cases hop
    exact ⟨seg, hf, rfl⟩

/-- A connection from `net_tcp_connect` on: after `events` a `SYN`-`ACK` with sequence number `irs`
arrives in the frame `synAck`, and the connection is established. -/
structure Connects (dstIp : List UInt8) (dstPort localPort : ℕ) (s₀ : Net) (events : List NetOp)
    (synAck : List UInt8) (irs id : ℕ) (s : Net) : Prop where
  connect : (netTcpConnect dstIp dstPort localPort s₀).1 = .ok id
  waits : ((netRun events (netTcpConnect dstIp dstPort localPort s₀).2).conns id).state = .synSent
  state : s = netRxFrame synAck (netRun events (netTcpConnect dstIp dstPort localPort s₀).2)
  established : (s.conns id).state = .established
  seq : (tcpOfFrame synAck).map Segment.seq = some irs

lemma Connects.receives {events : List NetOp} {synAck : List UInt8}
    (h : Connects dstIp dstPort localPort s₀ events synAck irs id s) (S : List UInt8) :
    Receives S irs [] false (s.conns id).rx ∧ Opened dstIp dstPort localPort (s.conns id).rx ∧
      (s.conns id).peerClosed = false := by
  obtain ⟨hc, hw, rfl, he, hseq⟩ := h
  set s1 := (netTcpConnect dstIp dstPort localPort s₀).2
  have h1 := netTcpConnect_opened (Prod.ext hc (rfl : _ = s1))
  have h2 : Opened dstIp dstPort localPort ((netRun events s1).conns id).rx ∧
      Waiting ((netRun events s1).conns id).rx :=
    runOps_inv (fun t : Net => Opened dstIp dstPort localPort (t.conns id).rx ∧
      Waiting (t.conns id).rx) (fun op t ht => ⟨ht.1.step (exec_connStep op t id),
        ht.2.step (exec_connStep op t id)⟩) events h1
  obtain ⟨h0, hp⟩ := h2.2 hw
  have hstep := exec_connStep (.frame synAck) (netRun events s1) id
  have hopen := h2.1.step hstep
  obtain ⟨seg, hf, hr⟩ := hstep.establishes hw he
  obtain rfl : seg.seq = irs := by simpa [hf] using hseq
  change ((netRxFrame synAck (netRun events s1)).conns id).rx = _ at hr
  have hb : ((netRxFrame synAck (netRun events s1)).conns id).rx.bytes = [] := by
    rw [hr]
    simp [RxPart.bytes, contents, h0]
  have hnxt : ((netRxFrame synAck (netRun events s1)).conns id).rx.rcvNxt = u32 (seg.seq + 1) :=
    congrArg RxPart.rcvNxt hr
  refine ⟨⟨by simp [hb], by simp [hnxt, hb], by simp, by simp [hr, h0], by simp [hr]⟩, hopen, ?_⟩
  exact (congrArg RxPart.peerClosed hr).trans hp

def NetOp.Carries (dstIp : List UInt8) (dstPort localPort : ℕ) (S : List UInt8) (irs : ℕ)
    (op : NetOp) : Prop :=
  ∀ f seg, op = .frame f → tcpOfFrame f = some seg → seg.saddr = dstIp → seg.srcPort = dstPort →
    seg.dstPort = localPort → seg.Carries S irs

/-- What every run keeps. -/
structure Watch.Ok (dstIp : List UInt8) (dstPort localPort : ℕ) (S : List UInt8) (irs id : ℕ)
    (w : Watch) : Prop where
  receives : Receives S irs w.got w.fin (w.net.conns id).rx
  opened : Opened dstIp dstPort localPort (w.net.conns id).rx

lemma Watch.Ok.carries
    (h : w.Ok dstIp dstPort localPort S irs id) (hc : op.Carries dstIp dstPort localPort S irs) (hop : op = .frame f) (hf : tcpOfFrame f = some seg)
    (ha : (w.net.conns id).rx.Addressed seg) : seg.Carries S irs :=
  hc f seg hop hf (ha.2.2.symm.trans h.opened.remoteIp) (ha.2.1.symm.trans h.opened.remotePort)
    (ha.1.symm.trans h.opened.localPort)

lemma Watch.Ok.step (h : w.Ok dstIp dstPort localPort S irs id) (hS : S.length < 2 ^ 32 - 2)
    (hc : op.Carries dstIp dstPort localPort S irs) :
    (op.watch id w).2.Ok dstIp dstPort localPort S irs id := by
  have hstep := exec_connStep op w.net id
  exact ⟨h.receives.step hS hstep fun f seg => h.carries hc, h.opened.step hstep⟩

lemma watchRun_ok (h : w.Ok dstIp dstPort localPort S irs id) (hS : S.length < 2 ^ 32 - 2) (ops : List NetOp)
    (hops : ∀ op ∈ ops, op.Carries dstIp dstPort localPort S irs) :
    (watchRun id ops w).Ok dstIp dstPort localPort S irs id := by
  have hstep : ∀ (op : NetOp) (w : Watch), op.Carries dstIp dstPort localPort S irs → True →
      w.Ok dstIp dstPort localPort S irs id →
      (op.watch id w).2.Ok dstIp dstPort localPort S irs id := fun op w hc _ h => h.step hS hc
  exact runOps_inv_along _ hstep hops (along_true ..) h

/-- **Receive integrity.** A connection is opened by `net_tcp_connect` and becomes established on a
`SYN`-`ACK` with sequence number `irs`. Whatever segments that carry slices of a stream `S` arrive
for it, in whatever order, with loss and duplication, among frames for other connections, reads,
sends and timer ticks: what was read followed by what is in `rx_buf` is an initial part of `S`, and
`rcv_nxt` stands behind it, and behind the `FIN` once it was taken in sequence. -/
theorem tcp_receive_integrity (s₀ s : Net) (events : List NetOp) (synAck : List UInt8) (irs id : ℕ)
    (hconn : Connects dstIp dstPort localPort s₀ events synAck irs id s) (S : List UInt8)
    (hS : S.length < 2 ^ 32 - 2) (ops : List NetOp)
    (hops : ∀ op ∈ ops, op.Carries dstIp dstPort localPort S irs) :
    let w := watchRun id ops ⟨s, [], false⟩
    let c := w.net.conns id
    let received := w.got ++ contents c.rxBuf c.rxLen
    received <+: S ∧ c.rcvNxt = (irs + 1 + received.length + if w.fin then 1 else 0) % 2 ^ 32 := by
  intro w c received
  have h0 := hconn.receives S
  have h : w.Ok dstIp dstPort localPort S irs id := watchRun_ok ⟨h0.1, h0.2.1⟩ hS ops hops
  refine ⟨h.receives.isPrefix, h.receives.rcvNxt.trans ?_⟩
  cases w.fin <;> rfl

def smallFrame (seq ack : List UInt8) (flags : UInt8) (payload : List UInt8) : List UInt8 :=
  [0, 0, 0, 0, 0, 0, 0, 0, 0, 0, 0, 0, 8, 0] ++
  [0x45, 0, 0, UInt8.ofNat (40 + payload.length), 0, 0, 0, 0, 64, 6, 0, 0, 10, 0, 0, 1, 10, 0, 0, 2] ++
  [0, 80, 0xAF, 0xC8] ++ seq ++ ack ++ [0x50, flags, 0, 0, 0, 0, 0, 0] ++ payload

def smallNet : Net := ⟨true, [10, 0, 0, 2], 0, fun _ => .zero, []⟩

def smallSynAck : List UInt8 := smallFrame [0, 0, 0, 99] [0x10, 0xAF, 0xC8, 0x51] 0x12 []

def smallEstablished : Net := netRxFrame smallSynAck (netTcpConnect [10, 0, 0, 1] 80 45000 smallNet).2

lemma smallConnects :
    Connects [10, 0, 0, 1] 80 45000 smallNet [] smallSynAck 99 0 smallEstablished :=
  ⟨by decide +kernel, by decide +kernel, rfl, by decide +kernel, by decide +kernel⟩

theorem tcp_receive_integrity_small :
    let ops := [NetOp.frame (smallFrame [0, 0, 0, 101] [0, 0, 0, 0] 0x11 [8, 9]),
      .frame (smallFrame [0, 0, 0, 100] [0, 0, 0, 0] 0x10 [7]), .tick, .recv 0 5]
    let w := watchRun 0 ops ⟨smallEstablished, [], false⟩
    w.got ++ contents (w.net.conns 0).rxBuf (w.net.conns 0).rxLen <+: [7, 8, 9] := by
  intro ops
  refine (tcp_receive_integrity smallNet smallEstablished [] smallSynAck 99 0 smallConnects [7, 8, 9]
    (by decide) ops fun op hop f seg he hf _ _ _ _ => ?_).1
  have h1 : tcpOfFrame (smallFrame [0, 0, 0, 101] [0, 0, 0, 0] 0x11 [8, 9]) =
      some ⟨[10, 0, 0, 1], [10, 0, 0, 2], 80, 45000, 101, 0, 0x11, [8, 9]⟩ := by decide +kernel
  have h2 : tcpOfFrame (smallFrame [0, 0, 0, 100] [0, 0, 0, 0] 0x10 [7]) =
      some ⟨[10, 0, 0, 1], [10, 0, 0, 2], 80, 45000, 100, 0, 0x10, [7]⟩ := by decide +kernel
  subst he
  simp only [ops, mem_cons, NetOp.frame.injEq, reduceCtorEq, not_mem_nil, or_false] at hop
  rcases hop with rfl | rfl
  · cases h1.symm.trans hf
    exact ⟨1, by decide, by decide, by decide, by decide⟩
  cases h2.symm.trans hf
  exact ⟨0, by decide, by decide, by decide, by decide⟩

end Obelisk
