import Obelisk.Net.Receive

/-!
# The retransmission timer

- `timer_run_drops_unanswered`: a drop follows the last unanswered retry.
-/

namespace Obelisk

open KLib Function TcpConn List

variable {i j n : ℕ} {s : Net} {b : Bool} {op : TcpCall}

def TcpConn.expired (tick : ℕ) (c : TcpConn) : Bool :=
  netTcpTxRetryTicks ≤ u32 (u32 tick + 2 ^ 32 - c.lastTxTick)

def resends (tick : ℕ) (x : ConnTx) : Bool :=
  x.1.used && x.1.state = .established && x.1.expired tick && x.1.retries < netTcpTxMaxRetries &&
    x.1.txPending && x.2.head? = some true

def tickTo (i : ℕ) (s : Net) : Net :=
  forRange (fun j t => t.setConn j (tickConn t.tickCount (t.conns j, t.answers))) 0 i
    { s with tickCount := u64 (s.tickCount + 1) }

def turn (i : ℕ) (s : Net) : ConnTx := (s.conns i, (tickTo i s).answers)

lemma tickTo_succ (i : ℕ) (s : Net) : tickTo (i + 1) s = (tickTo i s).setConn i
      (tickConn (tickTo i s).tickCount ((tickTo i s).conns i, (tickTo i s).answers)) := by
  rw [tickTo, forRange_succ, zero_add]
  rfl

@[simp] lemma tickTo_tickCount (i : ℕ) (s : Net) :
    (tickTo i s).tickCount = u64 (s.tickCount + 1) := by
  induction i with
  | zero => rfl
  | succ i ih => rw [tickTo_succ, ← ih]; rfl

lemma tickTo_conns_of_le (h : i ≤ j) (s : Net) : (tickTo i s).conns j = s.conns j := by
  induction i with
  | zero => rfl
  | succ i ih => rw [tickTo_succ, setConn_conns, if_neg (by omega), ih (by omega)]

lemma tickTo_conns_of_lt (h : j < i) (s : Net) :
    (tickTo i s).conns j = (tickConn (u64 (s.tickCount + 1)) (turn j s)).1 := by
  induction i with
  | zero => omega
  | succ i ih =>
    rw [tickTo_succ, setConn_conns]
    split_ifs with e
    · rw [e, tickTo_conns_of_le (le_refl i), tickTo_tickCount, turn]
    · exact ih (by omega)

lemma netTick_conns (h : i < netTcpConnMax) (s : Net) :
    (netTick s).conns i = (tickConn (u64 (s.tickCount + 1)) (turn i s)).1 :=
  tickTo_conns_of_lt h s

lemma netTick_conns_of_le (h : netTcpConnMax ≤ i) (s : Net) : (netTick s).conns i = s.conns i :=
  tickTo_conns_of_le h s

/-! ## The calls -/

/-- The sending side of a connection. -/
structure TxPart where
  used : Bool
  state : TcpConnState
  retries : ℕ
  txPending : Bool

def TcpConn.tx (c : TcpConn) : TxPart := ⟨c.used, c.state, c.retries, c.txPending⟩

/-- **What a call other than `net_tick` can do** to these fields; `true` says that a segment is sent
for the first time. -/
inductive TxStep (r : TxPart) : Bool → TxPart → Prop
  | same : TxStep r false r
  | acked : TxStep r false { r with txPending := false }
  | opens : TxStep r false { r with state := .established, txPending := false }
  | closed : TxStep r false { r with state := .closed, used := false }
  | sent : TxStep r true { r with retries := 0, txPending := true }
  | begins {pending : Bool} : TxStep r true ⟨true, .synSent, 0, pending⟩
  | cleared : TxStep r false TcpConn.zero.tx

lemma tcpSendOnConn_tx (tick seq ack flags : ℕ) (payload : List UInt8) (x : ConnTx) :
    (tcpSendOnConn tick seq ack flags payload false x).2.1.tx = x.1.tx := by
  obtain ⟨c, _ | ⟨_ | _, rest⟩⟩ := x <;> rfl

lemma sendAck_tx (tick : ℕ) (x : ConnTx) : (sendAck tick x).1.tx = x.1.tx :=
  tcpSendOnConn_tx ..

section

variable (tick : ℕ) (seg : Segment) (x : ConnTx)
include tick seg x

lemma tcpPayload_tx : (tcpPayload tick seg x).1.tx = x.1.tx := by
  unfold tcpPayload
  split_ifs
  · rw [sendAck_tx, tcpTake]
    split_ifs <;> rfl
  · rfl

lemma tcpFin_tx : (tcpFin tick seg x).1.tx = x.1.tx := by
  unfold tcpFin
  split_ifs
  · rw [sendAck_tx]
    rfl
  · rw [sendAck_tx]
    rfl
  · rfl

lemma tcpInput_txStep : TxStep x.1.tx false (tcpInput tick seg x).1.tx := by
  unfold tcpInput
  dsimp only
  split_ifs with hr hs ha he
  · exact .closed
  · rw [sendAck_tx]
    exact .opens
  · exact .same
  · exact .same
  rw [tcpFin_tx, tcpPayload_tx]
  unfold tcpAck
  dsimp only
  split_ifs
  · exact .acked
  · exact .same
  · exact .same

end

lemma setConn_txStep {x : ConnTx} (h : TxStep (s.conns i).tx b x.1.tx) (j : ℕ) :
    TxStep (s.conns j).tx (j = i && b) ((s.setConn i x).conns j).tx := by
  rw [setConn_conns]
  split_ifs with e
  · subst e
    simpa using h
  · simpa [e] using TxStep.same

lemma tcpConnById_eq_some {connId : ℤ} (h : s.tcpConnById connId = some i) :
    connId = i ∧ i < netTcpConnMax ∧ (s.conns i).used = true := by
  unfold Net.tcpConnById at h
  split_ifs at h with h1 h2
  obtain rfl : connId.toNat = i := Option.some.inj h
  simp only [Bool.or_eq_true, decide_eq_true_eq, not_or, not_lt, not_le] at h1
  refine ⟨by omega, ?_, by simpa using h2⟩
  have := h1.2
  unfold netTcpConnMax at this ⊢
  omega

/-- The call sends a segment for the first time on connection `i`, which is seen from its result. -/
def TcpCall.firstSends (i : ℕ) : TcpCall → ℤ → Bool
  | event (.send connId _), r => connId = i && 0 < r
  | connect .., r => r = i
  | _, _ => false

lemma netTcpSend_txStep (connId : ℤ) (data : List UInt8) (s : Net) (i : ℕ) :
    TxStep (s.conns i).tx (connId = i && 0 < (netTcpSend connId data s).1)
      ((netTcpSend connId data s).2.conns i).tx := by
  unfold netTcpSend
  cases h : s.tcpConnById connId with
  | none => simpa [eInval] using TxStep.same
  | some j =>
    obtain ⟨rfl, -, -⟩ := tcpConnById_eq_some h
    have hid : decide ((j : ℤ) = i) = decide (i = j) := by simp [eq_comm]
    dsimp only
    split_ifs with h0
    · simpa [eInval] using TxStep.same
    · simpa [eNotconn] using TxStep.same
    · simpa [eMsgsize] using TxStep.same
    · simpa [eAgain] using TxStep.same
    rw [hid]
    cases s.answers with
    | nil => exact setConn_txStep (b := false) .same i
    | cons b rest =>
      cases b with
      | false => exact setConn_txStep (b := false) .same i
      | true =>
        have hlen : 0 < data.length := by simpa [Nat.pos_iff_ne_zero] using h0
        have hpos : decide (0 < (data.length : ℤ)) = true := by simpa using hlen
        simp only [tcpSendOnConn, if_true, hpos]
        exact setConn_txStep (b := true) .sent i

lemma netTcpConnect_txStep (dstIp : List UInt8) (dstPort localPort : ℕ) (s : Net) (i : ℕ) :
    TxStep (s.conns i).tx (((TcpCall.connect dstIp dstPort localPort).exec s).1.1 = i)
      (((TcpCall.connect dstIp dstPort localPort).exec s).2.conns i).tx := by
  simp only [TcpCall.exec, netTcpConnect]
  split_ifs
  · simpa [eInval] using TxStep.same
  · simpa [eNetdown] using TxStep.same
  cases (List.range netTcpConnMax).find? fun k => !(s.conns k).used with
  | none => simpa [eMfile] using TxStep.same
  | some slot =>
    have hid : decide ((slot : ℤ) = i) = (decide (i = slot) && true) := by simp [eq_comm]
    rw [hid]
    refine setConn_txStep ?_ i
    obtain _ | ⟨_ | _, rest⟩ := s.answers <;> exact .begins

lemma netTcpClose_txStep (connId : ℤ) (s : Net) (i : ℕ) :
    TxStep (s.conns i).tx false ((netTcpClose connId s).2.conns i).tx := by
  unfold netTcpClose
  cases s.tcpConnById connId with
  | none => exact .same
  | some j =>
    dsimp only
    split_ifs <;> simpa using setConn_txStep (s := s) (i := j) (b := false) .cleared i

lemma netTcpRecv_txStep (connId : ℤ) (len : ℕ) (s : Net) (i : ℕ) :
    TxStep (s.conns i).tx false ((netTcpRecv connId len s).2.conns i).tx := by
  unfold netTcpRecv
  cases s.tcpConnById connId with
  | none => exact .same
  | some j =>
    dsimp only
    split_ifs
    · exact .same
    · exact .same
    · exact .same
    · simpa using setConn_txStep (s := s) (i := j) (b := false) .same i

lemma exec_txStep (hop : op ≠ .event .tick) (s : Net) (i : ℕ) :
    TxStep (s.conns i).tx (op.firstSends i (op.exec s).1.1) ((op.exec s).2.conns i).tx := by
  cases op with
  | connect dstIp dstPort localPort => exact netTcpConnect_txStep ..
  | close connId => exact netTcpClose_txStep ..
  | event op =>
    cases op with
    | tick => exact absurd rfl hop
    | send connId data => exact netTcpSend_txStep ..
    | recv connId len => exact netTcpRecv_txStep ..
    | config present ip => exact .same
    | frame f =>
      change TxStep _ false ((netRxFrame f s).conns i).tx
      unfold netRxFrame
      split
      · exact .same
      · next j seg _ => simpa using setConn_txStep (tcpInput_txStep s.tickCount seg (s.conns j, s.answers)) i

/-! ## Runs -/

/-- The stack with the number of retransmissions. -/
structure TimerWatch where
  net : Net
  resent : ℕ → ℕ

def TcpCall.count (op : TcpCall) (r : ℤ) (s : Net) (i n : ℕ) : ℕ :=
  match op with
  | .event .tick =>
    if i < netTcpConnMax ∧ resends (u64 (s.tickCount + 1)) (turn i s) then n + 1 else n
  | op => if op.firstSends i r then 0 else n

def timerStep (op : TcpCall) (w : TimerWatch) : (ℤ × List UInt8) × TimerWatch :=
  let r := op.exec w.net
  (r.1, ⟨r.2, fun i => op.count r.1.1 w.net i (w.resent i)⟩)

/-- If the timer of an established connection has run out, a segment is pending, and the lower layers
take it when the timer sends it again. -/
def TimerOk (tick : ℕ) (x : ConnTx) : Prop :=
  x.1.used = true ∧ x.1.state = .established ∧ x.1.expired tick = true →
    x.1.txPending = true ∧ (x.1.retries < netTcpTxMaxRetries → x.2.head? = some true)

instance (tick : ℕ) (x : ConnTx) : Decidable (TimerOk tick x) := inferInstanceAs (Decidable (_ → _))

def TimerMet (op : TcpCall) (w : TimerWatch) : Prop :=
  op = .event .tick → ∀ i < netTcpConnMax, TimerOk (u64 (w.net.tickCount + 1)) (turn i w.net)

/-- The retries of a pending segment on an established connection are retransmissions. -/
structure Counts (r : TxPart) (n : ℕ) : Prop where
  le : r.retries ≤ netTcpTxMaxRetries
  eq : r.used = true → r.state = .established → r.txPending = true → r.retries = n

lemma Counts.step {r r' : TxPart} (h : Counts r n) (ht : TxStep r b r') :
    Counts r' (if b then 0 else n) := by
  cases ht with
  | same => exact h
  | acked | opens => exact ⟨h.le, fun _ _ hp => by simp at hp⟩
  | closed => exact ⟨h.le, fun hu _ _ => by simp at hu⟩
  | sent => exact ⟨Nat.zero_le _, fun _ _ _ => rfl⟩
  | begins => exact ⟨Nat.zero_le _, fun _ hs _ => by simp at hs⟩
  | cleared => exact ⟨Nat.zero_le _, fun hu _ _ => by simp [tx, zero] at hu⟩

lemma Counts.tick {x : ConnTx} {tick : ℕ} (h : Counts x.1.tx n) (hm : TimerOk tick x) :
    Counts (tickConn tick x).1.tx (if resends tick x then n + 1 else n) := by
  have hexp : (u32 (u32 tick + 2 ^ 32 - x.1.lastTxTick) < netTcpTxRetryTicks) ↔
      x.1.expired tick = false := by simp [expired]
  generalize hn' : (if resends tick x then n + 1 else n) = n'
  unfold tickConn
  dsimp only
  split_ifs with h1 h2 h3 h4 h5
  · have hr : resends tick x = false := by
      rcases Bool.or_eq_true _ _ ▸ h1 with hu | hc
      · simp only [Bool.not_eq_true'] at hu
        simp [resends, hu]
      · simp [resends, of_decide_eq_true hc]
    rw [hr] at hn'
    exact hn' ▸ h
  · rw [show resends tick x = false by simp [resends, hexp.mp h2]] at hn'
    exact hn' ▸ h
  · exact ⟨h.le, fun hu _ _ => by simp [tx] at hu⟩
  · rw [tcpSendOnConn_tx]
    exact ⟨by simp only [tx]; omega, fun _ hs _ => by simp [tx, h4] at hs⟩
  · rw [tcpSendOnConn_tx]
    obtain ⟨hs, hp⟩ : x.1.state = .established ∧ x.1.txPending = true := by simpa using h5
    have hu : x.1.used = true := by
      cases hu : x.1.used with
      | true => rfl
      | false => simp [hu] at h1
    have he : x.1.expired tick = true := by
      rw [← Bool.not_eq_false]
      exact fun hf => h2 (hexp.mpr hf)
    have hr : resends tick x = true := by
      simp [resends, hu, hs, he, hp, (hm ⟨hu, hs, he⟩).2 (by omega), Nat.lt_of_not_le h3]
    have hn : x.1.retries = n := h.eq hu hs hp
    exact ⟨by simp only [tx]; omega, fun _ _ _ => by simp [tx, ← hn', hr, hn]⟩
  refine ⟨by simp only [tx]; omega, fun hu hs hp => ?_⟩
  exact absurd (by simpa [tx] using And.intro hs hp) h5

lemma Counts.zero : Counts zero.tx 0 := ⟨Nat.zero_le _, fun _ _ _ => rfl⟩

def TimerWatch.Ok (w : TimerWatch) : Prop := ∀ i, Counts (w.net.conns i).tx (w.resent i)

lemma TimerWatch.Ok.step {w : TimerWatch} (hm : TimerMet op w) (h : w.Ok) :
    (timerStep op w).2.Ok := by
  intro i
  by_cases ho : op = .event .tick
  · subst ho
    change Counts ((netTick w.net).conns i).tx (TcpCall.count (.event .tick) 0 w.net i (w.resent i))
    by_cases hi : i < netTcpConnMax
    · rw [netTick_conns hi]
      simpa [TcpCall.count, hi] using Counts.tick (h i) (hm rfl i hi)
    rw [netTick_conns_of_le (by omega)]
    simpa [TcpCall.count, hi] using h i
  have hc := (h i).step (exec_txStep ho w.net i)
  have hn : op.count (op.exec w.net).1.1 w.net i (w.resent i) =
      if op.firstSends i (op.exec w.net).1.1 then 0 else w.resent i := by
    unfold TcpCall.count
    split
    · exact absurd rfl ho
    · rfl
  rwa [← hn] at hc

lemma tickConn_closed {tick : ℕ} {x : ConnTx} (hu : x.1.used = true)
    (hs : x.1.state = .established) (hc : (tickConn tick x).1.state = .closed) :
    x.1.expired tick = true ∧ netTcpTxMaxRetries ≤ x.1.retries := by
  have hrx (c : TcpConn) (b : List Bool) (q a f : ℕ) (p : List UInt8) :
      (tcpSendOnConn tick q a f p false (c, b)).2.1.state = c.state :=
    congrArg TxPart.state (tcpSendOnConn_tx tick q a f p (c, b))
  unfold tickConn at hc
  simp only [hu, hs, Bool.not_true, reduceCtorEq, decide_false, Bool.or_self, Bool.false_eq_true,
    if_false, decide_true, Bool.true_and] at hc
  split_ifs at hc with h1 h2 h3
  · rw [hs] at hc
    cases hc
  · exact ⟨by simpa [expired] using h1, h2⟩
  rw [hrx] at hc
  cases hc

lemma expired_iff {tick : ℕ} {c : TcpConn} (hl : c.lastTxTick ≤ tick) (ht : tick < 2 ^ 32) :
    c.expired tick = true ↔ c.lastTxTick + netTcpTxRetryTicks ≤ tick := by
  have h : u32 (u32 tick + 2 ^ 32 - c.lastTxTick) = tick - c.lastTxTick := by
    unfold u32
    omega
  rw [expired, h, decide_eq_true_eq]
  unfold netTcpTxRetryTicks
  omega

/-- No timer runs out at the next `n` ticks. -/
def Early (n : ℕ) (s : Net) : Prop := s.tickCount + n < 2 ^ 32 ∧
  ∀ i < netTcpConnMax, (s.conns i).used = true →
    (s.conns i).lastTxTick ≤ s.tickCount ∧ s.tickCount + n < (s.conns i).lastTxTick + netTcpTxRetryTicks

instance (n : ℕ) (s : Net) : Decidable (Early n s) := inferInstanceAs (Decidable (_ ∧ _))

def TimerWatch.later (n : ℕ) (w : TimerWatch) : TimerWatch :=
  { w with net := { w.net with tickCount := w.net.tickCount + n } }

lemma Early.not_expired (h : Early (n + 1) s) (hi : i < netTcpConnMax) (hu : (s.conns i).used = true) :
    (s.conns i).expired (s.tickCount + 1) = false := by
  obtain ⟨hlt, hall⟩ := h
  obtain ⟨h1, h2⟩ := hall i hi hu
  rw [Bool.eq_false_iff, ne_eq, expired_iff (by omega) (by omega)]
  omega

lemma Early.tickTo (h : Early (n + 1) s) (hi : i ≤ netTcpConnMax) :
    tickTo i s = { s with tickCount := s.tickCount + 1 } := by
  have hu : u64 (s.tickCount + 1) = s.tickCount + 1 := by
    have := h.1
    unfold u64
    omega
  induction i with
  | zero => rw [Obelisk.tickTo, hu]; rfl
  | succ i ih =>
    have hsame : tickConn (s.tickCount + 1) (s.conns i, s.answers) = (s.conns i, s.answers) := by
      cases hused : (s.conns i).used with
      | false => simp [tickConn, hused]
      | true =>
        have hexp := h.not_expired hi hused
        rw [expired, decide_eq_false_iff_not, not_le] at hexp
        simp only [tickConn, if_pos hexp, ite_self]
    rw [tickTo_succ, ih (by omega)]
    rw [hsame]
    simp [Net.setConn]

def ticks (n : ℕ) : List TcpCall := .replicate n (.event .tick)

/-- Ticks before a timer runs out only move the clock. -/
lemma Early.ticks {w : TimerWatch} (h : Early n w.net) : Along timerStep TimerMet (ticks n) w ∧
    (runOps timerStep (ticks n) w).2 = w.later n := by
  induction n generalizing w with
  | zero => exact ⟨trivial, rfl⟩
  | succ n ih =>
    have hu : u64 (w.net.tickCount + 1) = w.net.tickCount + 1 := by
      have := h.1
      unfold u64
      omega
    have hstep : (timerStep (.event .tick) w).2 = w.later 1 := by
      have hnet : netTick w.net = (w.later 1).net := h.tickTo (le_refl _)
      have hres : ∀ i, ¬ (i < netTcpConnMax ∧ resends (u64 (w.net.tickCount + 1)) (turn i w.net)) := by
        rintro i ⟨hi, hr⟩
        rw [hu] at hr
        simp only [resends, turn, Bool.and_eq_true] at hr
        rw [h.not_expired hi hr.1.1.1.1.1] at hr
        simp at hr
      simp only [timerStep, TcpCall.count, if_neg (hres _)]
      exact congrArg (TimerWatch.mk · w.resent) hnet
    have hmet : TimerMet (.event .tick) w := by
      rintro - i hi ⟨h1, -, h2⟩
      rw [hu] at h2
      rw [show (turn i w.net).1 = w.net.conns i from rfl, h.not_expired hi h1] at h2
      cases h2
    have hnext : Early n (w.later 1).net := by
      refine ⟨?_, fun i hi h1 => ?_⟩
      · have := h.1
        simp only [TimerWatch.later]
        omega
      · have := h.2 i hi h1
        simp only [TimerWatch.later]
        omega
    rw [Obelisk.ticks, replicate_succ]
    refine ⟨⟨hmet, ?_⟩, ?_⟩
    · rw [hstep]
      exact (ih hnext).1
    · show (runOps timerStep (Obelisk.ticks n) (timerStep (.event .tick) w).2).2 = _
      rw [hstep, (ih hnext).2]
      simp [TimerWatch.later, add_assoc, add_comm 1]

/-- The next 200 ticks, if the first 199 of them only move the clock. -/
def round (w : TimerWatch) : TimerWatch := (timerStep (.event .tick) (w.later 199)).2

/-- The next 200 ticks make one round, and the last of them finds the timers armed. -/
def RoundOk (w : TimerWatch) : Prop := Early 199 w.net ∧
  ∀ i < netTcpConnMax, TimerOk (u64 (w.net.tickCount + 200)) (turn i (w.later 199).net)

instance (w : TimerWatch) : Decidable (RoundOk w) := inferInstanceAs (Decidable (_ ∧ _))

/-- The ticks of `m` rounds, and those before the next timeout. -/
def roundTicks : ℕ → List TcpCall
  | 0 => ticks 199
  | m + 1 => ticks 199 ++ .event .tick :: roundTicks m

lemma roundTicks_run {w : TimerWatch} {m : ℕ} (h : ∀ k < m + 1, RoundOk (round^[k] w)) :
    Along timerStep TimerMet (roundTicks m ++ [.event .tick]) w ∧
      (runOps timerStep (roundTicks m) w).2 = (round^[m] w).later 199 := by
  have hround : RoundOk w := h 0 m.succ_pos
  obtain ⟨hal, hrun⟩ := hround.1.ticks
  induction m generalizing w with
  | zero =>
    rw [roundTicks, along_append, hrun]
    exact ⟨⟨hal, fun _ => hround.2, trivial⟩, rfl⟩
  | succ m ih =>
    have hnext : RoundOk (round w) := h 1 (by omega)
    obtain ⟨h1, h2⟩ := ih (fun k hk => h (k + 1) (by omega)) hnext hnext.1.ticks.1 hnext.1.ticks.2
    rw [roundTicks, List.append_assoc, along_append, runOps_append, hrun]
    exact ⟨⟨hal, fun _ => hround.2, h1⟩, h2⟩

def tcpFrame (srcPort dstPort seq ack flags : ℕ) : List UInt8 :=
  [0, 0, 0, 0, 0, 0, 0, 0, 0, 0, 0, 0, 8, 0, 0x45, 0, 0, 40, 0, 0, 0, 0, 64, 6, 0, 0, 10, 0, 2, 2, 10, 0, 2, 15] ++
  bigEndian 2 srcPort ++ bigEndian 2 dstPort ++ bigEndian 4 seq ++ bigEndian 4 ack ++
    bigEndian 2 (0x5000 + flags) ++ [16, 0, 0, 0, 0, 0]

def synAck : List UInt8 := tcpFrame 2 1 7 0x10000103 (2 ^ tcpFlagSyn + 2 ^ tcpFlagAck)

/-- One byte is sent and never acknowledged. -/
def sendOne : List TcpCall := [.connect [10, 0, 2, 2] 2 1, .event (.frame synAck), .event (.send 0 [1])]

def Drops (op : TcpCall) (s : Net) (i : ℕ) : Prop :=
  op = .event .tick ∧ (s.conns i).used = true ∧ (s.conns i).state = .established ∧
    ((op.exec s).2.conns i).state = .closed

/-- **A connection is dropped for an unanswered segment.** In every run in which the timer of an
established connection runs out only while a segment is pending and the lower layers take it, `net_tick`
drops an established connection only if its pending segment was sent again
`NET_TCP_TX_MAX_RETRIES` times. -/
theorem timer_run_drops_unanswered (present : Bool) (ip : List UInt8) (answers : List Bool) (ops : List TcpCall)
    (hm : Along timerStep TimerMet ops ⟨Net.init present ip answers, fun _ => 0⟩) :
    ∀ (pre : List TcpCall) (op : TcpCall), pre ++ [op] <+: ops →
      let w := (runOps timerStep pre ⟨Net.init present ip answers, fun _ => 0⟩).2
      ∀ i, Drops op w.net i →
        (w.net.conns i).txPending = true ∧ w.resent i = netTcpTxMaxRetries := by
  rintro pre op ⟨rest, rfl⟩ w i ⟨rfl, hu, hs, hc⟩
  rw [append_assoc, along_append] at hm
  obtain ⟨hpre, hop, -⟩ := hm
  have hok : w.Ok := runOps_inv_along (Q := fun _ => True) TimerWatch.Ok
    (fun _ _ _ hp h => h.step hp) (fun _ _ => trivial) hpre fun _ => Counts.zero
  have hi : i < netTcpConnMax := by
    by_contra hi
    rw [show (TcpCall.event .tick).exec w.net = ((0, []), netTick w.net) from rfl,
      netTick_conns_of_le (by omega), hs] at hc
    cases hc
  change ((netTick w.net).conns i).state = .closed at hc
  rw [netTick_conns hi] at hc
  obtain ⟨he, hr⟩ := tickConn_closed hu hs hc
  have hp := (hop rfl i hi ⟨hu, hs, he⟩).1
  have hn : (w.net.conns i).retries = w.resent i := (hok i).eq hu hs hp
  have hle : (w.net.conns i).retries ≤ netTcpTxMaxRetries := (hok i).le
  exact ⟨hp, by rw [← hn]; exact le_antisymm hle hr⟩

theorem timer_run_drops_unanswered_small :
    let s : TimerWatch := ⟨Net.init true [10, 0, 2, 15] (.replicate 11 true), fun _ => 0⟩
    let pre := sendOne ++ roundTicks 8
    let w := (runOps timerStep pre s).2
    Along timerStep TimerMet (pre ++ [.event .tick]) s ∧ Drops (.event .tick) w.net 0 ∧
      (w.net.conns 0).txPending = true ∧ w.resent 0 = netTcpTxMaxRetries := by
  intro s
  obtain ⟨hal, hrun⟩ := roundTicks_run (w := (runOps timerStep sendOne s).2) (m := 8) (by decide +kernel)
  have hmet : Along timerStep TimerMet (sendOne ++ roundTicks 8 ++ [.event .tick]) s := by
    rw [List.append_assoc, along_append]
    exact ⟨⟨nofun, nofun, nofun, trivial⟩, hal⟩
  have hw := (runOps_append timerStep sendOne (roundTicks 8) s).trans hrun
  have hdrops : Drops (.event .tick) (runOps timerStep (sendOne ++ roundTicks 8) s).2.net 0 := by
    rw [hw]
    exact ⟨rfl, by decide +kernel, by decide +kernel, by decide +kernel⟩
  -- as a variable, so that no check runs all the ticks
  generalize sendOne ++ roundTicks 8 = pre at hmet hdrops ⊢
  exact ⟨hmet, hdrops, timer_run_drops_unanswered true [10, 0, 2, 15] (.replicate 11 true)
    (pre ++ [.event .tick]) hmet pre (.event .tick) (List.prefix_refl _) 0 hdrops⟩

def idleRun : List TcpCall :=
  [.connect [10, 0, 2, 2] 2 1, .event (.frame synAck)] ++ List.replicate 207 (.event .tick)

/-- Nothing is sent: the timer runs out at the 200th tick, and then every tick counts as a retry. -/
theorem idle_run_dropped :
    let w := (runOps timerStep idleRun ⟨Net.init true [10, 0, 2, 15] [true, true], fun _ => 0⟩).2
    Drops (.event .tick) w.net 0 ∧ (w.net.conns 0).txPending = false := by
  intro w
  have hrun : w = (runOps timerStep (ticks 8) ((runOps timerStep [.connect [10, 0, 2, 2] 2 1, .event (.frame synAck)]
      ⟨Net.init true [10, 0, 2, 15] [true, true], fun _ => 0⟩).2.later 199)).2 := by
    simp only [w, idleRun]
    rw [show List.replicate 207 (.event .tick) = ticks 199 ++ ticks 8 from List.replicate_add 199 8 _, runOps_append,
      runOps_append, (Early.ticks (n := 199) (by decide +kernel)).2]
  rw [hrun]
  exact ⟨⟨rfl, by decide +kernel, by decide +kernel, by decide +kernel⟩, by decide +kernel⟩

end Obelisk
