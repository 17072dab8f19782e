import Obelisk.Net.Timer

/-!
# Acknowledgements around the wrap of the sequence numbers

`net_rx_frame` compares acknowledgement numbers as integers. Sequence numbers are points on a circle
of `2 ^ 32`; the two orders agree as long as nothing wraps between `snd_una` and what is compared.
-/

namespace Obelisk.Ack

open KLib

def ahead (x y : ℕ) : ℕ := u32 (y + 2 ^ 32 - x)

def New (c : TcpConn) (a : ℕ) : Prop :=
  1 ≤ ahead c.sndUna a ∧ ahead c.sndUna a ≤ ahead c.sndUna c.sndNxt
  deriving Decidable

def Covers (c : TcpConn) (a : ℕ) : Prop :=
  ahead c.sndUna (c.txSeq + c.txData.length) ≤ ahead c.sndUna a
  deriving Decidable

def sending (c : TcpConn) : ℕ × Bool × ℕ := (c.sndUna, c.txPending, c.txData.length)

/-- The connection goes from `c` to `c'` as acknowledgement number `a` says on the circle. -/
def AckModular (a : ℕ) (c c' : TcpConn) : Prop :=
  if New c a then c'.sndUna = a ∧ c'.txPending = (c.txPending && !decide (Covers c a))
  else sending c' = sending c
  deriving Decidable

/-! ## One segment -/

lemma sendAck_sending (tick : ℕ) (x : ConnTx) : sending (sendAck tick x).1 = sending x.1 := by
  obtain ⟨c, _ | ⟨_ | _, rest⟩⟩ := x <;> rfl

lemma tcpPayload_sending (tick : ℕ) (seg : Segment) (x : ConnTx) :
    sending (tcpPayload tick seg x).1 = sending x.1 := by
  unfold tcpPayload tcpTake
  split_ifs
  · rw [sendAck_sending]; rfl
  · rw [sendAck_sending]
  · rfl

lemma tcpFin_sending (tick : ℕ) (seg : Segment) (x : ConnTx) :
    sending (tcpFin tick seg x).1 = sending x.1 := by
  unfold tcpFin
  split_ifs
  · rw [sendAck_sending]; rfl
  · rw [sendAck_sending]; rfl
  · rfl

lemma tcpInput_sending (tick : ℕ) {seg : Segment} (x : ConnTx) (he : x.1.state = .established)
    (ha : seg.has tcpFlagAck = true) :
    sending (tcpInput tick seg x).1 = if seg.has tcpFlagRst = false ∧ x.1.sndUna < seg.ack then
        if x.1.txPending ∧ x.1.txSeq + x.1.txData.length ≤ seg.ack then (seg.ack, false, 0)
        else (seg.ack, x.1.txPending, x.1.txData.length)
      else sending x.1 := by
  cases hr : seg.has tcpFlagRst with
  | true => simp [tcpInput, hr, sending]
  | false =>
    have hi : tcpInput tick seg x = tcpFin tick seg (tcpPayload tick seg (tcpAck seg x.1, x.2)) := by
      simp [tcpInput, he, hr]
    rw [hi, tcpFin_sending, tcpPayload_sending]
    by_cases hu : x.1.sndUna < seg.ack
    · by_cases hp : x.1.txPending ∧ x.1.txSeq + x.1.txData.length ≤ seg.ack <;>
        simp [tcpAck, ha, hu, hp, sending]
    · simp [tcpAck, hu]

/-- No wrap separates the two orders: a new number is not below `snd_una` and no `RST` is set, the
segment kept is compared as on the circle, and a number that is not new is not above `snd_una`. -/
structure Unwrapped (seg : Segment) (c : TcpConn) : Prop where
  new : New c seg.ack → seg.has tcpFlagRst = false ∧ c.sndUna < seg.ack ∧
    (c.txPending = true → (c.txSeq + c.txData.length ≤ seg.ack ↔ Covers c seg.ack))
  old : ¬ New c seg.ack → seg.has tcpFlagRst = true ∨ seg.ack ≤ c.sndUna

lemma not_new_self (c : TcpConn) : ¬ New c c.sndUna := by
  simp [New, ahead, u32]

/-- **Acknowledgement numbers.** A segment with `ACK` for an established connection is handled modulo
`2 ^ 32` exactly when no wrap separates the order of the integers from the order on the circle. -/
theorem netRxFrame_ackModular_iff (s : Net) (f : List UInt8) (i : ℕ) (seg : Segment)
    (h : s.target f = some (i, seg)) (he : (s.conns i).state = .established)
    (ha : seg.has tcpFlagAck = true) :
    AckModular seg.ack (s.conns i) ((netRxFrame f s).conns i) ↔ Unwrapped seg (s.conns i) := by
  have hs := tcpInput_sending s.tickCount (s.conns i, s.answers) he ha
  have hc : (netRxFrame f s).conns i = (tcpInput s.tickCount seg (s.conns i, s.answers)).1 := by
    simp [netRxFrame, h, Net.setConn]
  rw [hc]
  generalize (tcpInput s.tickCount seg (s.conns i, s.answers)).1 = c' at hs ⊢
  generalize s.conns i = c at hs ⊢
  unfold AckModular
  split_ifs with hn
  · -- `snd_una` takes a new number only from below
    have hne : c.sndUna ≠ seg.ack := fun h => not_new_self c (h ▸ hn)
    split_ifs at hs with h1 h2
    · simp only [sending, Prod.mk.injEq] at hs
      refine ⟨fun hp => ⟨fun _ => ⟨h1.1, h1.2, fun _ => ?_⟩, fun h => absurd hn h⟩, fun hw => ?_⟩
      · simp_all
      · simp [hs, (hw.new hn).2.2 h2.1 |>.mp h2.2]
    · simp only [sending, Prod.mk.injEq] at hs
      refine ⟨fun hp => ⟨fun _ => ⟨h1.1, h1.2, fun ht => ?_⟩, fun h => absurd hn h⟩, fun hw => ?_⟩
      · simp_all
      have := (hw.new hn).2.2
      simp_all
    simp only [sending, Prod.mk.injEq] at hs
    exact ⟨fun h => absurd (hs.1 ▸ h.1) hne, fun hw => absurd ⟨(hw.new hn).1, (hw.new hn).2.1⟩ h1⟩
  by_cases h1 : seg.has tcpFlagRst = false ∧ c.sndUna < seg.ack
  · have hu : c'.sndUna = seg.ack := by
      rw [if_pos h1] at hs
      split_ifs at hs <;> exact congrArg Prod.fst hs
    refine ⟨fun h => absurd (hu.symm.trans (congrArg Prod.fst h)) h1.2.ne', fun hw => ?_⟩
    have := hw.old hn
    simp_all
    omega
  rw [if_neg h1] at hs
  refine ⟨fun _ => ⟨fun h => absurd h hn, fun _ => ?_⟩, fun _ => hs⟩
  by_cases hr : seg.has tcpFlagRst = false
  · exact .inr (not_lt.mp fun h => h1 ⟨hr, h⟩)
  · exact .inl (by simpa using hr)

/-- A device with an established connection from port 1 to port 2 that has sent `n` bytes from `una`
on and has them all in its retransmission buffer. -/
def sentFrom (una n : ℕ) : Net :=
  { Net.init true [10, 0, 2, 15] [] with
    conns := fun _ =>
      { TcpConn.zero with
        used := true
        state := .established
        remoteIp := [10, 0, 2, 2]
        localPort := 1
        remotePort := 2
        sndUna := una
        sndNxt := u32 (una + n)
        txPending := true
        txSeq := una
        txData := List.replicate n 0 } }

def ackFrame (a : ℕ) : List UInt8 := tcpFrame 2 1 0 a (2 ^ tcpFlagAck)

theorem ack_wraps : let s := sentFrom (2 ^ 32 - 1) 2
    let seg : Segment := ⟨[10, 0, 2, 2], [10, 0, 2, 15], 2, 1, 0, 1, 2 ^ tcpFlagAck, []⟩
    s.target (ackFrame 1) = some (0, seg) ∧ (s.conns 0).state = .established ∧
      seg.has tcpFlagAck = true ∧ ahead (s.conns 0).sndUna (s.conns 0).sndNxt < 2 ^ 31 ∧
      ¬ AckModular seg.ack (s.conns 0) ((netRxFrame (ackFrame 1) s).conns 0) := by
  decide +kernel

theorem ack_without_wrap : let s := sentFrom 5 2
    let seg : Segment := ⟨[10, 0, 2, 2], [10, 0, 2, 15], 2, 1, 0, 7, 2 ^ tcpFlagAck, []⟩
    AckModular seg.ack (s.conns 0) ((netRxFrame (ackFrame 7) s).conns 0) ∧
      (AckModular seg.ack (s.conns 0) ((netRxFrame (ackFrame 7) s).conns 0) ↔
        Unwrapped seg (s.conns 0)) :=
  ⟨by decide +kernel, netRxFrame_ackModular_iff (sentFrom 5 2) (ackFrame 7) 0 _ (by decide +kernel)
    (by decide) (by decide)⟩

end Obelisk.Ack
