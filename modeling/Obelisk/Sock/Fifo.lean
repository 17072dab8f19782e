import Obelisk.Sock.Peer
import Obelisk.Sock.Queue

/-!
# The buffers of one socket are queues

Any calls of the four buffer functions on a zeroed socket, with what went in and what came out.
-/

namespace Obelisk.Fifo

open KLib List

/-- A call on the buffers of a socket. -/
inductive Op
  | push (data : List UInt8)
  | pop (len : ℕ)
  | queue (fd : ℤ)
  | take

/-- A socket with the bytes and descriptors it accepted and those it gave back. -/
structure Watch where
  sock : KSocket := .zero
  accepted : List UInt8 := []
  popped : List UInt8 := []
  queued : List ℤ := []
  taken : List ℤ := []

variable {w : Watch} {x : KSocket}

def step (w : Watch) : Op → Watch
  | .push data =>
    match w.sock.rxPush data with
    | none => w
    | some (n, x) => { w with sock := x, accepted := w.accepted ++ data.take n }
  | .pop len =>
    let r := w.sock.rxPop len
    { w with sock := r.2, popped := w.popped ++ r.1 }
  | .queue fd =>
    match w.sock.queuePending fd with
    | none => w
    | some x => { w with sock := x, queued := w.queued ++ [fd] }
  | .take =>
    match w.sock.popPending with
    | none => w
    | some (fd, x) => { w with sock := x, taken := w.taken ++ [fd] }

/-- What goes in comes out, in order. -/
structure Ok (w : Watch) : Prop where
  bytes : w.popped ++ w.sock.contents = w.accepted
  room : w.sock.rxLen ≤ unixRxBuf
  fds : w.taken ++ w.sock.pending = w.queued
  ring : w.sock.QueueOk

lemma ok_step (h : Ok w) (op : Op) : Ok (step w op) := by
  cases op with
  | push data =>
    rw [step]
    split
    · exact h
    · next n x hpush =>
      obtain ⟨hcont, -, hroom, -⟩ := rxPush_spec hpush h.room
      have hq := rxPush_queue hpush
      exact ⟨by rw [hcont, ← append_assoc, h.bytes], hroom, by rw [hq.pending, h.fds], hq.queueOk h.ring⟩
  | pop len =>
    obtain ⟨n, hn, hout, hcont, hlen⟩ := rxPop_spec len w.sock
    refine ⟨?_, ?_, h.fds, h.ring⟩
    · rw [step, hout, hcont, append_assoc, take_append_drop, h.bytes]
    · exact hlen.trans_le ((Nat.sub_le ..).trans h.room)
  | queue fd =>
    rw [step]
    split
    · exact h
    · next x hqueue =>
      obtain ⟨hpend, hring⟩ := queuePending_spec hqueue h.ring
      refine ⟨?_, ?_, by rw [hpend, ← append_assoc, h.fds], hring⟩ <;>
      · simp only [KSocket.queuePending] at hqueue
        split_ifs at hqueue
        cases hqueue
        first | exact h.bytes | exact h.room
  | take =>
    rw [step]
    split
    · exact h
    · next fd x htake =>
      obtain ⟨hpend, hring⟩ := popPending_spec htake h.ring
      refine ⟨?_, ?_, by rw [append_assoc, singleton_append, ← hpend, h.fds], hring⟩ <;>
      · simp only [KSocket.popPending] at htake
        split_ifs at htake
        cases htake
        first | exact h.bytes | exact h.room

lemma rxPush_accepts (x : KSocket) (data : List UInt8) :
    (x.rxPush data).elim 0 Prod.fst = min data.length (unixRxBuf - x.rxLen) := by
  rw [KSocket.rxPush]
  split_ifs with hnil hfull
  · rw [hnil, length_nil, Nat.zero_min, Option.elim_some]
  · rw [hfull, min_zero, Option.elim_none]
  · rfl

lemma pending_ends (hx : x.QueueOk) : (x.popPending = none ↔ x.pending = []) ∧ ∀ fd,
    x.pending.length ≤ 7 ∧ (x.queuePending fd = none ↔ x.pending.length = 7) := by
  obtain ⟨hhead, htail⟩ := hx
  have hpop : x.popPending = none ↔ x.pendingHead = x.pendingTail := by simp [KSocket.popPending]
  have hqueue fd : x.queuePending fd = none ↔ (x.pendingHead + 1) % unixPendingMax = x.pendingTail := by
    simp [KSocket.queuePending]
  simp only [hpop, hqueue, ← length_eq_zero_iff, KSocket.pending, length_ringRead]
  rw [unixPendingMax] at *
  exact ⟨by omega, by omega⟩

/-- **The buffers are queues**: what came out followed by what is still there is what went in, a push
accepts what fits, a pop gives what there is, a descriptor is refused exactly with seven waiting, and
none is given exactly with none waiting. -/
theorem fifo_run (ops : List Op) : let w := ops.foldl step {}
    (w.popped ++ w.sock.contents = w.accepted ∧ w.sock.rxLen ≤ unixRxBuf ∧
      (∀ data, (w.sock.rxPush data).elim 0 Prod.fst = min data.length (unixRxBuf - w.sock.rxLen)) ∧
      ∀ len, (w.sock.rxPop len).1.length = min len w.sock.rxLen) ∧
    w.taken ++ w.sock.pending = w.queued ∧ (w.sock.popPending = none ↔ w.sock.pending = []) ∧
      ∀ fd, w.sock.pending.length ≤ 7 ∧
        (w.sock.queuePending fd = none ↔ w.sock.pending.length = 7) := by
  have hzero : Ok {} := ⟨rfl, Nat.zero_le _, rfl, queueOk_new rfl rfl⟩
  have h : Ok (ops.foldl step {}) := foldlRecOn ops step hzero fun _ hw op _ => ok_step hw op
  exact ⟨⟨h.bytes, h.room, rxPush_accepts _, fun _ => length_ringRead ..⟩, h.fds, pending_ends h.ring⟩

end Obelisk.Fifo
