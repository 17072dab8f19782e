import Obelisk.Sock.Step

/-!
# The queues of listeners

`sys_connect` queues the slot it takes at the listener, `sys_accept` takes the oldest one out.
-/

namespace Obelisk

open KLib Function List SockTable KSocket

variable {fd : ℤ} {x y : KSocket} {i : ℕ}

def KSocket.pending (x : KSocket) : List ℤ :=
  ringRead unixPendingMax x.pendingFds x.pendingTail
    ((x.pendingHead + unixPendingMax - x.pendingTail) % unixPendingMax)

def KSocket.QueueOk (x : KSocket) : Prop :=
  x.pendingHead < unixPendingMax ∧ x.pendingTail < unixPendingMax

lemma queuePending_spec (h : x.queuePending fd = some y)
    (hx : x.QueueOk) : y.pending = x.pending ++ [fd] ∧ y.QueueOk := by
  obtain ⟨hhead, htail⟩ := hx
  simp only [queuePending] at h
  split_ifs at h with hroom
  rw [← Option.some.inj h]
  refine ⟨?_, Nat.mod_lt _ (by decide), htail⟩
  rw [pending, pending]
  dsimp only
  generalize hlen : (x.pendingHead + unixPendingMax - x.pendingTail) % unixPendingMax = len
  rw [unixPendingMax] at *
  have hlen' : ((x.pendingHead + 1) % 8 + 8 - x.pendingTail) % 8 = len + 1 := by omega
  have hpos : (x.pendingTail + len) % 8 = x.pendingHead := by omega
  have hwrite : update x.pendingFds x.pendingHead fd =
      ringWrite 8 [fd] (x.pendingTail + len) x.pendingFds := by
    rw [ringWrite, ringWrite, hpos]
  rw [hlen', hwrite]
  exact ringRead_write (by rw [length_singleton]; omega)

lemma popPending_spec (h : x.popPending = some (fd, y))
    (hx : x.QueueOk) : x.pending = fd :: y.pending ∧ y.QueueOk := by
  obtain ⟨hhead, htail⟩ := hx
  simp only [popPending] at h
  split_ifs at h with hempty
  cases h
  refine ⟨?_, hhead, Nat.mod_lt _ (by decide)⟩
  rw [pending, pending]
  dsimp only
  rw [unixPendingMax] at *
  generalize hlen : (x.pendingHead + 8 - (x.pendingTail + 1) % 8) % 8 = len
  have hlen' : (x.pendingHead + 8 - x.pendingTail) % 8 = 1 + len := by omega
  rw [hlen', ringRead_add, ringRead_mod]
  simp [ringRead, Nat.mod_eq_of_lt htail]

def Queues (S : SockTable) : Prop := ∀ k, (S k).QueueOk

def Waits (S : SockTable) (i : ℕ) : Prop :=
  ∃ l < socketMax, (S l).used = true ∧ (S l).ownerPid = (S i).ownerPid ∧ socketFd i ∈ (S l).pending

def SockOp.opens : SockOp → Bool
  | socket .. | socketpair .. => true
  | _ => false

variable {pid l k : ℕ} {op : SockOp} {S S' : SockTable} {r : ℤ × List UInt8}

/-- What a call does to the queue of a listener. -/
inductive QueueStep (pid : ℕ) (op : SockOp) (S : SockTable) (r : ℤ × List UInt8) (S' : SockTable)
    (l : ℕ) : Prop
  | kept (ext : List ℤ) : (S' l).used = true → (S' l).ownerPid = (S l).ownerPid →
      (S' l).pending = (S l).pending ++ ext → (connects pid op S = none → ext = []) →
      QueueStep pid op S r S' l
  | popped (fault : Bool) (child : ℤ) : op = .accept (socketFd l) fault → Owned pid l S →
      (S l).unixStream = true → (S' l).used = true → (S' l).ownerPid = (S l).ownerPid →
      (S l).pending = child :: (S' l).pending → r.1 = (if fault then eFault else child) →
      QueueStep pid op S r S' l
  | closed : op = .close (socketFd l) → Owned pid l S → (S' l).used = false → QueueStep pid op S r S' l

/-- The same queue. -/
structure KSocket.SameQueue (x y : KSocket) : Prop where
  fds : y.pendingFds = x.pendingFds
  head : y.pendingHead = x.pendingHead
  tail : y.pendingTail = x.pendingTail

lemma KSocket.Alike.queue (h : x.Alike y) : x.SameQueue y :=
  ⟨h.pendingFds, h.pendingHead, h.pendingTail⟩

lemma KSocket.SameQueue.pending (h : x.SameQueue y) : y.pending = x.pending := by
  rw [KSocket.pending, h.fds, h.head, h.tail, KSocket.pending]

lemma KSocket.SameQueue.queueOk (h : x.SameQueue y) (hx : x.QueueOk) : y.QueueOk := by
  rwa [KSocket.QueueOk, h.head, h.tail]

lemma rxPush_queue {data : List UInt8} {n : ℕ}
    (h : x.rxPush data = some (n, y)) : x.SameQueue y := by
  simp only [rxPush] at h
  split_ifs at h
  · rw [← (Prod.mk.inj (Option.some.inj h)).2]
    exact ⟨rfl, rfl, rfl⟩
  rw [← (Prod.mk.inj (Option.some.inj h)).2]
  exact ⟨rfl, rfl, rfl⟩

lemma queueOk_new (hhead : x.pendingHead = 0) (htail : x.pendingTail = 0) : x.QueueOk := by
  rw [KSocket.QueueOk, hhead, htail]
  decide

lemma queues_step (h : SockStep pid op S r S') (hq : Queues S) : Queues S' := by
  intro k
  have hk := h.slot k
  generalize S' k = y at hk
  cases hk with
  | alike _ hal => exact hal.queue.queueOk (hq k)
  | wiped => exact queueOk_new rfl rfl
  | new _ _ _ _ _ hhead htail _ => exact queueOk_new hhead htail
  | queued _ _ _ hal hpend => exact (queuePending_spec hpend (hal.queue.queueOk (hq k))).2
  | popped _ _ _ _ _ hpop _ => exact (popPending_spec hpop (hq k)).2
  | pushed _ _ _ _ _ _ _ _ _ _ hpush => exact (rxPush_queue hpush).queueOk (hq k)
  | read => exact hq k
  | closed => exact queueOk_new rfl rfl

lemma queueStep_of_same (hu : (S l).used = true) (hu' : (S' l).used = (S l).used)
    (ho : (S' l).ownerPid = (S l).ownerPid) (hq : (S l).SameQueue (S' l)) :
    QueueStep pid op S r S' l :=
  .kept [] (hu'.trans hu) ho (by rw [hq.pending, append_nil]) fun _ => rfl

lemma queue_step (h : SockStep pid op S r S') (hq : Queues S) (hu : (S l).used = true) :
    QueueStep pid op S r S' l := by
  have hl := h.slot l
  generalize hy : S' l = y at hl
  cases hl with
  | alike _ hal => exact queueStep_of_same hu (hy ▸ hal.used) (hy ▸ hal.ownerPid) (hy ▸ hal.queue)
  | wiped _ hu' => cases hu'.symm.trans hu
  | new _ _ hu' _ _ _ _ _ => cases hu'.symm.trans hu
  | queued fd _ hc hal hpend =>
    obtain ⟨hyu, hyo⟩ := queuePending_owner hpend
    have hyq := (queuePending_spec hpend (hal.queue.queueOk (hq l))).1
    refine .kept [fd] ?_ ?_ ?_ fun hnone => absurd hnone hc
    · rw [hy, hyu, hal.used, hu]
    · rw [hy, hyo, hal.ownerPid]
    · rw [hy, hyq, hal.queue.pending]
  | popped fault child hop hown hunix hpop hr =>
    obtain ⟨hyu, hyo⟩ := popPending_owner hpop
    exact .popped fault child hop hown hunix (hy ▸ hyu.trans hu) (hy ▸ hyo)
      (hy ▸ (popPending_spec hpop (hq l)).1) hr
  | pushed _ _ _ _ _ _ _ _ _ _ hpush =>
    obtain ⟨hyu, hyo⟩ := rxPush_owner hpush
    exact queueStep_of_same hu (hy ▸ hyu) (hy ▸ hyo) (hy ▸ rxPush_queue hpush)
  | read len _ _ =>
    exact queueStep_of_same hu (by rw [hy]; rfl) (by rw [hy]; rfl) (by rw [hy]; exact ⟨rfl, rfl, rfl⟩)
  | closed hop hown => exact .closed hop hown (by rw [hy]; rfl)

lemma takes_opens {q : ℕ} (hop : op.opens = true) (h : (k, q) ∈ takes pid op S) : q = pid := by
  cases op with
  | socket domain type protocol netReady =>
    simp only [takes] at h
    split_ifs at h
    · obtain ⟨i, -, hi⟩ := mem_map.mp h
      exact (congrArg Prod.snd hi).symm
    · cases h
  | socketpair domain type protocol sv copied =>
    simp only [takes] at h
    split_ifs at h
    · split at h
      · cases h
      · split at h
        · cases h
        · obtain h | h := mem_cons.mp h
          · exact congrArg Prod.snd h
          · exact congrArg Prod.snd (mem_singleton.mp h)
    · cases h
  | _ => cases hop

lemma takes_of_not_opens (hop : op.opens = false) (hc : connects pid op S = none) :
    takes pid op S = [] := by
  cases op with
  | socket | socketpair => cases hop
  | connect fd addr inet => simp only [takes, hc]
  | _ => rfl

lemma new_step (h : SockStep pid op S r S') (hq : Queues S) (hu : (S k).used = false)
    (hu' : (S' k).used = true) : op.opens = true ∧ (S' k).ownerPid = pid ∨
      Waits S' k ∧ ∃ l < socketMax, (S l).used = true ∧ (S l).ownerPid = (S' k).ownerPid := by
  have htaken : (k, (S' k).ownerPid) ∈ takes pid op S := by
    cases slot_step h k with
    | new _ _ _ ht => exact (ht _).mpr rfl
    | kept hu'' _ _ =>
      rw [hu, hu'] at hu''
      cases hu''
    | closed _ hown _ =>
      rw [hown.2.1] at hu
      cases hu
  cases hop : op.opens with
  | true => exact .inl ⟨rfl, takes_opens hop htaken⟩
  | false =>
    right
    cases hc : connects pid op S with
    | none =>
      rw [takes_of_not_opens hop hc] at htaken
      cases htaken
    | some c =>
      obtain ⟨s, l, a⟩ := c
      have hcon := connects_spec hc
      have hl := hcon.listenerUsed
      obtain ⟨listener, ht, hpend, rfl⟩ | ⟨ht, -⟩ := h.connect_cases hc
      · have hla : l ≠ a := by
          rintro rfl
          rw [hcon.unused] at hl
          cases hl
        rw [ht, mem_singleton] at htaken
        obtain ⟨rfl, howner⟩ := Prod.mk.inj htaken
        have hal := peered_alike (S := S) (s := s) (l := l) hla
        obtain ⟨hyu, hyo⟩ := queuePending_owner hpend
        have hyq := (queuePending_spec hpend (hal.queue.queueOk (hq l))).1
        refine ⟨⟨l, hcon.listener, ?_, ?_, ?_⟩, l, hcon.listener, hl, howner.symm⟩
        · rw [update_self, hyu, hal.used, hl]
        · rw [howner, update_self, hyo, hal.ownerPid]
        rw [update_self, hyq]
        exact mem_append_right _ (mem_singleton_self _)
      rw [ht] at htaken
      cases htaken

lemma pending_eq_cons {child : ℤ} {rest : List ℤ} (hx : x.QueueOk)
    (h : x.pending = child :: rest) : ∃ y, x.popPending = some (child, y) ∧ y.pending = rest := by
  cases hpop : x.popPending with
  | none =>
    rw [popPending] at hpop
    split_ifs at hpop with hempty
    rw [pending, hempty, Nat.add_sub_cancel_left, Nat.mod_self] at h
    cases h
  | some c =>
    obtain ⟨fd, y⟩ := c
    have hcons := (popPending_spec hpop hx).1
    obtain ⟨rfl, rfl⟩ := List.cons.inj (h.symm.trans hcons)
    exact ⟨y, rfl, rfl⟩

end Obelisk
