import Obelisk.Lib.Run
import Obelisk.Sock.Step

/-!
# Peers

Two `AF_UNIX` sockets that are connected name each other in `peer_fd`; bytes sent on one are stored in
the buffer of the other.
-/

namespace Obelisk

open KLib Function List SockTable KSocket

variable {a k l s : ℕ} {fd : ℤ} {listener x y : KSocket}

def KSocket.contents (x : KSocket) : List UInt8 := ringRead unixRxBuf x.rxBuf x.rxHead x.rxLen

/-- The sockets with their history. -/
structure SockWatch where
  tab : SockTable
  /-- The number of the socket that is in a slot; each time a slot is taken it gets a new one. -/
  gen : ℕ → ℕ
  next : ℕ
  /-- The sockets that have been connected, in both orders. -/
  links : List (ℕ × ℕ)
  /-- The bytes in the buffer of a slot, each with the socket it has been sent on. -/
  inbox : ℕ → List (ℕ × UInt8)

def SockWatch.init : SockWatch := ⟨SockTable.init, fun _ => 0, 0, [], fun _ => []⟩

def SockWatch.newGen (w : SockWatch) (S' : SockTable) (i : ℕ) : ℕ :=
  if isNew w.tab S' i then w.next + i else w.gen i

def SockWatch.newLinks (w : SockWatch) (S' : SockTable) : List (ℕ × ℕ) :=
  (List.range socketMax).flatMap fun i =>
    if isNew w.tab S' i then
      match socketFdToIndex (S' i).peerFd with
      | some j => [(w.newGen S' i, w.newGen S' j), (w.newGen S' j, w.newGen S' i)]
      | none => []
    else []

def SockWatch.sender (w : SockWatch) (op : SockOp) : ℕ :=
  match socketFdToIndex op.sendFd with
  | some s => w.gen s
  | none => 0

def SockWatch.observe (op : SockOp) (w : SockWatch) (S' : SockTable) : SockWatch where
  tab := S'
  gen := w.newGen S'
  next := w.next + socketMax
  links := w.links ++ w.newLinks S'
  inbox := fun i =>
    if isNew w.tab S' i then []
    else if (w.tab i).rxLen < (S' i).rxLen then
      w.inbox i ++ ((S' i).contents.drop (w.tab i).rxLen).map (w.sender op, ·)
    else (w.inbox i).drop ((w.tab i).rxLen - (S' i).rxLen)

def sockWatchStep (o : ℕ × SockOp) (w : SockWatch) : (ℤ × List UInt8) × SockWatch :=
  let r := o.2.perform o.1 w.tab
  (r.1, w.observe o.2 r.2)

/-- Two sockets that are connected to each other. -/
structure Paired (S : SockTable) (i j : ℕ) : Prop where
  left : i < socketMax
  right : j < socketMax
  ne : i ≠ j
  used : (S i).used = true
  peerUsed : (S j).used = true
  domain : (S i).domain = afUnix
  peerDomain : (S j).domain = afUnix
  peerFd : (S i).peerFd = socketFd j
  back : (S j).peerFd = socketFd i

/-- The peer of an `AF_UNIX` socket names it, and the two have been connected. -/
def Sym (w : SockWatch) : Prop :=
  ∀ i < socketMax, (w.tab i).used = true → (w.tab i).domain = afUnix → 0 ≤ (w.tab i).peerFd →
    ∃ j, Paired w.tab i j ∧ (w.gen i, w.gen j) ∈ w.links

/-- Peers name each other; the bytes in a buffer are the ones the observer has seen coming, and each
has been sent on a socket that has been connected to this one. -/
structure PeerOk (w : SockWatch) : Prop where
  sym : Sym w
  seen : ∀ i < socketMax, (w.tab i).used = true → (w.inbox i).map Prod.snd = (w.tab i).contents
  sent : ∀ i < socketMax, (w.tab i).used = true → ∀ x ∈ w.inbox i, (x.1, w.gen i) ∈ w.links

/-- A `sys_connect` that finds a listener and a slot is made on a socket without a peer. -/
def ConnectsFree (o : ℕ × SockOp) (w : SockWatch) : Prop :=
  ∀ s l a, connects o.1 o.2 w.tab = some (s, l, a) → (w.tab s).peerFd < 0

/-- What holds of every table: `AF_UNIX` sockets are stream sockets, and buffers do not overflow. -/
def Plain (S : SockTable) : Prop :=
  ∀ i < socketMax, (S i).used = true → ((S i).domain = afUnix → (S i).type = sockStream) ∧ (S i).rxLen ≤ unixRxBuf

variable {pid i j : ℕ} {op : SockOp} {S S' : SockTable} {w : SockWatch} {r : ℤ × List UInt8}

lemma rxPush_spec {data : List UInt8} {n : ℕ} (h : x.rxPush data = some (n, y))
    (hcap : x.rxLen ≤ unixRxBuf) : y.contents = x.contents ++ data.take n ∧
      y.rxLen = x.rxLen + (data.take n).length ∧ y.rxLen ≤ unixRxBuf ∧ y.used = x.used ∧
      y.ownerPid = x.ownerPid ∧ y.domain = x.domain ∧ y.type = x.type ∧ y.peerFd = x.peerFd ∧
      y.pendingFds = x.pendingFds ∧ y.pendingHead = x.pendingHead ∧
      y.pendingTail = x.pendingTail := by
  rw [KSocket.rxPush] at h
  by_cases hdata : data = []
  · rw [if_pos hdata] at h
    cases h
    rw [take_zero, append_nil]
    exact ⟨rfl, rfl, hcap, rfl, rfl, rfl, rfl, rfl, rfl, rfl, rfl⟩
  rw [if_neg hdata] at h
  by_cases hspace : unixRxBuf - x.rxLen = 0
  · rw [if_pos hspace] at h
    cases h
  rw [if_neg hspace] at h
  obtain ⟨hn, rfl⟩ := Prod.mk.inj (Option.some.inj h)
  rw [← hn]
  generalize hm : min data.length (unixRxBuf - x.rxLen) = m
  have hlen : (data.take m).length = m := by
    rw [length_take]
    omega
  refine ⟨?_, by rw [hlen], by dsimp only; omega, rfl, rfl, rfl, rfl, rfl, rfl, rfl, rfl⟩
  have hw : ∀ b, ringWrite unixRxBuf (data.take m) ((x.rxHead + x.rxLen) % unixRxBuf) b =
      ringWrite unixRxBuf (data.take m) (x.rxHead + x.rxLen) b := fun b => ringWrite_mod _
  rw [KSocket.contents, KSocket.contents]
  dsimp only
  have hfit : x.rxLen + (data.take m).length ≤ unixRxBuf := by omega
  have hread : ringRead unixRxBuf (ringWrite unixRxBuf (data.take m) (x.rxHead + x.rxLen) x.rxBuf)
      x.rxHead (x.rxLen + (data.take m).length) = _ := ringRead_write hfit
  rw [hlen] at hread
  rw [hw, hread]

lemma rxPop_spec (len : ℕ) (x : KSocket) : ∃ n ≤ x.rxLen, (x.rxPop len).1 = x.contents.take n ∧
    (x.rxPop len).2.contents = x.contents.drop n ∧ (x.rxPop len).2.rxLen = x.rxLen - n := by
  refine ⟨min len x.rxLen, min_le_right .., ?_⟩
  generalize hn : min len x.rxLen = n
  have hsum : x.rxLen = n + (x.rxLen - n) := by omega
  have hcontents : x.contents = ringRead unixRxBuf x.rxBuf x.rxHead n ++
      ringRead unixRxBuf x.rxBuf (x.rxHead + n) (x.rxLen - n) := by
    rw [KSocket.contents, ← ringRead_add, ← hsum]
  have htake : ((ringRead unixRxBuf x.rxBuf x.rxHead n).length) = n := length_ringRead _ _
  refine ⟨?_, ?_, ?_⟩
  · rw [hcontents, take_left' htake, rxPop, hn]
  · rw [hcontents, drop_left' htake, rxPop, hn]
    exact ringRead_mod _ _
  · rw [rxPop, hn]

/-! ## Peers -/

/-- The same connection. -/
structure KSocket.SameEnd (x y : KSocket) : Prop where
  used : y.used = x.used
  domain : y.domain = x.domain
  peerFd : y.peerFd = x.peerFd

lemma KSocket.SameEnd.refl (x : KSocket) : x.SameEnd x := ⟨rfl, rfl, rfl⟩

lemma KSocket.SameEnd.of_eq (h : y = x) : x.SameEnd y := h ▸ .refl x

lemma Paired.symm (h : Paired S i j) : Paired S j i :=
  ⟨h.right, h.left, h.ne.symm, h.peerUsed, h.used, h.peerDomain, h.domain, h.back, h.peerFd⟩

lemma Paired.mono (h : Paired S i j) (hi : (S i).SameEnd (S' i)) (hj : (S j).SameEnd (S' j)) :
    Paired S' i j :=
  ⟨h.left, h.right, h.ne, hi.used.trans h.used, hj.used.trans h.peerUsed, hi.domain.trans h.domain,
    hj.domain.trans h.peerDomain, hi.peerFd.trans h.peerFd, hj.peerFd.trans h.back⟩

lemma Paired.eq_of_peerFd (h : Paired S i j) (hk : (S i).peerFd = socketFd k) : k = j :=
  socketFd_inj (hk.symm.trans h.peerFd)

def Pairs (S : SockTable) : Prop :=
  ∀ i < socketMax, (S i).used = true → (S i).domain = afUnix → 0 ≤ (S i).peerFd → ∃ j, Paired S i j

def PairsFrom (S S' : SockTable) : Prop :=
  ∀ i < socketMax, (S' i).used = true → (S' i).domain = afUnix → 0 ≤ (S' i).peerFd →
    ∃ j, Paired S' i j ∧ (Paired S i j ∨ isNew S S' i = true ∨ isNew S S' j = true)

lemma pairsFrom_of_same (hp : Pairs S) (hused : ∀ k, (S' k).used = (S k).used)
    (hsame : ∀ k, (S k).used = true → (S k).SameEnd (S' k)) : PairsFrom S S' := by
  intro i hi hu hd hpeer
  have huS := (hused i).symm.trans hu
  have hi' := hsame i huS
  obtain ⟨j, hij⟩ := hp i hi huS (hi'.domain ▸ hd) (hi'.peerFd ▸ hpeer)
  exact ⟨j, hij.mono hi' (hsame j hij.peerUsed), .inl hij⟩

lemma pairsFrom_update (hp : Pairs S) (hx : (S k).SameEnd x) : PairsFrom S (update S k x) := by
  have hsame : ∀ m, (S m).SameEnd (update S k x m) := by
    intro m
    by_cases hm : m = k
    · rwa [hm, update_self]
    · exact .of_eq (update_of_ne hm ..)
  exact pairsFrom_of_same hp (fun m => (hsame m).used) fun m _ => hsame m

lemma pairsFrom_of_changed (hp : Pairs S) (C : ℕ → Prop)
    (hkept : ∀ k, ¬C k → (S k).SameEnd (S' k)) (hfree : ∀ k i, C k → ¬Paired S i k)
    (hnew : ∀ k < socketMax, C k → (S' k).used = true → 0 ≤ (S' k).peerFd →
      ∃ j, Paired S' k j ∧ (isNew S S' k = true ∨ isNew S S' j = true)) : PairsFrom S S' := by
  intro i hi hu hd hpeer
  by_cases hC : C i
  · obtain ⟨j, hij, hn⟩ := hnew i hi hC hu hpeer
    exact ⟨j, hij, .inr hn⟩
  have hi' := hkept i hC
  obtain ⟨j, hij⟩ := hp i hi (hi'.used ▸ hu) (hi'.domain ▸ hd) (hi'.peerFd ▸ hpeer)
  exact ⟨j, hij.mono hi' (hkept j fun hCj => hfree j i hCj hij), .inl hij⟩

lemma not_paired_of_unused (h : (S j).used = false) : ¬Paired S i j := by
  intro hij
  rw [hij.peerUsed] at h
  cases h

lemma not_paired_of_noPeer (h : (S j).peerFd < 0) : ¬Paired S i j := by
  intro hij
  have := socketFd_nonneg i
  rw [hij.back] at h
  omega

lemma pairsFrom_socket (hp : Pairs S) {domain type protocol : ℤ} (hi : (S i).used = false) :
    PairsFrom S (update S i (.opened pid domain type protocol)) := by
  refine pairsFrom_of_changed hp (· = i) ?_ ?_ ?_
  · intro k hk
    exact .of_eq (update_of_ne hk ..)
  · rintro k m rfl
    exact not_paired_of_unused hi
  rintro k - rfl - hpeer
  rw [update_self] at hpeer
  exact absurd (show (0 : ℤ) ≤ -1 from hpeer) (by decide)

lemma pairsFrom_pair (hp : Pairs S) (hi : i < socketMax) (hj : j < socketMax) (hij : i ≠ j)
    (hiu : (S i).used = false) (hju : (S j).used = false) :
    PairsFrom S (update (update S i ((fresh pid).paired (socketFd j))) j
      ((fresh pid).paired (socketFd i))) := by
  generalize hS' : update (update S i _) j _ = S'
  have hSi : S' i = (fresh pid).paired (socketFd j) := by
    rw [← hS', update_of_ne hij, update_self]
  have hSj : S' j = (fresh pid).paired (socketFd i) := by
    rw [← hS', update_self]
  have hpair : Paired S' i j := by
    refine ⟨hi, hj, hij, ?_, ?_, ?_, ?_, ?_, ?_⟩
    all_goals simp only [hSi, hSj]
    all_goals rfl
  refine pairsFrom_of_changed hp (fun k => k = i ∨ k = j) ?_ ?_ ?_
  · intro k hk
    rw [not_or] at hk
    rw [← hS', update_of_ne hk.2, update_of_ne hk.1]
    exact .refl _
  · rintro k m (rfl | rfl)
    · exact not_paired_of_unused hiu
    · exact not_paired_of_unused hju
  rintro k - (rfl | rfl) - -
  · exact ⟨j, hpair, .inl (isNew_of hiu hpair.used)⟩
  · exact ⟨i, hpair.symm, .inl (isNew_of hju hpair.peerUsed)⟩

lemma queuePending_sameEnd (h : x.queuePending fd = some y) : x.SameEnd y := by
  simp only [queuePending] at h
  split_ifs at h
  rw [← Option.some.inj h]
  exact ⟨rfl, rfl, rfl⟩

lemma popPending_sameEnd (h : x.popPending = some (fd, y)) : x.SameEnd y := by
  simp only [popPending] at h
  split_ifs at h
  rw [← (Prod.mk.inj (Option.some.inj h)).2]
  exact ⟨rfl, rfl, rfl⟩

lemma paired_peered (hs : s < socketMax) (ha : a < socketMax) (hsa : s ≠ a)
    (hsu : (S s).used = true) (hsd : (S s).domain = afUnix) : Paired (peered s l a S) s a := by
  have hPs : peered s l a S s =
      { S s with connected := true, peerClosed := false, peerFd := socketFd a } := by
    simp only [peered, upd_self, update_of_ne hsa]
  have hPa := peered_taken (S := S) (l := l) hsa
  refine ⟨hs, ha, hsa, ?_, ?_, ?_, ?_, ?_, ?_⟩
  all_goals simp only [hPs, hPa, hsu, hsd]
  all_goals rfl

lemma peered_of_ne (hs : k ≠ s) (ha : k ≠ a) : peered s l a S k = S k := by
  simp only [peered, upd_ne hs, update_of_ne ha]

lemma connected_sameEnd (hq : (peered s l a S l).queuePending (socketFd a) = some listener) :
    (peered s l a S k).SameEnd (update (peered s l a S) l listener k) := by
  by_cases hk : k = l
  · rw [hk, update_self]
    exact queuePending_sameEnd hq
  · exact .of_eq (update_of_ne hk ..)

lemma pairsFrom_connect (hp : Pairs S) (hc : connects pid op S = some (s, l, a)) (hfree : (S s).peerFd < 0)
    (hq : (peered s l a S l).queuePending (socketFd a) = some listener) :
    PairsFrom S (update (peered s l a S) l listener) := by
  have hcon := connects_spec hc
  obtain ⟨hal, hau⟩ := unusedSlot_eq_some hcon.taken
  have hend := fun k => connected_sameEnd (k := k) hq
  have hpair := (paired_peered (l := l) hcon.own.1 hal hcon.ne hcon.own.2.1
    (unixStream_iff.mp hcon.unix).1).mono (hend s) (hend a)
  refine pairsFrom_of_changed hp (fun k => k = s ∨ k = a) ?_ ?_ ?_
  · intro k hk
    rw [not_or] at hk
    have := hend k
    rwa [peered_of_ne hk.1 hk.2] at this
  · rintro k m (rfl | rfl)
    · exact not_paired_of_noPeer hfree
    · exact not_paired_of_unused hau
  rintro k - (rfl | rfl) - -
  · exact ⟨a, hpair, .inr (isNew_of hau hpair.peerUsed)⟩
  · exact ⟨s, hpair.symm, .inl (isNew_of hau hpair.peerUsed)⟩

lemma pairsFrom_full (hp : Pairs S) (hc : connects pid op S = some (s, l, a)) (hfree : (S s).peerFd < 0) :
    PairsFrom S (SockTable.upd (update (peered s l a S) a .zero) s
      ({ · with connected := false, peerFd := -1 })) := by
  have hau := (connects_spec hc).unused
  refine pairsFrom_of_changed hp (fun k => k = s ∨ k = a) ?_ ?_ ?_
  · intro k hk
    rw [not_or] at hk
    rw [upd_ne hk.1, update_of_ne hk.2, peered_of_ne hk.1 hk.2]
    exact .refl _
  · rintro k m (rfl | rfl)
    · exact not_paired_of_noPeer hfree
    · exact not_paired_of_unused hau
  intro k _ hk hused hpeer
  by_cases hks : k = s
  · rw [hks, upd_self] at hpeer
    exact absurd (show (0 : ℤ) ≤ -1 from hpeer) (by decide)
  rw [upd_ne hks, hk.resolve_left hks, update_self] at hused
  cases hused

lemma pairsFrom_leave (hp : Pairs S) (hplain : (S i).domain = afUnix → (S i).type = sockStream)
    (hkept : ∀ k ≠ i, S' k = tellPeer i S k)
    (hi : (S' i).used = true → (S' i).peerFd < 0) : PairsFrom S S' := by
  intro k hk hu hd hpeer
  have hki : k ≠ i := by
    rintro rfl
    have := hi hu
    omega
  have hal := tellPeer_alike i k S
  rw [hkept k hki] at hu hd hpeer
  obtain hsame | ⟨-, hgone⟩ := tellPeer_peerFd i k S
  · obtain ⟨j, hkj⟩ := hp k hk (hal.used ▸ hu) (hal.domain ▸ hd) (hsame ▸ hpeer)
    have hji : j ≠ i := by
      rintro rfl
      have hunix := unixStream_iff.mpr ⟨hkj.peerDomain, hplain hkj.peerDomain⟩
      rw [tellPeer_peer hunix hk hkj.used hkj.back hkj.peerFd] at hpeer
      exact absurd hpeer (by decide)
    -- the peer of `k` is not told, since it leads back to `k`
    have hj : (tellPeer i S j).peerFd = (S j).peerFd := by
      obtain hsame' | ⟨hback, -⟩ := tellPeer_peerFd i j S
      · exact hsame'
      · exact absurd (socketFd_inj (hkj.back.symm.trans hback)) hki
    have halj := tellPeer_alike i j S
    refine ⟨j, hkj.mono ?_ ?_, .inl hkj⟩
    · rw [hkept k hki]
      exact ⟨hal.used, hal.domain, hsame⟩
    rw [hkept j hji]
    exact ⟨halj.used, halj.domain, hj⟩
  rw [hgone] at hpeer
  exact absurd hpeer (by decide)

/-- **Peers stay peers**, as long as a socket that connects has none. -/
theorem pairs_step (hstep : SockStep pid op S r S') (hplain : Plain S) (hp : Pairs S)
    (hfree : ∀ s l a, connects pid op S = some (s, l, a) → (S s).peerFd < 0) : PairsFrom S S' := by
  cases hstep with
  | same r _ => exact pairsFrom_of_same hp (fun _ => rfl) fun k _ => .refl _
  | wipe r S' _ h =>
    refine pairsFrom_of_same hp (fun k => ?_) fun k hk => ?_
    · obtain h | ⟨hu, h⟩ := h k
      · rw [h]
      · rw [h, hu]
        rfl
    obtain h | ⟨hu, -⟩ := h k
    · exact .of_eq h
    rw [hk] at hu
    cases hu
  | quiet r i x _ _ hx => exact pairsFrom_update hp ⟨hx.used, hx.domain, hx.peerFd⟩
  | socket i domain type protocol _ _ hi _ => exact pairsFrom_socket hp (unusedSlot_eq_some hi).2
  | pair i j _ _ hi hj =>
    obtain ⟨hil, hiu⟩ := unusedSlot_eq_some hi
    obtain ⟨hjl, hju⟩ := unusedSlot_eq_some hj
    have hij : i ≠ j := by
      rintro rfl
      rw [update_self] at hju
      cases hju
    rw [update_of_ne hij.symm] at hju
    exact pairsFrom_pair hp hil hjl hij hiu hju
  | connect s l a listener hc _ hq => exact pairsFrom_connect hp hc (hfree s l a hc) hq
  | full s l a hc _ _ => exact pairsFrom_full hp hc (hfree s l a hc)
  | accept i fault child x _ _ _ hpop => exact pairsFrom_update hp (popPending_sameEnd hpop)
  | send i p data n x _ _ _ _ _ hp' hpu hpush =>
    have hx := rxPush_spec hpush (hplain p hp' hpu).2
    exact pairsFrom_update hp ⟨hx.2.2.2.1, hx.2.2.2.2.2.1, hx.2.2.2.2.2.2.2.1⟩
  | recv i len r _ _ _ => exact pairsFrom_update hp ⟨rfl, rfl, rfl⟩
  | shutdown i _ hown _ =>
    refine pairsFrom_leave hp (hplain i hown.1 hown.2.1).1 (fun k hk => upd_ne hk) ?_
    rw [upd_self]
    exact fun _ => Int.negSucc_lt_zero 0
  | close i _ hown =>
    refine pairsFrom_leave hp (hplain i hown.1 hown.2.1).1 (fun k hk => update_of_ne hk ..) ?_
    rw [closeSocket, update_self]
    rintro ⟨⟩

/-- What a call does to the buffer of a slot. -/
inductive BufStep (op : SockOp) (S S' : SockTable) (k : ℕ) : Prop
  /-- The slot has been taken; its buffer is empty. -/
  | new : (S k).used = false → (S' k).rxLen = 0 →
      ((S' k).domain = afUnix → (S' k).type = sockStream) → BufStep op S S' k
  /-- The first `n` bytes have been read. -/
  | drop (n : ℕ) : (S k).used = true → (S' k).domain = (S k).domain → (S' k).type = (S k).type →
      n ≤ (S k).rxLen → (S' k).contents = (S k).contents.drop n →
      (S' k).rxLen = (S k).rxLen - n → BufStep op S S' k
  /-- Bytes have been sent on a socket whose peer is the slot. -/
  | push (i : ℕ) (data : List UInt8) : (S k).used = true → (S' k).domain = (S k).domain →
      (S' k).type = (S k).type → op.sendFd = socketFd i → i < socketMax → (S i).used = true →
      (S i).domain = afUnix → (S i).peerFd = socketFd k →
      (S' k).contents = (S k).contents ++ data → (S' k).rxLen = (S k).rxLen + data.length →
      (S' k).rxLen ≤ unixRxBuf → BufStep op S S' k

lemma KSocket.Alike.contents (h : x.Alike y) : y.contents = x.contents := by
  rw [KSocket.contents, h.rxBuf, h.rxHead, h.rxLen, KSocket.contents]

lemma bufStep_of_alike (h : (S k).Alike (S' k)) (hu : (S' k).used = true) : BufStep op S S' k :=
  .drop 0 (h.used ▸ hu) h.domain h.type (Nat.zero_le _) h.contents h.rxLen

lemma queuePending_buf (h : x.queuePending fd = some y) :
    y.type = x.type ∧ y.rxLen = x.rxLen ∧ y.contents = x.contents := by
  simp only [queuePending] at h
  split_ifs at h
  rw [← Option.some.inj h]
  exact ⟨rfl, rfl, rfl⟩

lemma popPending_buf (h : x.popPending = some (fd, y)) :
    y.type = x.type ∧ y.rxLen = x.rxLen ∧ y.contents = x.contents := by
  simp only [popPending] at h
  split_ifs at h
  rw [← (Prod.mk.inj (Option.some.inj h)).2]
  exact ⟨rfl, rfl, rfl⟩

lemma buf_step (hstep : SockStep pid op S r S') (hplain : Plain S)
    (hu : (S' k).used = true) : BufStep op S S' k := by
  have hk := hstep.slot k
  generalize hy : S' k = y at hk
  have hyu : y.used = true := hy ▸ hu
  cases hk with
  | alike _ hal => exact bufStep_of_alike (hy ▸ hal) hu
  | wiped => cases hyu
  | new _ _ hu' _ htype _ _ hlen => exact .new hu' (hy ▸ hlen) (hy ▸ htype)
  | queued _ _ _ hal hq =>
    have hend := queuePending_sameEnd hq
    obtain ⟨ht, hl, hcont⟩ := queuePending_buf hq
    refine .drop 0 ?_ ?_ ?_ (Nat.zero_le _) ?_ ?_
    · exact (hend.used.trans hal.used).symm.trans hyu
    · rw [hy, hend.domain, hal.domain]
    · rw [hy, ht, hal.type]
    · rw [hy, hcont, hal.contents, drop_zero]
    · rw [hy, hl, hal.rxLen, Nat.sub_zero]
  | popped _ _ _ hown _ hpop _ =>
    have hend := popPending_sameEnd hpop
    obtain ⟨ht, hl, hcont⟩ := popPending_buf hpop
    exact .drop 0 hown.2.1 (hy ▸ hend.domain) (hy ▸ ht) (Nat.zero_le _) (hy ▸ hcont) (hy ▸ hl)
  | pushed i n data _ hfd hown hunix hpeer hp hpu hpush =>
    obtain ⟨hcont, hl, hcap, -, -, hd, ht, -⟩ := rxPush_spec hpush (hplain k hp hpu).2
    exact .push i (data.take n) hpu (hy ▸ hd) (hy ▸ ht) hfd hown.1 hown.2.1
      (unixStream_iff.mp hunix).1 hpeer (hy ▸ hcont) (hy ▸ hl) (hy ▸ hcap)
  | read len _ hown =>
    obtain ⟨n, hn, -, hcont, hl⟩ := rxPop_spec len (S k)
    exact .drop n hown.2.1 (by rw [hy]; rfl) (by rw [hy]; rfl) hn (hy ▸ hcont) (hy ▸ hl)
  | closed => cases hyu

lemma plain_step (hstep : SockStep pid op S r S') (hplain : Plain S) : Plain S' := by
  intro k hk hu
  cases buf_step hstep hplain hu with
  | new _ hlen htype => exact ⟨htype, hlen ▸ Nat.zero_le _⟩
  | drop n hu' hd ht _ _ hl =>
    obtain ⟨htype, hcap⟩ := hplain k hk hu'
    rw [hd, ht, hl]
    exact ⟨htype, (Nat.sub_le ..).trans hcap⟩
  | push i data hu' hd ht _ _ _ _ _ _ _ hcap =>
    rw [hd, ht]
    exact ⟨(hplain k hk hu').1, hcap⟩

lemma newGen_of_used (h : (w.tab i).used = true) : w.newGen S' i = w.gen i := by
  rw [SockWatch.newGen, not_isNew h]
  rfl

lemma mem_newLinks (hi : i < socketMax) (hnew : isNew w.tab S' i = true) (hj : j < socketMax)
    (hpeer : (S' i).peerFd = socketFd j) :
    (w.newGen S' i, w.newGen S' j) ∈ w.newLinks S' ∧
      (w.newGen S' j, w.newGen S' i) ∈ w.newLinks S' := by
  have hidx : socketFdToIndex (S' i).peerFd = some j := socketFdToIndex_eq_some.mpr ⟨hj, hpeer⟩
  constructor
  all_goals
    refine mem_flatMap.mpr ⟨i, mem_range.mpr hi, ?_⟩
    simp [hnew, hidx]

lemma sym_observe (hsym : Sym w) (h : PairsFrom w.tab S') : Sym (w.observe op S') := by
  intro i hi hu hd hpeer
  obtain ⟨j, hij, hold | hnew | hnew⟩ := h i hi hu hd hpeer
  · obtain ⟨j', hij', hlink⟩ :=
      hsym i hi hold.used hold.domain (hold.peerFd ▸ socketFd_nonneg j)
    obtain rfl := hold.eq_of_peerFd hij'.peerFd
    refine ⟨j', hij, mem_append_left _ ?_⟩
    change (w.newGen S' i, w.newGen S' j') ∈ w.links
    rwa [newGen_of_used hold.used, newGen_of_used hold.peerUsed]
  · exact ⟨j, hij, mem_append_right _ (mem_newLinks hi hnew hij.right hij.peerFd).1⟩
  · exact ⟨j, hij, mem_append_right _ (mem_newLinks hij.right hnew hi hij.back).2⟩

lemma Sym.pairs (h : Sym w) : Pairs w.tab := by
  intro i hi hu hd hpeer
  obtain ⟨j, hij, -⟩ := h i hi hu hd hpeer
  exact ⟨j, hij⟩

lemma length_contents (x : KSocket) : x.contents.length = x.rxLen := length_ringRead ..

lemma inbox_observe (hsym : Sym w) (hseen : (w.tab k).used = true → (w.inbox k).map Prod.snd = (w.tab k).contents)
    (hbuf : BufStep op w.tab S' k) (hu : (S' k).used = true) :
    ((w.observe op S').inbox k).map Prod.snd = (S' k).contents ∧
      ∀ x ∈ (w.observe op S').inbox k, (w.tab k).used = true ∧
        (x ∈ w.inbox k ∨ (x.1, w.gen k) ∈ w.links) := by
  simp only [SockWatch.observe]
  cases hbuf with
  | new hu' hlen _ =>
    have hnil : (S' k).contents = [] := by
      rw [← length_eq_zero_iff, length_contents, hlen]
    rw [if_pos (isNew_of hu' hu), hnil]
    exact ⟨rfl, nofun⟩
  | drop n hu' _ _ hn hcont hl =>
    have hlt : ¬(w.tab k).rxLen < (S' k).rxLen := by omega
    have hsub : (w.tab k).rxLen - (S' k).rxLen = n := by omega
    rw [not_isNew hu', if_neg Bool.false_ne_true, if_neg hlt, hsub, hcont, map_drop, hseen hu']
    exact ⟨rfl, fun x hx => ⟨hu', .inl (mem_of_mem_drop hx)⟩⟩
  | push i data hu' _ _ hfd hi hiu hid hip hcont hl _ =>
    have hdrop : (S' k).contents.drop (w.tab k).rxLen = data := by
      rw [hcont, drop_left' (length_contents _)]
    rw [not_isNew hu', if_neg Bool.false_ne_true]
    split_ifs with hlt
    · refine ⟨?_, ?_⟩
      · rw [hdrop, map_append, hseen hu', hcont, map_map]
        exact congrArg _ (map_id _)
      · intro x hx
        refine ⟨hu', ?_⟩
        obtain hx | hx := mem_append.mp hx
        · exact .inl hx
        -- the peer of the socket the byte is sent on is the slot
        obtain ⟨j, hij, hlink⟩ := hsym i hi hiu hid (hip ▸ socketFd_nonneg k)
        obtain rfl := hij.eq_of_peerFd hip
        obtain ⟨b, -, rfl⟩ := mem_map.mp hx
        right
        have hidx : socketFdToIndex op.sendFd = some i := socketFdToIndex_eq_some.mpr ⟨hi, hfd⟩
        simp only [SockWatch.sender, hidx]
        exact hlink
    have hnil : data = [] := by
      rw [← length_eq_zero_iff]
      omega
    have hsub : (w.tab k).rxLen - (S' k).rxLen = 0 := by omega
    rw [hsub, drop_zero, hcont, hnil, append_nil, hseen hu']
    exact ⟨rfl, fun x hx => ⟨hu', .inl hx⟩⟩

lemma PeerOk.step (h : PeerOk w) (hplain : Plain w.tab) {o : ℕ × SockOp}
    (hfree : ConnectsFree o w) : PeerOk (sockWatchStep o w).2 := by
  have hstep := perform_step o.1 o.2 w.tab
  have hpairs := pairs_step hstep hplain h.sym.pairs hfree
  have hbuf := fun k hu => buf_step (k := k) hstep hplain hu
  refine ⟨sym_observe h.sym hpairs, ?_, ?_⟩
  · intro k hk hu
    exact (inbox_observe h.sym (h.seen k hk) (hbuf k hu) hu).1
  intro k hk hu x hx
  obtain ⟨hu', hx'⟩ := (inbox_observe h.sym (h.seen k hk) (hbuf k hu) hu).2 x hx
  refine mem_append_left _ ?_
  change (x.1, w.newGen _ k) ∈ w.links
  rw [newGen_of_used hu']
  exact hx'.elim (h.sent k hk hu' x) id

lemma connect_leaves (hstep : SockStep pid op S r S') {q : ℕ}
    (hc : connects pid op S = some (s, l, a)) (hqs : q ≠ s) (hqa : q ≠ a) :
    (S q).SameEnd (S' q) ∧ ((S' s).peerFd = socketFd a ∨ (S' s).peerFd = -1) := by
  have hPs : (peered s l a S s).peerFd = socketFd a := by
    simp only [peered, upd_self]
  obtain ⟨listener, -, hq, rfl⟩ | ⟨-, rfl⟩ := hstep.connect_cases hc
  · have hendq := connected_sameEnd (k := q) hq
    rw [peered_of_ne hqs hqa] at hendq
    exact ⟨hendq, .inl ((connected_sameEnd hq).peerFd.trans hPs)⟩
  rw [upd_self, upd_ne hqs, update_of_ne hqa, peered_of_ne hqs hqa]
  exact ⟨.refl _, .inr rfl⟩

lemma PeerOk.connectsFree_of_step (h : PeerOk w) {o : ℕ × SockOp}
    (h' : PeerOk (sockWatchStep o w).2) : ConnectsFree o w := by
  intro s l a hc
  by_contra hpeer
  have hcon := connects_spec hc
  obtain ⟨q, hsq, -⟩ := h.sym s hcon.own.1 hcon.own.2.1 (unixStream_iff.mp hcon.unix).1 (not_lt.mp hpeer)
  have hqa : q ≠ a := by
    rintro rfl
    have hau := hcon.unused
    rw [hsq.peerUsed] at hau
    cases hau
  -- the old peer still names `s`, which names another slot or none
  obtain ⟨hend, hsnow⟩ := connect_leaves (perform_step o.1 o.2 w.tab) hc hsq.ne.symm hqa
  obtain ⟨j, hqj, -⟩ := h'.sym q hsq.right (hend.used.trans hsq.peerUsed)
    (hend.domain.trans hsq.peerDomain) (hend.peerFd.trans hsq.back ▸ socketFd_nonneg s)
  obtain rfl := hqj.eq_of_peerFd (hend.peerFd.trans hsq.back)
  obtain hsa | hnone := hsnow
  · exact hqa (socketFd_inj (hqj.back.symm.trans hsa))
  · exact absurd (hnone.symm.trans hqj.back) (by have := socketFd_nonneg q; omega)

lemma peerOk_init : PeerOk SockWatch.init ∧ Plain SockWatch.init.tab :=
  ⟨⟨nofun, nofun, nofun⟩, nofun⟩

/-- **Peers name each other, and bytes stay between sockets that have been connected**, in every state
of a run from the empty table, just when no call of the run connects a socket that has a peer. -/
theorem peer_run_symmetric (ops : List (ℕ × SockOp)) :
    (∀ pre, pre <+: ops → PeerOk (runOps sockWatchStep pre SockWatch.init).2) ↔
      Along sockWatchStep ConnectsFree ops SockWatch.init := by
  have hplain : ∀ o (w : SockWatch), Plain w.tab → Plain (sockWatchStep o w).2.tab :=
    fun o w h => plain_step (perform_step o.1 o.2 w.tab) h
  have hrun := forall_prefix_iff_along (fun w => PeerOk w ∧ Plain w.tab)
    (fun o w h => ⟨fun h' => h.1.connectsFree_of_step h'.1,
      fun hfree => ⟨h.1.step h.2 hfree, hplain o w h.2⟩⟩) ops peerOk_init
  rw [← hrun]
  refine ⟨fun h pre hpre => ⟨h pre hpre, ?_⟩, fun h pre hpre => (h pre hpre).1⟩
  exact runOps_inv (fun w : SockWatch => Plain w.tab) hplain pre peerOk_init.2

/-- A client connects twice and closes its socket; a stranger gets its slot, and reads what the server
sends on the first connection. -/
theorem reconnect_leaks_bytes : let addr : UserAddr := ⟨true, false, afUnix, [47], 0⟩
    let run := runOps sockWatchStep [(7, .socket afUnix sockStream 0 true), (7, .bind 512 addr),
      (7, .listen 512), (8, .socket afUnix sockStream 0 true), (8, .connect 513 addr (.ok 0)),
      (8, .connect 513 addr (.ok 0)), (7, .accept 512 false), (8, .close 513),
      (9, .socket afUnix sockStream 0 true), (7, .sendto 514 (some [104, 105]) false (0, true)),
      (9, .recvfrom 513 8 false false 0)] SockWatch.init
    run.1 = [(512, []), (0, []), (0, []), (513, []), (0, []), (0, []), (514, []), (0, []), (513, []),
      (2, []), (2, [104, 105])] ∧ ¬Sym run.2 := by
  refine ⟨by decide +kernel, fun h => ?_⟩
  obtain ⟨j, hj, -⟩ := h 2 (by decide) (by decide +kernel) (by decide +kernel) (by decide +kernel)
  obtain rfl : j = 1 := socketFd_inj (hj.peerFd.symm.trans (by decide +kernel))
  exact absurd hj.back (by decide +kernel)

end Obelisk
