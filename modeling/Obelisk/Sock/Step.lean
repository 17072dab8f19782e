import Obelisk.Sock.Model

/-!
# What a socket call can do

`perform_step` says once what each socket call does to `socket_table`: it is one of the transitions
of `SockStep`.
-/

namespace Obelisk

open KLib Function List Option SockTable KSocket

variable {f : KSocket → KSocket} {x y : KSocket} {a l s : ℕ} {addr : UserAddr} {inet : Except ℤ ℕ}
variable {op : SockOp} {S' : SockTable}
variable {fd : ℤ}

def Owned (pid i : ℕ) (S : SockTable) : Prop :=
  i < socketMax ∧ (S i).used = true ∧ (S i).ownerPid = pid

variable {pid i j : ℕ} {fd : ℤ} {S : SockTable}

lemma SockTable.upd_self : S.upd i f i = f (S i) :=
  update_self ..

lemma SockTable.upd_ne (h : j ≠ i) : S.upd i f j = S j :=
  update_of_ne h ..

def isNew (S S' : SockTable) (i : ℕ) : Bool := !(S i).used && (S' i).used

lemma isNew_of (h : (S i).used = false) (h' : (S' i).used = true) : isNew S S' i = true := by
  rw [isNew, h, h']
  rfl

lemma not_isNew (h : (S i).used = true) : isNew S S' i = false := by
  rw [isNew, h]
  rfl

lemma socketFd_inj (h : socketFd i = socketFd j) : i = j := by
  rw [socketFd, socketFd] at h
  omega

lemma socketFd_nonneg (i : ℕ) : 0 ≤ socketFd i := by
  rw [socketFd, socketFdBase]
  omega

lemma socketFdToIndex_eq_some : socketFdToIndex fd = some i ↔ i < socketMax ∧ fd = socketFd i := by
  rw [socketFdToIndex, socketFd]
  split_ifs with h
  · rw [some.injEq]
    omega
  constructor
  · exact nofun
  · omega

lemma socketGetAny_eq_some :
    socketGetAny fd S = some i ↔ i < socketMax ∧ fd = socketFd i ∧ (S i).used = true := by
  rw [socketGetAny, filter_eq_some_iff, socketFdToIndex_eq_some, and_assoc]

lemma socketGetOwned_eq_some : socketGetOwned pid fd S = some i ↔ fd = socketFd i ∧ Owned pid i S := by
  rw [socketGetOwned, filter_eq_some_iff, socketFdToIndex_eq_some, Bool.and_eq_true, beq_iff_eq, Owned]
  tauto

lemma unusedSlot_eq_some (h : unusedSlot S = some i) : i < socketMax ∧ (S i).used = false :=
  ⟨mem_range.mp (mem_of_find?_eq_some h), by simpa using find?_some h⟩

lemma findListener_eq_some {path : List UInt8} (h : findListener path S = some i) :
    i < socketMax ∧ (S i).used = true ∧ (S i).domain = afUnix := by
  have hmem := mem_range.mp (mem_of_find?_eq_some h)
  have hfound := find?_some h
  simp only [Bool.and_eq_true, beq_iff_eq] at hfound
  exact ⟨hmem, hfound.1.1.1.1, hfound.1.1.1.2⟩

lemma unixStream_iff : x.unixStream = true ↔ x.domain = afUnix ∧ x.type = sockStream := by
  rw [unixStream, Bool.and_eq_true, beq_iff_eq, beq_iff_eq]

/-! ## The transitions -/

/-- The slots of a `sys_connect` that gets as far as taking a slot: the socket, the listener and the
slot it takes. -/
def connects (pid : ℕ) (op : SockOp) (S : SockTable) : Option (ℕ × ℕ × ℕ) :=
  match op with
  | .connect fd addr _ =>
    match socketGetOwned pid fd S with
    | none => none
    | some s =>
      if (S s).unixStream then
        match addr.connectPath with
        | .error _ => none
        | .ok path =>
          match findListener path S with
          | none => none
          | some l => (unusedSlot S).map fun a => (s, l, a)
      else none
  | _ => none

/-- A `connect` that finds a listener and a slot. -/
structure Connecting (pid : ℕ) (S : SockTable) (s l a : ℕ) : Prop where
  own : Owned pid s S
  unix : (S s).unixStream = true
  taken : unusedSlot S = some a
  listener : l < socketMax
  listenerUsed : (S l).used = true

lemma Connecting.unused (h : Connecting pid S s l a) : (S a).used = false :=
  (unusedSlot_eq_some h.taken).2

lemma Connecting.ne (h : Connecting pid S s l a) : s ≠ a := by
  rintro rfl
  have := h.unused
  rw [h.own.2.1] at this
  cases this

lemma connects_spec (h : connects pid op S = some (s, l, a)) : Connecting pid S s l a := by
  cases op with
  | connect fd addr inet =>
    simp only [connects] at h
    cases hs : socketGetOwned pid fd S with
    | none => simp [hs] at h
    | some s' =>
      simp only [hs] at h
      by_cases hunix : (S s').unixStream = true
      · rw [if_pos hunix] at h
        cases hpath : addr.connectPath with
        | error e => simp [hpath] at h
        | ok path =>
          simp only [hpath] at h
          cases hl : findListener path S with
          | none => simp [hl] at h
          | some l' =>
            simp only [hl, map_eq_some_iff, Prod.mk.injEq] at h
            obtain ⟨a', ha, rfl, rfl, rfl⟩ := h
            obtain ⟨hlt, hlu, -⟩ := findListener_eq_some hl
            exact ⟨(socketGetOwned_eq_some.mp hs).2, hunix, ha, hlt, hlu⟩
      rw [if_neg hunix] at h
      cases h
  | _ => cases h

def socketArgs (domain type protocol : ℤ) (netReady : Bool) : Prop :=
  domain = afUnix ∧ type = sockStream ∧ protocol = 0 ∨
  domain = afInet ∧ netReady = true ∧ (type = sockRaw ∧ (protocol = 0 ∨ protocol = ipprotoIcmp) ∨
      type = sockDgram ∧ (protocol = 0 ∨ protocol = ipprotoUdp) ∨
      type = sockStream ∧ (protocol = 0 ∨ protocol = ipprotoTcp))

instance (domain type protocol : ℤ) (netReady : Bool) :
    Decidable (socketArgs domain type protocol netReady) :=
  inferInstanceAs (Decidable (_ ∨ _))

def takes (pid : ℕ) (op : SockOp) (S : SockTable) : List (ℕ × ℕ) :=
  match op with
  | .socket domain type protocol netReady =>
    if socketArgs domain type protocol netReady then (unusedSlot S).toList.map (·, pid) else []
  | .socketpair domain type protocol sv copied =>
    if sv ∧ domain = afUnix ∧ type = sockStream ∧ protocol = 0 ∧ copied then
      match unusedSlot S with
      | none => []
      | some i =>
        match unusedSlot (update S i (.fresh pid)) with
        | none => []
        | some j => [(i, pid), (j, pid)]
    else []
  | op =>
    match connects pid op S with
    | some (_, l, a) =>
      -- the connection stays only if there is room in the queue of the listener
      if ((S l).pendingHead + 1) % unixPendingMax = (S l).pendingTail then []
      else [(a, (S l).ownerPid)]
    | none => []

/-- The call connects nothing and takes no slot. -/
structure Idle (pid : ℕ) (op : SockOp) (S : SockTable) : Prop where
  connects : connects pid op S = none
  takes : takes pid op S = []

def SockOp.sendFd : SockOp → ℤ
  | .sendto fd .. => fd
  | .write fd .. => fd
  | _ => -1

/-- The same owner, kind and buffers. -/
structure KSocket.Alike (x y : KSocket) : Prop where
  used : y.used = x.used
  ownerPid : y.ownerPid = x.ownerPid
  domain : y.domain = x.domain
  type : y.type = x.type
  pendingFds : y.pendingFds = x.pendingFds
  pendingHead : y.pendingHead = x.pendingHead
  pendingTail : y.pendingTail = x.pendingTail
  rxBuf : y.rxBuf = x.rxBuf
  rxHead : y.rxHead = x.rxHead
  rxLen : y.rxLen = x.rxLen

/-- The slot changes in nothing that the results below look at. -/
structure KSocket.Quiet (x y : KSocket) : Prop extends KSocket.Alike x y where
  peerFd : y.peerFd = x.peerFd

lemma KSocket.Alike.refl (x : KSocket) : x.Alike x := by
  constructor <;> rfl

lemma KSocket.Alike.trans {z : KSocket} (h : x.Alike y) (h' : y.Alike z) : x.Alike z :=
  ⟨h'.used.trans h.used, h'.ownerPid.trans h.ownerPid, h'.domain.trans h.domain,
    h'.type.trans h.type, h'.pendingFds.trans h.pendingFds, h'.pendingHead.trans h.pendingHead,
    h'.pendingTail.trans h.pendingTail, h'.rxBuf.trans h.rxBuf, h'.rxHead.trans h.rxHead,
    h'.rxLen.trans h.rxLen⟩

def KSocket.opened (pid : ℕ) (domain type protocol : ℤ) : KSocket :=
  { KSocket.fresh pid with domain := domain, type := type, protocol := protocol }

def peered (s l a : ℕ) (S : SockTable) : SockTable :=
  let S : SockTable := update S a ((KSocket.fresh (S l).ownerPid).paired (socketFd s))
  S.upd s ({ · with connected := true, peerClosed := false, peerFd := socketFd a })

/-- What the calls do to the table. -/
inductive SockStep (pid : ℕ) (op : SockOp) (S : SockTable) : ℤ × List UInt8 → SockTable → Prop
  | same (r : ℤ) : Idle pid op S → SockStep pid op S (r, []) S
  | wipe (r : ℤ) (S' : SockTable) : Idle pid op S →
      (∀ k, S' k = S k ∨ (S k).used = false ∧ S' k = .zero) → SockStep pid op S (r, []) S'
  | quiet (r : ℤ) (i : ℕ) (x : KSocket) : Idle pid op S → Owned pid i S →
      (S i).Quiet x → SockStep pid op S (r, []) (update S i x)
  | socket (i : ℕ) (domain type protocol : ℤ) : connects pid op S = none →
      takes pid op S = [(i, pid)] → unusedSlot S = some i →
      (domain = afUnix → type = sockStream) →
      SockStep pid op S (socketFd i, []) (update S i (.opened pid domain type protocol))
  | pair (i j : ℕ) : connects pid op S = none → takes pid op S = [(i, pid), (j, pid)] → unusedSlot S = some i →
      unusedSlot (update S i (.fresh pid)) = some j →
      SockStep pid op S (0, []) (update (update S i ((KSocket.fresh pid).paired (socketFd j))) j
        ((KSocket.fresh pid).paired (socketFd i)))
  | connect (s l a : ℕ) (listener : KSocket) : connects pid op S = some (s, l, a) →
      takes pid op S = [(a, (S l).ownerPid)] →
      ((peered s l a S) l).queuePending (socketFd a) = some listener →
      SockStep pid op S (0, []) (update (peered s l a S) l listener)
  | full (s l a : ℕ) : connects pid op S = some (s, l, a) → takes pid op S = [] →
      ((peered s l a S) l).queuePending (socketFd a) = none →
      SockStep pid op S (eAgain, []) (SockTable.upd (update (peered s l a S) a .zero) s
        ({ · with connected := false, peerFd := -1 }))
  | accept (i : ℕ) (fault : Bool) (child : ℤ) (x : KSocket) : op = .accept (socketFd i) fault →
      Owned pid i S → (S i).unixStream = true → (S i).popPending = some (child, x) →
      SockStep pid op S (if fault then eFault else child, []) (update S i x)
  | send (i p : ℕ) (data : List UInt8) (n : ℕ) (x : KSocket) : Idle pid op S →
      op.sendFd = socketFd i → Owned pid i S → (S i).unixStream = true → (S i).peerFd = socketFd p →
      p < socketMax → (S p).used = true → (S p).rxPush data = some (n, x) →
      SockStep pid op S (n, []) (update S p x)
  | recv (i len : ℕ) (r : ℤ × List UInt8) : Idle pid op S → Owned pid i S → (r.2 = [] ∨ r.2 = ((S i).rxPop len).1) →
      SockStep pid op S r (update S i ((S i).rxPop len).2)
  | shutdown (i : ℕ) : Idle pid op S → Owned pid i S → (S i).unixStream = true →
      SockStep pid op S (0, []) ((tellPeer i S).upd i
        ({ · with peerClosed := true, connected := false, peerFd := -1 }))
  | close (i : ℕ) : op = .close (socketFd i) → Owned pid i S → SockStep pid op S (0, []) (closeSocket i S)

lemma SockStep.connect_cases {r : ℤ × List UInt8}
    (h : SockStep pid op S r S') (hc : connects pid op S = some (s, l, a)) :
    (∃ listener, takes pid op S = [(a, (S l).ownerPid)] ∧
      ((peered s l a S) l).queuePending (socketFd a) = some listener ∧
      S' = update (peered s l a S) l listener) ∨
    takes pid op S = [] ∧ S' = upd (update (peered s l a S) a .zero) s
      ({ · with connected := false, peerFd := -1 }) := by
  cases h with
  | connect s' l' a' listener hc' ht hq =>
    obtain ⟨rfl, rfl, rfl⟩ : s' = s ∧ l' = l ∧ a' = a := by simpa using hc'.symm.trans hc
    exact .inl ⟨listener, ht, hq, rfl⟩
  | full s' l' a' hc' ht _ =>
    obtain ⟨rfl, rfl, rfl⟩ : s' = s ∧ l' = l ∧ a' = a := by simpa using hc'.symm.trans hc
    exact .inr ⟨ht, rfl⟩
  | accept _ _ _ _ hop _ _ _ | close _ hop _ =>
    rw [hop] at hc
    cases hc
  | socket i domain type protocol hnone _ _ _ => cases hnone.symm.trans hc
  | pair i j hnone _ _ _ => cases hnone.symm.trans hc
  | same _ hidle => cases hidle.connects.symm.trans hc
  | wipe _ _ hidle _ => cases hidle.connects.symm.trans hc
  | quiet _ _ _ hidle _ _ => cases hidle.connects.symm.trans hc
  | send _ _ _ _ _ hidle _ _ _ _ _ _ _ => cases hidle.connects.symm.trans hc
  | recv _ _ _ hidle _ _ => cases hidle.connects.symm.trans hc
  | shutdown _ hidle _ _ => cases hidle.connects.symm.trans hc

lemma tellPeer_cases (i k : ℕ) (S : SockTable) :
    tellPeer i S k = S k ∨ tellPeer i S k = (S k).peerGone (socketFd i) := by
  rw [tellPeer]
  split_ifs
  · cases hp : socketGetAny (S i).peerFd S with
    | none => exact .inl rfl
    | some p =>
      dsimp only
      by_cases hk : k = p
      · exact .inr (by rw [hk, upd_self])
      · exact .inl (upd_ne hk)
  · exact .inl rfl

lemma tellPeer_alike (i k : ℕ) (S : SockTable) : (S k).Alike (tellPeer i S k) := by
  rcases tellPeer_cases i k S with h | h <;> rw [h]
  · exact .refl _
  rw [peerGone]
  split_ifs <;> constructor <;> rfl

lemma tellPeer_peerFd (i k : ℕ) (S : SockTable) : (tellPeer i S k).peerFd = (S k).peerFd ∨
    (S k).peerFd = socketFd i ∧ (tellPeer i S k).peerFd = -1 := by
  rcases tellPeer_cases i k S with h | h <;> rw [h]
  · exact .inl rfl
  rw [peerGone]
  split_ifs with hback
  · exact .inr ⟨hback, rfl⟩
  · exact .inl rfl

lemma tellPeer_peer (hunix : (S i).unixStream = true) (hj : j < socketMax)
    (hused : (S j).used = true) (hpeer : (S i).peerFd = socketFd j)
    (hback : (S j).peerFd = socketFd i) : (tellPeer i S j).peerFd = -1 := by
  have hnn : (0 : ℤ) ≤ (S i).peerFd := hpeer ▸ socketFd_nonneg j
  have hany : socketGetAny (S i).peerFd S = some j := socketGetAny_eq_some.mpr ⟨hj, hpeer, hused⟩
  rw [tellPeer, if_pos (by rw [hunix, Bool.true_and]; exact decide_eq_true hnn), hany]
  dsimp only
  rw [upd_self, peerGone, if_pos hback]

/-! ## The calls are such transitions -/

section Perform

variable {op : SockOp}

lemma openSocket_step (hc : connects pid op S = none)
    (ht : takes pid op S = (unusedSlot S).toList.map (·, pid)) {domain type : ℤ} (protocol : ℤ)
    (hd : domain = afUnix → type = sockStream) :
    SockStep pid op S ((openSocket pid domain type protocol S).1, [])
      (openSocket pid domain type protocol S).2 := by
  cases hslot : unusedSlot S with
  | none =>
    rw [hslot] at ht
    rw [openSocket, socketAllocSlot, hslot]
    exact .same _ ⟨hc, ht⟩
  | some i =>
    rw [hslot] at ht
    rw [openSocket, socketAllocSlot, hslot]
    dsimp only [map_some]
    rw [upd, update_self, update_idem]
    exact .socket i domain type protocol hc ht hslot hd

lemma sysSocket_eq (pid : ℕ) (S : SockTable) (domain type protocol : ℤ) (netReady : Bool) :
    (socketArgs domain type protocol netReady ∧ ∃ proto,
      sysSocket pid domain type protocol netReady S = openSocket pid domain type proto S) ∨
    ¬socketArgs domain type protocol netReady ∧
      ∃ e, sysSocket pid domain type protocol netReady S = (e, S) := by
  by_cases hunix : domain = afUnix
  · have hinet : domain ≠ afInet := by
      rw [hunix]
      decide
    by_cases hargs : type = sockStream ∧ protocol = 0
    · refine .inl ⟨.inl ⟨hunix, hargs⟩, 0, ?_⟩
      have htype : ¬(type ≠ sockRaw ∧ type ≠ sockDgram ∧ type ≠ sockStream) :=
        fun h => h.2.2 hargs.1
      rw [sysSocket, if_neg htype, if_pos hunix, if_neg (by tauto)]
    refine .inr ⟨?_, ?_⟩
    · rintro (h | h)
      · exact hargs h.2
      · exact hinet h.1
    rw [sysSocket]
    split_ifs
    · exact ⟨_, rfl⟩
    · exact ⟨_, rfl⟩
    · tauto
  by_cases hok : socketArgs domain type protocol netReady
  · refine .inl ⟨hok, ?_⟩
    obtain h | ⟨hinet, hready, h⟩ := hok
    · exact absurd h.1 hunix
    rw [sysSocket, hready]
    obtain ⟨rfl, hp⟩ | ⟨rfl, hp⟩ | ⟨rfl, hp⟩ := h
    all_goals
      obtain rfl | rfl := hp
      all_goals
        simp only [sockRaw, sockDgram, sockStream, ipprotoIcmp, ipprotoUdp, ipprotoTcp, hinet,
          if_false, if_true, ne_eq, not_true_eq_false, and_false, false_and, Bool.not_true,
          Bool.false_eq_true]
        exact ⟨_, rfl⟩
  refine .inr ⟨hok, ?_⟩
  rw [sysSocket, if_neg hunix]
  by_cases htype : type ≠ sockRaw ∧ type ≠ sockDgram ∧ type ≠ sockStream
  · exact ⟨_, if_pos htype⟩
  by_cases hinet : domain ≠ afInet
  · exact ⟨_, by rw [if_neg htype, if_pos hinet]⟩
  rw [if_neg htype, if_neg hinet]
  dsimp only
  generalize hown : (if type = sockRaw then ipprotoIcmp
    else if type = sockDgram then ipprotoUdp else ipprotoTcp) = own
  by_cases hproto : protocol ≠ 0 ∧ protocol ≠ own
  · exact ⟨_, if_pos hproto⟩
  rw [if_neg hproto]
  cases netReady with
  | false => exact ⟨_, rfl⟩
  | true =>
    -- every check has been passed, against `hok`
    exfalso
    refine hok (.inr ⟨not_not.mp hinet, rfl, ?_⟩)
    split_ifs at hown <;> grind

lemma sysSocket_step (domain type protocol : ℤ) (netReady : Bool) :
    SockStep pid (.socket domain type protocol netReady) S ((sysSocket pid domain type protocol netReady S).1, [])
      (sysSocket pid domain type protocol netReady S).2 := by
  obtain ⟨hargs, proto, h⟩ | ⟨hargs, e, h⟩ := sysSocket_eq pid S domain type protocol netReady
  · rw [h]
    have htakes : takes pid (.socket domain type protocol netReady) S =
        (unusedSlot S).toList.map (·, pid) := if_pos hargs
    refine openSocket_step rfl htakes proto fun hunix => ?_
    obtain h | h := hargs
    · exact h.2.1
    · exact absurd (hunix.symm.trans h.1) (by decide)
  rw [h]
  exact .same _ ⟨rfl, if_neg hargs⟩

lemma sysSocketpair_step (domain type protocol : ℤ) (sv copied : Bool) :
    SockStep pid (.socketpair domain type protocol sv copied) S
      ((sysSocketpair pid domain type protocol sv copied S).1, [])
      (sysSocketpair pid domain type protocol sv copied S).2 := by
  rw [sysSocketpair]
  by_cases hsv : (!sv) = true
  · rw [if_pos hsv]
    refine .same _ ⟨rfl, if_neg fun h => ?_⟩
    rw [h.1] at hsv
    cases hsv
  rw [if_neg hsv]
  have hsv' : sv = true := by simpa using hsv
  by_cases hbad : domain ≠ afUnix ∨ type ≠ sockStream ∨ protocol ≠ 0
  · rw [if_pos hbad]
    exact .same _ ⟨rfl, if_neg (by tauto)⟩
  rw [if_neg hbad]
  -- the slots are taken for good if the descriptors can be copied
  have htakes : takes pid (.socketpair domain type protocol sv copied) S = if copied then
      match unusedSlot S with
      | none => []
      | some i =>
        match unusedSlot (update S i (.fresh pid)) with
        | none => []
        | some j => [(i, pid), (j, pid)]
      else [] := by
    cases copied with
    | false => exact if_neg (by simp)
    | true => exact if_pos ⟨hsv', by tauto⟩
  have hgone : copied = false → takes pid (.socketpair domain type protocol sv copied) S = [] := by
    intro h
    rw [htakes, h]
    rfl
  cases hi : unusedSlot S with
  | none =>
    rw [hi] at htakes
    rw [socketAllocSlot, hi]
    exact .same _ ⟨rfl, by rw [htakes]; exact ite_self _⟩
  | some i =>
    have hiu := (unusedSlot_eq_some hi).2
    rw [hi] at htakes
    rw [socketAllocSlot, hi]
    dsimp only [map_some] at htakes ⊢
    cases hj : unusedSlot (update S i (.fresh pid)) with
    | none =>
      rw [hj] at htakes
      rw [socketAllocSlot, hj]
      dsimp only [map_none]
      rw [update_idem]
      refine .wipe _ _ ⟨rfl, by rw [htakes]; exact ite_self _⟩ fun k => ?_
      by_cases hk : k = i
      · rw [hk, update_self]
        exact .inr ⟨hiu, rfl⟩
      · exact .inl (update_of_ne hk ..)
    | some j =>
      have hjn := (unusedSlot_eq_some hj).2
      have hji : j ≠ i := by
        rintro rfl
        rw [update_self] at hjn
        cases hjn
      have hju : (S j).used = false := by
        rw [← hjn, update_of_ne hji]
      rw [hj] at htakes
      rw [socketAllocSlot, hj]
      dsimp only [map_some]
      cases copied with
      | false =>
        rw [Bool.not_false, if_pos rfl]
        refine .wipe _ _ ⟨rfl, hgone rfl⟩ fun k => ?_
        dsimp only
        by_cases hkj : k = j
        · rw [hkj, update_self]
          exact .inr ⟨hju, rfl⟩
        rw [update_of_ne hkj]
        by_cases hki : k = i
        · rw [hki, update_self]
          exact .inr ⟨hiu, rfl⟩
        left
        rw [update_of_ne hki, upd_ne hkj, upd_ne hki, update_of_ne hkj, update_of_ne hki]
      | true =>
        have heq : upd (upd (update (update S i (.fresh pid)) j (.fresh pid)) i (·.paired (socketFd j))) j
            (·.paired (socketFd i)) = update
            (update S i ((fresh pid).paired (socketFd j))) j
            ((fresh pid).paired (socketFd i)) := by
          funext k
          by_cases hkj : k = j
          · rw [hkj, upd_self, upd_ne hji, update_self, update_self]
          rw [upd_ne hkj, update_of_ne hkj]
          by_cases hki : k = i
          · rw [hki, upd_self, update_of_ne hji.symm, update_self, update_self]
          · rw [upd_ne hki, update_of_ne hkj, update_of_ne hki, update_of_ne hki]
        rw [Bool.not_true, if_neg Bool.false_ne_true, heq]
        exact .pair i j rfl htakes hi hj

lemma upd_step (hc : Idle pid op S) (r : ℤ) (hi : Owned pid i S) (hf : (S i).Quiet (f (S i))) :
    SockStep pid op S (r, []) (S.upd i f) :=
  .quiet r i _ hc hi hf

lemma sysBind_step (hc : Idle pid op S) (fd : ℤ) (addr : UserAddr) :
    SockStep pid op S ((sysBind pid fd addr S).1, []) (sysBind pid fd addr S).2 := by
  rw [sysBind]
  cases hi : socketGetOwned pid fd S with
  | none => exact .same _ hc
  | some i =>
    have hown := (socketGetOwned_eq_some.mp hi).2
    cases addr.check afUnix <;> cases addr.check afInet <;> dsimp only <;> split_ifs <;> dsimp only
    any_goals exact .same _ hc
    all_goals exact upd_step hc _ hown ⟨by constructor <;> rfl, rfl⟩

lemma sysListen_step (hc : Idle pid op S) (fd : ℤ) :
    SockStep pid op S ((sysListen pid fd S).1, []) (sysListen pid fd S).2 := by
  rw [sysListen]
  cases hi : socketGetOwned pid fd S with
  | none => exact .same _ hc
  | some i =>
    dsimp only
    split_ifs <;> dsimp only
    any_goals exact .same _ hc
    exact upd_step hc _ (socketGetOwned_eq_some.mp hi).2 ⟨by constructor <;> rfl, rfl⟩

lemma sysAccept_step (fd : ℤ) (fault : Bool) : SockStep pid (.accept fd fault) S ((sysAccept pid fd fault S).1, [])
      (sysAccept pid fd fault S).2 := by
  rw [sysAccept]
  cases hi : socketGetOwned pid fd S with
  | none => exact .same _ ⟨rfl, rfl⟩
  | some i =>
    obtain ⟨rfl, hown⟩ := socketGetOwned_eq_some.mp hi
    dsimp only
    by_cases hunix : (S i).unixStream = true
    · rw [if_pos hunix]
      cases hpop : (S i).popPending with
      | none => exact .same _ ⟨rfl, rfl⟩
      | some r => exact .accept i fault r.1 r.2 rfl hown hunix hpop
    rw [if_neg hunix]
    exact .same _ ⟨rfl, rfl⟩

lemma sysSendto_step (op : SockOp) (hc : Idle pid op S) (buf : Option (List UInt8)) (fault : Bool)
    (inet : ℤ × Bool) : SockStep pid op S ((sysSendto pid op.sendFd buf fault inet S).1, [])
      (sysSendto pid op.sendFd buf fault inet S).2 := by
  rw [sysSendto]
  cases hi : socketGetOwned pid op.sendFd S with
  | none => exact .same _ hc
  | some i =>
    obtain ⟨hfd, hown⟩ := socketGetOwned_eq_some.mp hi
    dsimp only
    by_cases hunix : (S i).unixStream = true
    · rw [if_pos hunix]
      split_ifs
      any_goals exact .same _ hc
      cases hp : socketGetAny (S i).peerFd S with
      | none => exact .same _ hc
      | some p =>
        obtain ⟨hlt, hpeer, hused⟩ := socketGetAny_eq_some.mp hp
        dsimp only
        cases hpush : (S p).rxPush ((buf.getD []).take 1024) with
        | none => exact .same _ hc
        | some r => exact .send i p _ r.1 r.2 hc hfd hown hunix hpeer hlt hused hpush
    rw [if_neg hunix]
    split_ifs <;> dsimp only
    any_goals exact .same _ hc
    exact upd_step hc _ hown ⟨by constructor <;> rfl, rfl⟩

lemma sysRecvfrom_step (hc : Idle pid op S) (fd : ℤ) (len : ℕ) (null fault : Bool)
    (inet : ℤ) : SockStep pid op S (sysRecvfrom pid fd len null fault inet S).1
      (sysRecvfrom pid fd len null fault inet S).2 := by
  rw [sysRecvfrom]
  cases hi : socketGetOwned pid fd S with
  | none => exact .same _ hc
  | some i =>
    have hown := (socketGetOwned_eq_some.mp hi).2
    dsimp only
    split_ifs
    any_goals exact .same _ hc
    all_goals
      split
      · exact .same _ hc
      · next got sock hne hpop =>
        have hrecv := fun r => @SockStep.recv pid op S i (min len 1024) r hc hown
        rw [hpop] at hrecv
        first | exact hrecv (eFault, []) (.inl rfl) | exact hrecv ((got.length : ℤ), got) (.inr rfl)

lemma sysShutdown_step (hc : Idle pid op S) (fd : ℤ) :
    SockStep pid op S ((sysShutdown pid fd S).1, []) (sysShutdown pid fd S).2 := by
  rw [sysShutdown]
  cases hi : socketGetOwned pid fd S with
  | none => exact .same _ hc
  | some i =>
    have hown := (socketGetOwned_eq_some.mp hi).2
    dsimp only
    split_ifs with hunix <;> dsimp only
    · exact .shutdown i hc hown hunix
    · exact upd_step hc _ hown ⟨by constructor <;> rfl, rfl⟩
    · exact .same _ hc

lemma idle_connect
    (h : connects pid (.connect fd addr inet) S = none) : Idle pid (.connect fd addr inet) S :=
  ⟨h, by simp only [takes, h]⟩

lemma queuePending_eq_none :
    x.queuePending fd = none ↔ (x.pendingHead + 1) % unixPendingMax = x.pendingTail := by
  rw [queuePending]
  split_ifs with h
  · exact iff_of_true rfl h
  · exact iff_of_false nofun h

lemma peered_alike {k : ℕ} (h : k ≠ a) : (S k).Alike (peered s l a S k) := by
  simp only [peered]
  by_cases hks : k = s
  · rw [← hks, upd_self, update_of_ne h]
    constructor <;> rfl
  rw [upd_ne hks, update_of_ne h]
  exact .refl _

lemma connectTo_step (hl : (S l).used = true) (h : connects pid (.connect fd addr inet) S =
      (unusedSlot S).map fun a => (s, l, a)) :
    SockStep pid (.connect fd addr inet) S ((connectTo s l S).1, []) (connectTo s l S).2 := by
  rw [connectTo, socketAllocSlot]
  cases ha : unusedSlot S with
  | none =>
    rw [ha] at h
    exact .same _ (idle_connect h)
  | some a =>
    rw [ha] at h
    dsimp only [map_some]
    have heq : upd (upd (update S a (.fresh (S l).ownerPid)) a (·.paired (socketFd s))) s
        ({ · with connected := true, peerClosed := false, peerFd := socketFd a }) =
        peered s l a S := by
      rw [peered]
      congr 1
      rw [upd, update_self, update_idem]
    rw [heq]
    have hla : l ≠ a := by
      rintro rfl
      rw [(unusedSlot_eq_some ha).2] at hl
      cases hl
    have hal := peered_alike (S := S) (s := s) (l := l) hla
    have hfull : (peered s l a S l).queuePending (socketFd a) = none ↔ _ := queuePending_eq_none
    rw [hal.pendingHead, hal.pendingTail] at hfull
    cases hq : ((peered s l a S) l).queuePending (socketFd a) with
    | none =>
      refine .full s l a h ?_ hq
      simp only [takes, h, map_some, if_pos (hfull.mp hq)]
    | some listener =>
      have hroom := hfull.not.mp (by rw [hq]; nofun)
      refine .connect s l a listener h ?_ hq
      simp only [takes, h, map_some, if_neg hroom]

lemma sysConnect_step (fd : ℤ) (addr : UserAddr) (inet : Except ℤ ℕ) :
    SockStep pid (.connect fd addr inet) S ((sysConnect pid fd addr inet S).1, [])
      (sysConnect pid fd addr inet S).2 := by
  rw [sysConnect]
  cases hs : socketGetOwned pid fd S with
  | none => exact .same _ (idle_connect (by simp only [connects, hs]))
  | some s =>
    have hown := (socketGetOwned_eq_some.mp hs).2
    dsimp only
    by_cases hunix : (S s).unixStream = true
    · rw [if_pos hunix]
      cases hpath : addr.connectPath with
      | error e =>
        exact .same _ (idle_connect (by simp only [connects, hs, hunix, if_true, hpath]))
      | ok path =>
        dsimp only
        cases hl : findListener path S with
        | none =>
          exact .same _ (idle_connect (by simp only [connects, hs, hunix, if_true, hpath, hl]))
        | some l =>
          exact connectTo_step (findListener_eq_some hl).2.1
            (by simp only [connects, hs, hunix, if_true, hpath, hl])
    have hc : Idle pid (.connect fd addr inet) S := idle_connect (by
      simp only [connects, hs, hunix, if_false, Bool.false_eq_true])
    rw [if_neg hunix]
    cases addr.check afInet with
    | some e =>
      dsimp only
      split_ifs <;> exact .same _ hc
    | none =>
      cases inet <;> dsimp only <;> split_ifs <;> dsimp only
      any_goals exact .same _ hc
      · exact upd_step hc _ hown ⟨by constructor <;> rfl, rfl⟩
      · rw [upd, upd, update_idem, update_self]
        exact .quiet _ s _ hc hown ⟨by constructor <;> rfl, rfl⟩

/-- Every socket call is one of the transitions. -/
theorem perform_step (pid : ℕ) (op : SockOp) (S : SockTable) :
    SockStep pid op S (op.perform pid S).1 (op.perform pid S).2 := by
  cases op with
  | socket domain type protocol netReady => exact sysSocket_step domain type protocol netReady
  | socketpair domain type protocol sv copied =>
    exact sysSocketpair_step domain type protocol sv copied
  | bind fd addr => exact sysBind_step ⟨rfl, rfl⟩ fd addr
  | listen fd => exact sysListen_step ⟨rfl, rfl⟩ fd
  | connect fd addr inet => exact sysConnect_step fd addr inet
  | accept fd fault => exact sysAccept_step fd fault
  | sendto fd buf fault inet =>
    exact sysSendto_step (.sendto fd buf fault inet) ⟨rfl, rfl⟩ buf fault inet
  | write fd buf fault inet =>
    have hsend : SockStep pid (.write fd buf fault inet) S ((sysSendto pid fd buf fault inet S).1, [])
        (sysSendto pid fd buf fault inet S).2 :=
      sysSendto_step (.write fd buf fault inet) ⟨rfl, rfl⟩ buf fault inet
    simp only [SockOp.perform, sysWrite]
    split
    · exact .same _ ⟨rfl, rfl⟩
    · exact .same _ ⟨rfl, rfl⟩
    split_ifs
    · exact hsend
    · exact .same _ ⟨rfl, rfl⟩
  | recvfrom fd len null fault inet => exact sysRecvfrom_step ⟨rfl, rfl⟩ fd len null fault inet
  | read fd len null fault inet =>
    simp only [SockOp.perform, sysRead]
    split_ifs
    · exact .same _ ⟨rfl, rfl⟩
    · exact sysRecvfrom_step ⟨rfl, rfl⟩ fd len null fault inet
  | shutdown fd => exact sysShutdown_step ⟨rfl, rfl⟩ fd
  | close fd =>
    simp only [SockOp.perform, sysCloseSocket]
    cases hi : socketGetOwned pid fd S with
    | none => exact .same _ ⟨rfl, rfl⟩
    | some i =>
      obtain ⟨rfl, hown⟩ := socketGetOwned_eq_some.mp hi
      exact .close i rfl hown

end Perform

/-- What a call does to a slot. -/
inductive SlotStep (pid : ℕ) (op : SockOp) (S S' : SockTable) (k : ℕ) : Prop
  | new : k < socketMax → (S k).used = false → (S' k).used = true →
      (∀ q, (k, q) ∈ takes pid op S ↔ q = (S' k).ownerPid) → SlotStep pid op S S' k
  | kept : (S' k).used = (S k).used → ((S k).used = true → (S' k).ownerPid = (S k).ownerPid) →
      (∀ q, (k, q) ∉ takes pid op S) → SlotStep pid op S S' k
  | closed : op = .close (socketFd k) → Owned pid k S → (S' k).used = false → SlotStep pid op S S' k

section Owners

variable {op : SockOp} {S' : SockTable} {r : ℤ × List UInt8} {k : ℕ}

lemma queuePending_owner (h : x.queuePending fd = some y) :
    y.used = x.used ∧ y.ownerPid = x.ownerPid := by
  simp only [queuePending] at h
  split_ifs at h
  rw [← some.inj h]
  exact ⟨rfl, rfl⟩

lemma popPending_owner (h : x.popPending = some (fd, y)) :
    y.used = x.used ∧ y.ownerPid = x.ownerPid := by
  simp only [popPending] at h
  split_ifs at h
  rw [← (Prod.mk.inj (some.inj h)).2]
  exact ⟨rfl, rfl⟩

lemma rxPush_owner {data : List UInt8} {n : ℕ}
    (h : x.rxPush data = some (n, y)) : y.used = x.used ∧ y.ownerPid = x.ownerPid := by
  simp only [rxPush] at h
  split_ifs at h
  · rw [← (Prod.mk.inj (some.inj h)).2]
    exact ⟨rfl, rfl⟩
  rw [← (Prod.mk.inj (some.inj h)).2]
  exact ⟨rfl, rfl⟩

lemma peered_taken (h : s ≠ a) :
    peered s l a S a = (fresh (S l).ownerPid).paired (socketFd s) := by
  simp only [peered, upd_ne h.symm, update_self]

/-- What a call can do to one slot. -/
inductive SlotChange (pid : ℕ) (op : SockOp) (S : SockTable) (r : ℤ × List UInt8) (k : ℕ) :
    KSocket → Prop
  | alike {y : KSocket} : (∀ q, (k, q) ∉ takes pid op S) → (S k).Alike y → SlotChange pid op S r k y
  | wiped : (∀ q, (k, q) ∉ takes pid op S) → (S k).used = false → SlotChange pid op S r k .zero
  | new {y : KSocket} : (∀ q, (k, q) ∈ takes pid op S ↔ q = y.ownerPid) → k < socketMax →
      (S k).used = false → y.used = true → (y.domain = afUnix → y.type = sockStream) →
      y.pendingHead = 0 → y.pendingTail = 0 → y.rxLen = 0 → SlotChange pid op S r k y
  | queued (fd : ℤ) {x y : KSocket} : (∀ q, (k, q) ∉ takes pid op S) → connects pid op S ≠ none →
      (S k).Alike x → x.queuePending fd = some y → SlotChange pid op S r k y
  | popped (fault : Bool) (child : ℤ) {y : KSocket} : op = .accept (socketFd k) fault →
      Owned pid k S → (S k).unixStream = true → (S k).popPending = some (child, y) →
      r.1 = (if fault then eFault else child) → SlotChange pid op S r k y
  | pushed (i n : ℕ) (data : List UInt8) {y : KSocket} : (∀ q, (k, q) ∉ takes pid op S) →
      op.sendFd = socketFd i → Owned pid i S → (S i).unixStream = true → (S i).peerFd = socketFd k →
      k < socketMax → (S k).used = true → (S k).rxPush data = some (n, y) → SlotChange pid op S r k y
  | read (len : ℕ) : (∀ q, (k, q) ∉ takes pid op S) → Owned pid k S → SlotChange pid op S r k ((S k).rxPop len).2
  | closed : op = .close (socketFd k) → Owned pid k S → SlotChange pid op S r k .zero

lemma SockStep.slot (h : SockStep pid op S r S') (k : ℕ) : SlotChange pid op S r k (S' k) := by
  have hnil : takes pid op S = [] → ∀ q, (k, q) ∉ takes pid op S :=
    fun ht q => ht ▸ not_mem_nil
  have hone : ∀ {i p}, takes pid op S = [(i, p)] → k ≠ i → ∀ q, (k, q) ∉ takes pid op S := by
    intro i p ht hk q hq
    rw [ht, mem_singleton] at hq
    exact hk (congrArg Prod.fst hq)
  have hupd : ∀ {r' i x}, takes pid op S = [] → (k = i → SlotChange pid op S r' k x) →
      SlotChange pid op S r' k (update S i x k) := by
    intro r' i x ht hx
    by_cases hk : k = i
    · rw [← hk, update_self]
      exact hx hk
    rw [update_of_ne hk]
    exact .alike (hnil ht) (.refl _)
  cases h with
  | same r hidle => exact .alike (hnil hidle.takes) (.refl _)
  | wipe r S' hidle h =>
    obtain h | ⟨hu, h⟩ := h k
    · exact h ▸ .alike (hnil hidle.takes) (.refl _)
    · exact h ▸ .wiped (hnil hidle.takes) hu
  | quiet r i x hidle _ hx =>
    exact hupd hidle.takes fun hk => .alike (hnil hidle.takes) (hk ▸ hx.toAlike)
  | socket i domain type protocol _ ht hi htype =>
    obtain ⟨hil, hiu⟩ := unusedSlot_eq_some hi
    by_cases hk : k = i
    · subst hk
      rw [update_self]
      refine .new (fun q => ?_) hil hiu rfl htype rfl rfl rfl
      rw [ht, mem_singleton, Prod.mk.injEq, and_iff_right rfl]
      rfl
    rw [update_of_ne hk]
    exact .alike (hone ht hk) (.refl _)
  | pair i j _ ht hi hj =>
    obtain ⟨hil, hiu⟩ := unusedSlot_eq_some hi
    obtain ⟨hjl, hju⟩ := unusedSlot_eq_some hj
    have hji : j ≠ i := by
      rintro rfl
      rw [update_self] at hju
      cases hju
    rw [update_of_ne hji] at hju
    by_cases hkj : k = j
    · subst hkj
      rw [update_self]
      refine .new (fun q => ?_) hjl hju rfl (fun _ => rfl) rfl rfl rfl
      simp [ht, hji, paired, fresh]
    rw [update_of_ne hkj]
    by_cases hki : k = i
    · subst hki
      rw [update_self]
      refine .new (fun q => ?_) hil hiu rfl (fun _ => rfl) rfl rfl rfl
      simp [ht, hji.symm, paired, fresh]
    rw [update_of_ne hki]
    exact .alike (fun q => by simp [ht, hkj, hki]) (.refl _)
  | connect s l a listener hc ht hq =>
    have hcon := connects_spec hc
    obtain ⟨hal, hau⟩ := unusedSlot_eq_some hcon.taken
    by_cases hka : k = a
    · subst hka
      have hkl : k ≠ l := by
        rintro rfl
        exact Bool.false_ne_true (hau.symm.trans hcon.listenerUsed)
      rw [update_of_ne hkl, peered_taken hcon.ne]
      refine .new (fun q => ?_) hal hau rfl (fun _ => rfl) rfl rfl rfl
      rw [ht, mem_singleton, Prod.mk.injEq, and_iff_right rfl]
      rfl
    by_cases hkl : k = l
    · subst hkl
      rw [update_self]
      exact .queued _ (hone ht hka) (by rw [hc]; nofun) (peered_alike hka) hq
    rw [update_of_ne hkl]
    exact .alike (hone ht hka) (peered_alike hka)
  | full s l a hc ht _ =>
    have hau := (connects_spec hc).unused
    have hsa := (connects_spec hc).ne
    by_cases hka : k = a
    · rw [hka, upd_ne hsa.symm, update_self, ← hka]
      exact .wiped (hnil ht) (hka ▸ hau)
    have hal := peered_alike (S := S) (s := s) (l := l) hka
    by_cases hks : k = s
    · subst hks
      rw [upd_self, update_of_ne hka]
      exact .alike (hnil ht) (hal.trans (by constructor <;> rfl))
    rw [upd_ne hks, update_of_ne hka]
    exact .alike (hnil ht) hal
  | accept i fault child x hop hown hunix hpop =>
    refine hupd (by rw [hop]; rfl) fun hk => ?_
    subst hk
    exact .popped fault child hop hown hunix hpop rfl
  | send i p data n x hidle hfd hown hunix hpeer hp hpu hpush =>
    refine hupd hidle.takes fun hk => ?_
    subst hk
    exact .pushed i n data (hnil hidle.takes) hfd hown hunix hpeer hp hpu hpush
  | recv i len r hidle hown _ =>
    refine hupd hidle.takes fun hk => ?_
    subst hk
    exact .read len (hnil hidle.takes) hown
  | shutdown i hidle _ _ =>
    have hal := tellPeer_alike i k S
    by_cases hk : k = i
    · subst hk
      rw [upd_self]
      exact .alike (hnil hidle.takes) (hal.trans (by constructor <;> rfl))
    rw [upd_ne hk]
    exact .alike (hnil hidle.takes) hal
  | close i hop hown =>
    rw [closeSocket]
    by_cases hk : k = i
    · subst hk
      rw [update_self]
      exact .closed hop hown
    rw [update_of_ne hk]
    exact .alike (hnil (by rw [hop]; rfl)) (tellPeer_alike i k S)

lemma slot_step (h : SockStep pid op S r S') (k : ℕ) : SlotStep pid op S S' k := by
  have hk := h.slot k
  generalize hy : S' k = y at hk
  cases hk with
  | alike hsp hal => exact .kept (hy ▸ hal.used) (fun _ => hy ▸ hal.ownerPid) hsp
  | wiped hsp hu =>
    refine .kept (by rw [hy, hu]; rfl) (fun hu' => ?_) hsp
    cases hu.symm.trans hu'
  | new ht hlt hu hyu _ _ _ _ => exact .new hlt hu (hy ▸ hyu) (hy ▸ ht)
  | queued _ hsp _ hal hq =>
    obtain ⟨hyu, hyo⟩ := queuePending_owner hq
    exact .kept (hy ▸ hyu.trans hal.used) (fun _ => hy ▸ hyo.trans hal.ownerPid) hsp
  | popped _ _ hop _ _ hpop _ =>
    obtain ⟨hyu, hyo⟩ := popPending_owner hpop
    exact .kept (hy ▸ hyu) (fun _ => hy ▸ hyo) (hop ▸ fun _ => not_mem_nil)
  | pushed _ _ _ hsp _ _ _ _ _ _ hpush =>
    obtain ⟨hyu, hyo⟩ := rxPush_owner hpush
    exact .kept (hy ▸ hyu) (fun _ => hy ▸ hyo) hsp
  | read len hsp _ => exact .kept (by rw [hy]; rfl) (fun _ => by rw [hy]; rfl) hsp
  | closed hop hown => exact .closed hop hown (by rw [hy]; rfl)

end Owners

end Obelisk
