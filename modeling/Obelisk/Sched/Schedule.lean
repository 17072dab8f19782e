import Obelisk.Sched.Policy

/-!
# Scheduling, waking and sleeping
-/

namespace Obelisk

open KLib Function List

variable {s t : Sched} {q : ℕ → List ℕ} {sl : List ℕ} {p i : ℕ}

/-- **The invariant of the scheduler**: the run queue is consistent, and the current process is not
queued and running. -/
structure SchedInv (s : Sched) (q : ℕ → List ℕ) (sl : List ℕ) : Prop extends QInv s q sl where
  curr_free : ∀ i, s.curr ∉ q i
  curr : s.curr = 0 ∨ (s.curr ∈ s.all ∧ (s.procs s.curr).state = .running)

/-- The current task and the clock stay. -/
structure SameTask (s t : Sched) : Prop where
  all : t.all = s.all
  curr : t.curr = s.curr
  idle : t.idle = s.idle
  clock : t.clock = s.clock
  needResched : t.needResched = s.needResched

lemma SameTask.refl (s : Sched) : SameTask s s := ⟨rfl, rfl, rfl, rfl, rfl⟩

lemma SameTask.trans {u : Sched} (h : SameTask s t) (h' : SameTask t u) : SameTask s u :=
  ⟨h'.all.trans h.all, h'.curr.trans h.curr, h'.idle.trans h.idle, h'.clock.trans h.clock,
    h'.needResched.trans h.needResched⟩

lemma rrEnqueue_same (p : ℕ) (s : Sched) : SameTask s (rrEnqueue p s) := by
  obtain ⟨-, h2, h3, h4, h5, h6⟩ := rrEnqueue_frame p s
  exact ⟨h2, h3, h4, h5, h6⟩

def parkedQ (s : Sched) (q : ℕ → List ℕ) : ℕ → List ℕ :=
  if s.parks then pushQ q (s.procs s.curr).priority.toNat s.curr else q

lemma park_same (s : Sched) : SameTask s (park s) := by
  unfold park
  split_ifs
  · exact ⟨(rrEnqueue_same ..).all, (rrEnqueue_same ..).curr, (rrEnqueue_same ..).idle,
      (rrEnqueue_same ..).clock, (rrEnqueue_same ..).needResched⟩
  · exact .refl s

lemma park_spec (h : QInv s q sl) (hfree : ∀ i, s.curr ∉ q i) (hc : s.curr = 0 ∨ s.curr ∈ s.all) :
    QInv (park s) (parkedQ s q) sl := by
  unfold park parkedQ
  split_ifs with hp
  · simp only [Sched.parks, Proc.schedulable, Bool.and_eq_true, bne_iff_ne, ne_eq, Bool.not_eq_true'] at hp
    obtain ⟨⟨⟨h0, hid⟩, -⟩, -, hex⟩ := hp
    have hself : (s.setState s.curr .ready).procs s.curr =
        { s.procs s.curr with state := .ready } := update_self ..
    have h' := h.setState (p := s.curr) .ready hfree (.inr hex)
    have := h'.enqueue (hc.resolve_left h0) hfree (by rw [hself]) (by rwa [hself]) hid
    rwa [hself] at this
  · exact h

lemma Selects.mem (h : QInv s q sl) {next : ℕ} (hs : Selects q s.idle next) :
    next ∈ s.all ∧ next ≠ 0 := by
  have hm : next ∈ s.all := by
    rcases hs with ⟨i, l, hq, -⟩ | ⟨-, rfl⟩
    · exact h.shape.run_mem i _ (hq ▸ mem_cons_self)
    · exact h.idle_mem
  exact ⟨hm, h.ne_zero _ hm⟩

def popQ (q : ℕ → List ℕ) (p : ℕ) : ℕ → List ℕ := fun i => (q i).erase p

lemma popQ_of_notMem (hp : ∀ i, p ∉ q i) : popQ q p = q := by
  funext i
  exact erase_of_not_mem (hp i)

section

variable (h : QInv s q sl)
include h

lemma QInv.popQ_eq (hp : p ∈ q i) : popQ q p = update q i ((q i).erase p) := by
  funext j
  by_cases hji : j = i
  · subst hji
    rw [update_self]
    rfl
  rw [update_of_ne hji]
  exact erase_of_not_mem fun hj => hji (h.shape.apart j i p hj hp)

lemma QInv.notMem_popQ (p i : ℕ) : p ∉ popQ q p i :=
  (h.shape.nodup_run i).not_mem_erase

lemma take_spec {next : ℕ} (hs : Selects q s.idle next) :
    let t := if next != 0 && next != s.idle && (s.procs next).state == .ready then rrDequeue next s
      else s
    QInv t (popQ q next) sl ∧ SameTask s t ∧ t.procs = s.procs := by
  intro t
  obtain ⟨h1, h2, h3, h4, h5, h6⟩ := rrDequeue_frame next s
  rcases hs with ⟨i, l, hq, -⟩ | ⟨hempty, rfl⟩
  · have hmem : next ∈ q i := hq ▸ mem_cons_self
    obtain ⟨hst, -, -, hid⟩ := h.queued i next hmem
    have h0 := h.ne_zero next (h.shape.run_mem i next hmem)
    have ht : t = rrDequeue next s := by simp [t, h0, hid, hst]
    rw [ht, h.popQ_eq hmem]
    exact ⟨h.dequeue hmem, ⟨h2, h3, h4, h5, h6⟩, h1⟩
  have ht : t = s := by simp [t]
  rw [ht, popQ_of_notMem fun i hi => by rw [hempty i] at hi; cases hi]
  exact ⟨h, .refl s, rfl⟩

lemma dispatch_spec {next : ℕ} (hs : Selects q s.idle next) :
    SchedInv (dispatch next s) (popQ q next) sl ∧ (dispatch next s).curr = next ∧
      (dispatch next s).needResched = false ∧ (dispatch next s).all = s.all ∧
      (dispatch next s).idle = s.idle ∧ (dispatch next s).clock = s.clock := by
  obtain ⟨hmem, h0⟩ := Selects.mem h hs
  have hex : next = s.idle ∨ (s.procs next).exiting = false := by
    rcases hs with ⟨i, l, hq, -⟩ | ⟨-, rfl⟩
    · exact .inr (h.queued i next (hq ▸ mem_cons_self)).2.1
    · exact .inl rfl
  obtain ⟨hq, hsame, hprocs⟩ := take_spec h hs
  have hnot := h.notMem_popQ next
  unfold dispatch
  dsimp only
  set t := if next != 0 && next != s.idle && (s.procs next).state == .ready then rrDequeue next s
    else s
  have hnext : (if next == 0 then t.idle else next) = next := by simp [h0]
  have hne : (next != 0) = true := by simpa using h0
  simp only [hnext, hne, Bool.true_and, if_true]
  -- setting the time slice and the state keeps the run queue
  set u := if decide ((t.procs next).timeSlice ≤ 0) = true then
    t.updProc next fun q => { q with timeSlice := rrTimeSlice q } else t
  have hu : QInv u (popQ q next) sl ∧ SameTask t u ∧
      (u.procs next).exiting = (s.procs next).exiting := by
    by_cases hts : decide ((t.procs next).timeSlice ≤ 0) = true
    · have hu : u = t.updProc next fun q => { q with timeSlice := rrTimeSlice q } := if_pos hts
      rw [hu]
      refine ⟨hq.setTimeSlice next _, ⟨rfl, rfl, rfl, rfl, rfl⟩, ?_⟩
      simp [Sched.updProc, hprocs]
    have hu : u = t := if_neg hts
    rw [hu, hprocs]
    exact ⟨hq, .refl t, rfl⟩
  obtain ⟨huq, husame, huex⟩ := hu
  have hidle : u.idle = s.idle := husame.idle.trans hsame.idle
  have hall : u.all = s.all := husame.all.trans hsame.all
  have hv := huq.setState (p := next) .running hnot (by rwa [hidle, huex])
  refine ⟨⟨⟨hv.shape, hv.queued, hv.count, hv.marked, hv.ne_zero, hv.priority, hv.idle_mem,
    hv.exiting⟩, hnot, .inr ⟨?_, ?_⟩⟩, trivial, trivial, hall, hidle, husame.clock.trans hsame.clock⟩
  · change next ∈ u.all
    rwa [hall]
  · simp [Sched.setState, Sched.updProc]

lemma schedule_eq_dispatch (hfree : ∀ i, s.curr ∉ q i)
    (hc : s.curr = 0 ∨ s.curr ∈ s.all) : (rrPickNext (park s)).1 ≠ 0 ∧
      schedule s = dispatch (rrPickNext (park s)).1 (rrPickNext (park s)).2 := by
  obtain ⟨bm, hr2, hpick, hsel⟩ := rrPickNext_spec (park_spec h hfree hc)
  set r := rrPickNext (park s) with hr
  have hid : r.2.idle = (park s).idle := by rw [hr2]
  rw [← hid] at hsel
  have hr0 : r.1 ≠ 0 := (Selects.mem hpick hsel).2
  have hsch : r.1 = r.2.idle ∨ (r.2.procs r.1).schedulable = true := by
    rcases hsel with ⟨i, l, hq, -⟩ | ⟨-, he⟩
    · obtain ⟨h1, h2, -⟩ := hpick.queued i r.1 (hq ▸ mem_cons_self)
      exact .inr (by simp [Proc.schedulable, h1, h2])
    · exact .inl he
  refine ⟨hr0, ?_⟩
  unfold schedule
  rw [← hr]
  have h1 : (if r.1 == 0 then r.2.idle else r.1) = r.1 := by simp [hr0]
  simp only [h1]
  congr 1
  rcases hsch with e | e <;> simp [e]

lemma schedule_spec (hfree : ∀ i, s.curr ∉ q i) (hc : s.curr = 0 ∨ s.curr ∈ s.all) :
    Selects (parkedQ s q) s.idle (schedule s).curr ∧
      SchedInv (schedule s) (popQ (parkedQ s q) (schedule s).curr) sl ∧
      (schedule s).needResched = false ∧ (schedule s).all = s.all ∧ (schedule s).idle = s.idle ∧
      (schedule s).clock = s.clock := by
  have hsame := park_same s
  obtain ⟨bm, hr2, hpick, hsel⟩ := rrPickNext_spec (park_spec h hfree hc)
  obtain ⟨-, hs⟩ := schedule_eq_dispatch h hfree hc
  set r := rrPickNext (park s)
  have hr2' : SameTask (park s) r.2 := by rw [hr2]; exact ⟨rfl, rfl, rfl, rfl, rfl⟩
  rw [← hr2'.idle] at hsel
  obtain ⟨hinv, hcurr, hnr, hall, hidle, hclock⟩ := dispatch_spec hpick hsel
  rw [hs, hcurr]
  refine ⟨?_, hinv, hnr, ?_, ?_, ?_⟩
  · rwa [hr2'.idle, hsame.idle] at hsel
  · rw [hall, hr2'.all, hsame.all]
  · rw [hidle, hr2'.idle, hsame.idle]
  · rw [hclock, hr2'.clock, hsame.clock]

end

lemma unlinkSleeper_same (p : ℕ) (s : Sched) : SameTask s (unlinkSleeper p s) := by
  unfold unlinkSleeper
  split_ifs <;> exact ⟨rfl, rfl, rfl, rfl, rfl⟩

lemma unlinkSleeper_procs (p r : ℕ) (s : Sched) : ((unlinkSleeper p s).procs r).state = (s.procs r).state ∧
      ((unlinkSleeper p s).procs r).exiting = (s.procs r).exiting ∧
      ((unlinkSleeper p s).procs r).priority = (s.procs r).priority ∧
      (r ≠ p → (unlinkSleeper p s).procs r = s.procs r) := by
  unfold unlinkSleeper
  split_ifs
  · by_cases hr : r = p
    · subst hr
      simp [Sched.updProc, Sched.setLinks]
    · simp [Sched.updProc, Sched.setLinks, update_of_ne hr]
  · simp

lemma QInv.delSleeper (h : QInv s q sl) (hp : p ∈ sl) :
    QInv (s.setLinks ((s.links.del (.sleep p)).init (.sleep p))) q (sl.erase p) := by
  rw [del_init]
  exact ⟨h.shape.delSleep hp, h.queued, h.count, h.marked, h.ne_zero, h.priority, h.idle_mem, h.exiting⟩

lemma QInv.unlink (h : QInv s q sl) (hp : p ∈ s.all) :
    QInv (unlinkSleeper p s) q (sl.erase p) := by
  have hiff := h.shape.sleep_linked_iff hp (h.ne_zero p hp)
  unfold unlinkSleeper
  split_ifs with hl
  · exact (h.delSleeper (hiff.mp hl)).setWakeup p 0
  rwa [erase_of_not_mem fun hm => hl (hiff.mpr hm)]

/-- What `scheduler_enqueue` does. -/
structure Enqueued (p : ℕ) (s : Sched) (q : ℕ → List ℕ) (t : Sched) (q' : ℕ → List ℕ) : Prop where
  same : SameTask s t
  procs : ∀ r, r ≠ p → t.procs r = s.procs r
  other : ∀ i r, r ≠ p → (r ∈ q' i ↔ r ∈ q i)
  mem : ∀ i, p ∈ q i → p ∈ q' i
  queued : p ≠ s.idle → (s.procs p).schedulable = true → ∃ i, p ∈ q' i
  idle : p = s.idle → q' = q
  state : (t.procs p).state = .ready ∨ t.procs p = s.procs p

lemma QInv.wakeUp (h : QInv s q sl) (hp : p ∈ s.all) :
    ∃ q' sl', QInv (schedulerEnqueue p s) q' sl' ∧ Enqueued p s q (schedulerEnqueue p s) q' ∧
      (sl' = sl ∨ sl' = sl.erase p) := by
  have h0 := h.ne_zero p hp
  by_cases hid : p = s.idle
  · have he : schedulerEnqueue p s = s := by simp [schedulerEnqueue, hid]
    rw [he]
    exact ⟨q, sl, h, ⟨.refl s, fun _ _ => rfl, fun _ _ _ => .rfl, fun _ hi => hi,
      fun hne => absurd hid hne, fun _ => rfl, .inr rfl⟩, .inl rfl⟩
  by_cases hsch : (s.procs p).schedulable = true
  · set t := (unlinkSleeper p s).updProc p fun r =>
      { r with state := .ready, timeSlice := rrTimeSlice r } with ht
    have he : schedulerEnqueue p s = rrEnqueue p t := by
      simp [schedulerEnqueue, h0, hid, hsch, ht]
    obtain ⟨-, hex, -, -⟩ := unlinkSleeper_procs p p s
    have hexit : ((unlinkSleeper p s).procs p).exiting = false := by
      rw [hex]
      simpa [Proc.schedulable] using (by simpa [Proc.schedulable] using hsch : _ ∧ _).2
    have htq : QInv t q (sl.erase p) :=
      (h.unlink hp).updProc _ rfl (fun i _ => ⟨rfl, hexit⟩) fun _ _ he' =>
        absurd (hexit.symm.trans he') (by simp)
    have hself : t.procs p = { (unlinkSleeper p s).procs p with
        state := .ready, timeSlice := rrTimeSlice ((unlinkSleeper p s).procs p) } :=
      update_self ..
    have hother : ∀ r, r ≠ p → t.procs r = s.procs r := fun r hr =>
      (update_of_ne hr ..).trans ((unlinkSleeper_procs p r s).2.2.2 hr)
    have hsame : SameTask s t :=
      (unlinkSleeper_same p s).trans ⟨rfl, rfl, rfl, rfl, rfl⟩
    have hpt : p ∈ t.all := hsame.all ▸ hp
    rw [he]
    have hprocs : (rrEnqueue p t).procs = t.procs := (rrEnqueue_frame p t).1
    have hsame' := hsame.trans (rrEnqueue_same p t)
    by_cases hlinked : ∃ i, p ∈ q i
    · rw [rrEnqueue_linked ((htq.shape.run_linked_iff hpt h0).mpr hlinked)]
      exact ⟨q, sl.erase p, htq, ⟨hsame, hother, fun _ _ _ => .rfl, fun _ hi => hi,
        fun _ _ => hlinked, fun _ => rfl, .inl (by rw [hself])⟩, .inr rfl⟩
    have hnot : ∀ i, p ∉ q i := fun i hi => hlinked ⟨i, hi⟩
    have hnew := htq.enqueue hpt hnot (by rw [hself]) (by rwa [hself]) (by rwa [hsame.idle])
    refine ⟨_, _, hnew, ⟨hsame', fun r hr => by rw [hprocs, hother r hr], fun i r hr => ?_,
      fun i hi => absurd hi (hnot i), fun _ _ => ⟨(t.procs p).priority.toNat, ?_⟩,
      fun e => absurd e hid, .inl (by rw [hprocs, hself])⟩, .inr rfl⟩
    · by_cases hi : i = (t.procs p).priority.toNat
      · subst hi
        simp [pushQ, hr]
      · rw [pushQ, update_of_ne hi]
    · simp [pushQ]
  have he : schedulerEnqueue p s = s := by simp [schedulerEnqueue, hsch]
  rw [he]
  exact ⟨q, sl, h, ⟨.refl s, fun _ _ => rfl, fun _ _ _ => .rfl, fun _ hi => hi,
    fun _ h' => absurd h' hsch, fun _ => rfl, .inr rfl⟩, .inl rfl⟩

section

variable (h : SchedInv s q sl)
include h

lemma SchedInv.of_enqueued {q' : ℕ → List ℕ} {sl' : List ℕ}
    (hp : p ≠ s.curr) (ht : QInv t q' sl') (he : Enqueued p s q t q') : SchedInv t q' sl' := by
  refine ⟨ht, fun i hi => ?_, ?_⟩
  · rw [he.same.curr] at hi
    exact h.curr_free i ((he.other i _ (Ne.symm hp)).mp hi)
  rw [he.same.curr, he.same.all, he.procs _ (Ne.symm hp)]
  exact h.curr

lemma SchedInv.wakeUp (hp : p ∈ s.all) (hne : p ≠ s.curr) :
    ∃ q' sl', SchedInv (schedulerEnqueue p s) q' sl' ∧ Enqueued p s q (schedulerEnqueue p s) q' ∧
      (sl' = sl ∨ sl' = sl.erase p) := by
  obtain ⟨q', sl', h1, h2, h3⟩ := h.toQInv.wakeUp hp
  exact ⟨q', sl', h.of_enqueued hne h1 h2, h2, h3⟩

lemma SchedInv.ne_curr (hp : p ∈ s.all) (hst : (s.procs p).state ≠ .running) : p ≠ s.curr := by
  rintro rfl
  rcases h.curr with h0 | ⟨-, hr⟩
  · exact h.ne_zero _ hp h0
  · exact hst hr

lemma SchedInv.setNeedResched (b : Bool) : SchedInv { s with needResched := b } q sl :=
  ⟨⟨h.shape, h.queued, h.count, h.marked, h.ne_zero, h.priority, h.idle_mem, h.exiting⟩, h.curr_free, h.curr⟩

end

/-- What a wake-up does. -/
structure Wakes (p : ℕ) (s : Sched) (sl : List ℕ) (t : Sched) (sl' : List ℕ) : Prop where
  all : t.all = s.all
  idle : t.idle = s.idle
  other : ∀ r, r ≠ p → t.procs r = s.procs r
  state : (t.procs p).state = .ready ∨ (t.procs p).state = (s.procs p).state
  queue : sl' = sl.erase p ∨ sl' = sl ∧ (p ∈ s.all → (s.procs p).state ≠ .sleeping)
  ready : p ∈ s.all → p ≠ s.idle → (s.procs p).state = .sleeping → (t.procs p).state = .ready

lemma SchedInv.wake (h : SchedInv s q sl) (hp : p = 0 ∨ p ∈ s.all) :
    ∃ q' sl', SchedInv (schedulerWake p s) q' sl' ∧ Wakes p s sl (schedulerWake p s) sl' := by
  by_cases hst : p ≠ 0 ∧ ((s.procs p).state = .blocked ∨ (s.procs p).state = .sleeping)
  · obtain ⟨h0, hst⟩ := hst
    have hp := hp.resolve_left h0
    have hne : p ≠ s.curr := h.ne_curr hp (by rcases hst with e | e <;> simp [e])
    have hsame := unlinkSleeper_same p s
    obtain ⟨hstate, hexit, -, -⟩ := unlinkSleeper_procs p p s
    have hu : SchedInv (unlinkSleeper p s) q (sl.erase p) := by
      refine ⟨h.toQInv.unlink hp, fun i => hsame.curr ▸ h.curr_free i, ?_⟩
      rw [hsame.curr, hsame.all, (unlinkSleeper_procs p s.curr s).1]
      exact h.curr
    obtain ⟨q', sl', hinv, he, hsl⟩ := hu.wakeUp (by rwa [hsame.all]) (by rwa [hsame.curr])
    have herase : sl' = sl.erase p := by
      obtain e | e := hsl
      · exact e
      · rw [e, erase_of_not_mem h.shape.nodup_sleep.not_mem_erase]
    have hwakes : Wakes p s sl (schedulerEnqueue p (unlinkSleeper p s)) sl' := by
      refine ⟨he.same.all.trans hsame.all, he.same.idle.trans hsame.idle, fun r hr => ?_, ?_,
        .inl herase, fun _ hid hsleep => ?_⟩
      · rw [he.procs r hr, (unlinkSleeper_procs p r s).2.2.2 hr]
      · exact he.state.imp_right fun e => by rw [e, hstate]
      have hex : (s.procs p).exiting = false := by
        by_contra hex
        have := h.exiting p hp hid (by simpa using hex)
        rw [hsleep] at this
        cases this
      obtain ⟨i, hi⟩ := he.queued (hsame.idle ▸ hid) (by simp [Proc.schedulable, hstate, hexit, hsleep, hex])
      exact (hinv.queued i p hi).1
    refine ⟨q', sl', ?_⟩
    unfold schedulerWake
    rw [if_neg (by simpa using h0), if_pos (by simpa using hst)]
    dsimp only
    split_ifs
    · exact ⟨hinv.setNeedResched true, hwakes.all, hwakes.idle, hwakes.other, hwakes.state,
        hwakes.queue, hwakes.ready⟩
    · exact ⟨hinv, hwakes⟩
  have hsame : schedulerWake p s = s := by
    unfold schedulerWake
    by_cases h0 : p = 0
    · rw [if_pos (by simpa using h0)]
    · rw [if_neg (by simpa using h0), if_neg (by simpa [h0] using hst)]
  have hsleep : p ∈ s.all → (s.procs p).state ≠ .sleeping := fun hp e =>
    hst ⟨h.ne_zero p hp, .inr e⟩
  rw [hsame]
  exact ⟨q, sl, h, rfl, rfl, fun _ _ => rfl, .inr rfl, .inr ⟨rfl, hsleep⟩, fun hp _ e => absurd e (hsleep hp)⟩

end Obelisk
