import Obelisk.Sched.Run

/-!
# Timed sleeps

A book of deadlines stands beside the scheduler: `scheduler_sleep_timeout` enters the current
process, a tick strikes out the entries that the clock has reached, and `scheduler_wake` strikes out
its process.

* **`timed_sleeps_exact`**: the sleep queue, the sleepers and how sleeps end, over every run.
* **`idle_sleeps_running`**: idle on the sleep queue, and running.
-/

namespace Obelisk

open KLib Function List Sched SchedOp

variable {s t : Sched} {q : ℕ → List ℕ} {sl : List ℕ} {p r d : ℕ} {next : ℕ} {op : SchedOp}

abbrev Deadlines := ℕ → Option ℕ

def SchedOp.book (s s' : Sched) (dl : Deadlines) : SchedOp → Deadlines
  | sleepTimeout timeoutMs =>
    if s.curr = 0 then dl else update dl s.curr (some (s.clock + timeoutMs))
  | tick | timer => fun p => (dl p).filter fun d => s'.clock < d
  | wake p => update dl p none
  | _ => dl

def SchedOp.NoOverflow (s : Sched) : SchedOp → Prop
  | sleepTimeout timeoutMs => s.clock + timeoutMs < 2 ^ 64
  | _ => True

def SchedOp.IdleAwake (s : Sched) : SchedOp → Prop
  | sleepTimeout _ => s.curr ≠ s.idle
  | _ => True

/-- The states reached from `scheduler_init` by operations that meet the two conditions, each with the
deadlines of its timed sleeps. -/
inductive SleepReach : Sched → Deadlines → Prop
  | init {s : Sched} {idleProcess : ℕ} : Boot idleProcess s → SleepReach (schedulerInit idleProcess s) fun _ => none
  | step {s s' : Sched} {dl : Deadlines} (op : SchedOp) : SleepReach s dl → op.Allowed s →
      op.NoOverflow s → op.IdleAwake s → op.exec s = some s' → SleepReach s' (op.book s s' dl)

def Asleep (s : Sched) (p d : ℕ) : Prop :=
  (s.procs p).state = .sleeping ∧ (s.procs p).wakeupTick = d

/-- The sleep queue holds the sleeping processes, with their deadlines. -/
structure SleepInv (s : Sched) (sl : List ℕ) (dl : Deadlines) : Prop where
  queue : ∀ p ∈ s.all, p ∈ sl ↔ (s.procs p).state = .sleeping
  deadline : ∀ p ∈ s.all, ∀ d, dl p = some d ↔ Asleep s p d
  mem : ∀ p d, dl p = some d → p ∈ s.all
  idle : (s.procs s.idle).state ≠ .sleeping

lemma sleeping_iff : (s.procs p).state = .sleeping ↔ ∃ d, Asleep s p d :=
  ⟨fun h => ⟨_, h, rfl⟩, fun ⟨_, h⟩ => h.1⟩

lemma park_asleep (s : Sched) (r d : ℕ) : Asleep (park s) r d ↔ Asleep s r d := by
  unfold park
  split_ifs with hp
  · simp only [parks, Bool.and_eq_true, beq_iff_eq] at hp
    have hrun := hp.1.2
    rw [Asleep, (rrEnqueue_frame ..).1, Asleep]
    by_cases hr : r = s.curr
    · subst hr
      simp [setState, updProc, hrun]
    · simp [setState, updProc, update_of_ne hr]
  · exact .rfl

lemma dispatch_procs (h0 : next ≠ 0) (hr : r ≠ next) : (dispatch next s).procs r = s.procs r := by
  unfold dispatch
  dsimp only
  set u := if next != 0 && next != s.idle && (s.procs next).state == .ready then rrDequeue next s
    else s with hu
  have hprocs : u.procs = s.procs := by
    rw [hu]
    split_ifs
    · exact (rrDequeue_frame next s).1
    · rfl
  have hnext : (if next == 0 then u.idle else next) = next := by simp [h0]
  rw [hnext, if_pos (by simpa using h0)]
  split_ifs <;> simp [setState, updProc, update_of_ne hr, hprocs]

lemma dispatch_asleep (h0 : next ≠ 0) (hn : (s.procs next).state ≠ .sleeping)
    (r d : ℕ) : Asleep (dispatch next s) r d ↔ Asleep s r d := by
  by_cases hr : r = next
  · subst hr
    refine iff_of_false (fun h => ?_) fun h => hn h.1
    have := h.1
    simp [dispatch, h0, setState, updProc] at this
  · rw [Asleep, Asleep, dispatch_procs h0 hr]

lemma schedule_asleep (h : QInv s q sl) (hfree : ∀ i, s.curr ∉ q i)
    (hc : s.curr = 0 ∨ s.curr ∈ s.all) (hidle : (s.procs s.idle).state ≠ .sleeping) (r d : ℕ) :
    Asleep (schedule s) r d ↔ Asleep s r d := by
  have hpark := park_spec h hfree hc
  obtain ⟨bm, hr2, hpick, hsel⟩ := rrPickNext_spec hpark
  obtain ⟨hn, hpicked⟩ := schedule_eq_dispatch h hfree hc
  have hprocs : (rrPickNext (park s)).2.procs = (park s).procs := by rw [hr2]
  have hawake : ((rrPickNext (park s)).2.procs (rrPickNext (park s)).1).state ≠ .sleeping := by
    rw [hprocs]
    obtain ⟨i, l, hq, -⟩ | ⟨-, he⟩ := hsel
    · rw [(hpark.queued i _ (hq ▸ mem_cons_self)).1]
      exact ProcState.noConfusion
    rw [he, (park_same s).idle, ne_eq, sleeping_iff]
    rintro ⟨d, hd⟩
    exact hidle ((park_asleep s _ d).mp hd).1
  rw [hpicked, dispatch_asleep hn hawake, ← park_asleep s]
  rw [Asleep, Asleep, hprocs]

lemma schedule_ready (h : QInv s q sl) (hfree : ∀ i, s.curr ∉ q i)
    (hc : s.curr = 0 ∨ s.curr ∈ s.all) (hr : (s.procs r).state = .ready)
    (hne : (schedule s).curr ≠ r) : ((schedule s).procs r).state = .ready := by
  obtain ⟨bm, hr2, hpick, hsel⟩ := rrPickNext_spec (park_spec h hfree hc)
  obtain ⟨hn, hs⟩ := schedule_eq_dispatch h hfree hc
  have hid : (rrPickNext (park s)).2.idle = (park s).idle := by rw [hr2]
  have hcurr := (dispatch_spec hpick (hid ▸ hsel)).2.1
  rw [hs, hcurr] at hne
  have hpark : ((park s).procs r).state = .ready := by
    unfold park
    split_ifs
    · rw [(rrEnqueue_frame ..).1]
      by_cases hrc : r = s.curr
      · subst hrc
        simp [setState, updProc]
      · simp [setState, updProc, update_of_ne hrc, hr]
    · exact hr
  rwa [hs, dispatch_procs hn (Ne.symm hne), hr2]

lemma stopRunning_procs (p : ℕ) (st : ProcState) (s : Sched) :
    (stopRunning p st s).procs = (s.setState p st).procs ∧ (stopRunning p st s).clock = s.clock := by
  have hdeq : ∀ u : Sched, (schedulerDequeue p u).procs = u.procs ∧
      (schedulerDequeue p u).clock = u.clock := fun u => by
    unfold schedulerDequeue
    split_ifs
    · exact ⟨rfl, rfl⟩
    · exact ⟨(rrDequeue_frame p u).1, (rrDequeue_frame p u).2.2.2.2.1⟩
  unfold stopRunning
  dsimp only
  split_ifs
  · exact hdeq _
  · exact hdeq _
  · exact ⟨rfl, rfl⟩
  · exact ⟨rfl, rfl⟩

/-! ## The operations -/

def SchedOp.Ends (op : SchedOp) (s t : Sched) (dl : Deadlines) : Prop :=
  ∀ p d, dl p = some d → op.book s t dl p = none → (t.procs p).state = .ready ∨ (op = .timer ∧ t.curr = p)

def SchedOp.Good (op : SchedOp) (s t : Sched) (dl : Deadlines) : Prop :=
  ∃ q' sl', SchedInv t q' sl' ∧ SleepInv t sl' (op.book s t dl) ∧ op.Ends s t dl

variable {dl : Deadlines}

lemma ends_of_book (h : ∀ p d, dl p = some d → op.book s t dl p ≠ none) : op.Ends s t dl :=
  fun p d hp hnone => absurd hnone (h p d hp)

lemma ends_of_eq (h : op.book s t dl = dl) : op.Ends s t dl :=
  ends_of_book fun p d hp => by rw [h, hp]; exact Option.some_ne_none d

namespace SleepInv

lemma of_asleep (h : SleepInv s sl dl) (hall : t.all = s.all) (hidle : t.idle = s.idle)
    (hsame : ∀ r d, Asleep t r d ↔ Asleep s r d) : SleepInv t sl dl where
  queue p hp := by
    rw [h.queue p (hall ▸ hp), sleeping_iff, sleeping_iff]
    exact exists_congr fun d => (hsame p d).symm
  deadline p hp d := (h.deadline p (hall ▸ hp) d).trans (hsame p d).symm
  mem p d hp := hall ▸ h.mem p d hp
  idle := by
    rw [hidle, ne_eq, sleeping_iff]
    rintro ⟨d, hd⟩
    exact h.idle ((hsame _ d).mp hd).1

lemma schedule (h : SleepInv s sl dl) (hq : QInv s q sl) (hfree : ∀ i, s.curr ∉ q i)
    (hc : s.curr = 0 ∨ s.curr ∈ s.all) : SleepInv (Obelisk.schedule s) sl dl := by
  obtain ⟨-, -, -, hall, hidle, -⟩ := schedule_spec hq hfree hc
  exact h.of_asleep hall hidle (schedule_asleep hq hfree hc h.idle)

lemma deadline_none (h : SleepInv s sl dl) (hp : p ∉ s.all) : dl p = none :=
  Option.eq_none_iff_forall_ne_some.mpr fun d hd => hp (h.mem p d hd)

lemma curr_awake (hs : SchedInv s q sl) (h0 : s.curr ≠ 0) (d : ℕ) : ¬ Asleep s s.curr d := by
  rintro ⟨hst, -⟩
  rw [(hs.curr.resolve_left h0).2] at hst
  cases hst

section

variable (h : SleepInv s sl dl)
include h

lemma curr_not_mem (hs : SchedInv s q sl) (h0 : s.curr ≠ 0) : s.curr ∉ sl := by
  intro hm
  have hst := (h.queue _ (hs.curr.resolve_left h0).1).mp hm
  rw [(hs.curr.resolve_left h0).2] at hst
  cases hst

lemma create (hs : SchedInv s q sl) {priority nice : ℤ} (hp : p ∉ s.all) :
    SleepInv (createProc p priority nice s) sl dl := by
  have hother : ∀ r, r ≠ p → (createProc p priority nice s).procs r = s.procs r := fun r hr =>
    update_of_ne hr _ _
  have hself : ((createProc p priority nice s).procs p).state ≠ .sleeping := by
    simp [createProc]
  refine ⟨fun r hr => ?_, fun r hr d => ?_, fun r d hr => mem_cons_of_mem p (h.mem r d hr), ?_⟩
  · obtain rfl | hr := mem_cons.mp hr
    · exact iff_of_false (fun hm => hp (hs.shape.sleep_mem r hm)) hself
    · rw [hother r fun e => hp (e ▸ hr)]
      exact h.queue r hr
  · obtain rfl | hr := mem_cons.mp hr
    · rw [h.deadline_none hp]
      exact iff_of_false (Option.some_ne_none d).symm fun ha => hself ha.1
    · rw [Asleep, hother r fun e => hp (e ▸ hr)]
      exact h.deadline r hr d
  · exact (hother s.idle fun e => hp (e ▸ hs.idle_mem)).symm ▸ h.idle

lemma stop {u : Sched} (hs : SchedInv s q sl) (h0 : s.curr ≠ 0)
    (hq : QInv u q (sl.erase s.curr)) (hsame : SameTask s u)
    (hother : ∀ r, r ≠ s.curr → u.procs r = s.procs r)
    (hst : (u.procs s.curr).state ≠ .sleeping) : SleepInv (Obelisk.schedule u) sl dl := by
  have herase := erase_of_not_mem (h.curr_not_mem hs h0)
  rw [herase] at hq
  have hu : SleepInv u sl dl := h.of_asleep hsame.all hsame.idle fun r d => by
    by_cases hr : r = s.curr
    · subst hr
      exact iff_of_false (fun ha => hst ha.1) (curr_awake hs h0 d)
    · rw [Asleep, Asleep, hother r hr]
  exact hu.schedule hq (hsame.curr ▸ hs.curr_free) (.inr (hsame.curr ▸ hsame.all ▸ (hs.curr.resolve_left h0).1))

lemma tick (hs : SchedInv s q sl) (ht : Ticked s sl t) :
    SleepInv t (sl.filter fun p => ¬ DueNext s p) fun p => (dl p).filter fun d => t.clock < d := by
  have hidle : s.idle ∉ sl := fun hm => h.idle ((h.queue _ hs.idle_mem).mp hm)
  have hdue : ∀ {r}, r ∈ sl → DueNext s r → (t.procs r).state = .ready := fun hr hd =>
    ht.ready _ hr hd fun e => hidle (e ▸ hr)
  refine ⟨fun r hr => ?_, fun r hr d => ?_, fun r d hr => ?_, ?_⟩
  · rw [mem_filter, decide_eq_true_iff]
    by_cases hrd : r ∈ sl ∧ DueNext s r
    · refine iff_of_false (fun hm => hm.2 hrd.2) ?_
      rw [hdue hrd.1 hrd.2]
      exact ProcState.noConfusion
    rw [(ht.kept r (not_and_or.mp hrd)).1, ← h.queue r (ht.all ▸ hr)]
    exact ⟨And.left, fun hm => ⟨hm, fun hd => hrd ⟨hm, hd⟩⟩⟩
  · have hasleep : ∀ d, Asleep s r d → (DueNext s r ↔ d ≤ t.clock) := by
      rintro d ⟨hst, rfl⟩
      rw [ht.clock]
      exact and_iff_right hst
    rw [Option.filter_eq_some_iff, h.deadline r (ht.all ▸ hr), decide_eq_true_iff]
    constructor
    · rintro ⟨ha, hlt⟩
      obtain ⟨h1, h2⟩ := ht.kept r (.inr fun hd => absurd ((hasleep d ha).mp hd) (not_le.mpr hlt))
      exact ⟨h1.trans ha.1, h2.trans ha.2⟩
    intro ha
    have hnot : ¬ (r ∈ sl ∧ DueNext s r) := by
      rintro ⟨hm, hd⟩
      have := ha.1
      rw [hdue hm hd] at this
      cases this
    obtain ⟨h1, h2⟩ := ht.kept r (not_and_or.mp hnot)
    have ha' : Asleep s r d := ⟨h1.symm.trans ha.1, h2.symm.trans ha.2⟩
    refine ⟨ha', Nat.lt_of_not_le fun hle => hnot ⟨?_, (hasleep d ha').mpr hle⟩⟩
    exact (h.queue r (ht.all ▸ hr)).mpr ha'.1
  · exact ht.all ▸ h.mem r d (Option.filter_eq_some_iff.mp hr).1
  rw [ht.idle, (ht.kept s.idle (.inl hidle)).1]
  exact h.idle

lemma tick_ready (ht : Ticked s sl t) (hp : dl p = some d)
    (hnone : ((dl p).filter fun d => decide (t.clock < d)) = none) : (t.procs p).state = .ready := by
  have hmem := h.mem p d hp
  have ha := (h.deadline p hmem d).mp hp
  have hle : d ≤ t.clock := by
    rw [hp] at hnone
    simpa using hnone
  refine ht.ready p ((h.queue p hmem).mpr ha.1) ⟨ha.1, ?_⟩ fun e => h.idle (e ▸ ha.1)
  rwa [ha.2, ← ht.clock]

lemma wake {sl' : List ℕ} (hs : SchedInv s q sl) (hw : Wakes p s sl t sl') :
    SleepInv t sl' (update dl p none) := by
  have hawake : p ∈ s.all → (t.procs p).state ≠ .sleeping := by
    intro hp hst
    by_cases hsl : (s.procs p).state = .sleeping
    · rw [hw.ready hp (fun e => h.idle (e ▸ hsl)) hsl] at hst
      cases hst
    obtain e | e := hw.state
    · rw [e] at hst
      cases hst
    · exact hsl (e ▸ hst)
  have hqueue : ∀ r, r ≠ p → (r ∈ sl' ↔ r ∈ sl) := by
    intro r hr
    obtain e | e := hw.queue
    · rw [e, mem_erase_of_ne hr]
    · rw [e.1]
  have hself : p ∈ s.all → p ∉ sl' := by
    intro hp hm
    obtain e | e := hw.queue
    · exact hs.shape.nodup_sleep.not_mem_erase (e ▸ hm)
    · exact e.2 hp ((h.queue p hp).mp (e.1 ▸ hm))
  refine ⟨fun r hr => ?_, fun r hr d => ?_, fun r d hr => ?_, ?_⟩
  · rw [hw.all] at hr
    by_cases hrp : r = p
    · subst hrp
      exact iff_of_false (hself hr) (hawake hr)
    rw [hqueue r hrp, hw.other r hrp]
    exact h.queue r hr
  · rw [hw.all] at hr
    by_cases hrp : r = p
    · subst hrp
      rw [update_self]
      exact iff_of_false (Option.some_ne_none d).symm fun ha => hawake hr ha.1
    rw [update_of_ne hrp, Asleep, hw.other r hrp]
    exact h.deadline r hr d
  · rw [hw.all]
    by_cases hrp : r = p
    · rw [hrp, update_self] at hr
      cases hr
    rw [update_of_ne hrp] at hr
    exact h.mem r d hr
  rw [hw.idle]
  by_cases hip : s.idle = p
  · exact hip ▸ hawake (hip ▸ hs.idle_mem)
  rw [hw.other _ hip]
  exact h.idle

lemma enqueue (hs : SchedInv s q sl) (hp : p ∈ s.all)
    (hst : (s.procs p).state = .created ∨ (s.procs p).state = .ready) :
    ∃ q', SchedInv (schedulerEnqueue p s) q' sl ∧ SleepInv (schedulerEnqueue p s) sl dl := by
  have hawake : (s.procs p).state ≠ .sleeping := by
    intro e
    rw [e] at hst
    exact hst.elim ProcState.noConfusion ProcState.noConfusion
  have hne : p ≠ s.curr := hs.ne_curr hp (by rcases hst with e | e <;> simp [e])
  obtain ⟨q', sl', h', he, hsl⟩ := hs.wakeUp hp hne
  rw [erase_of_not_mem fun hm => hawake ((h.queue p hp).mp hm), or_self] at hsl
  rw [hsl] at h'
  refine ⟨q', h', h.of_asleep he.same.all he.same.idle fun r d => ?_⟩
  by_cases hr : r = p
  · subst hr
    refine iff_of_false (fun ha => ?_) fun ha => hawake ha.1
    obtain e | e := he.state
    · rw [Asleep, e] at ha
      cases ha.1
    · exact hawake (e ▸ ha.1)
  · rw [Asleep, Asleep, he.procs r hr]

lemma sleepTimeout (hs : SchedInv s q sl) (h0 : s.curr ≠ 0)
    {timeoutMs : ℕ} (hclock : s.clock + timeoutMs < 2 ^ 64) (hidle : s.curr ≠ s.idle) :
    SleepInv (goSleeping timeoutMs s) (sl.erase s.curr ++ [s.curr])
      (update dl s.curr (some (s.clock + timeoutMs))) := by
  obtain ⟨-, hsame⟩ := hs.goSleeping h0 timeoutMs
  obtain ⟨hprocs, hclk⟩ := stopRunning_procs s.curr .sleeping s
  have hother : ∀ r, r ≠ s.curr → (goSleeping timeoutMs s).procs r = s.procs r := fun r hr => by
    simp [goSleeping, updProc, setLinks, hprocs, setState, update_of_ne hr]
  have hself : ∀ d, Asleep (goSleeping timeoutMs s) s.curr d ↔ s.clock + timeoutMs = d := fun d => by
    simp [Asleep, goSleeping, updProc, setLinks, hprocs, hclk, setState, u64_of_lt hclock]
  refine ⟨fun r hr => ?_, fun r hr d => ?_, fun r d hr => ?_, ?_⟩
  · rw [mem_append, mem_singleton]
    by_cases hrc : r = s.curr
    · subst hrc
      exact iff_of_true (.inr rfl) (sleeping_iff.mpr ⟨_, (hself _).mpr rfl⟩)
    rw [mem_erase_of_ne hrc, hother r hrc, ← h.queue r (hsame.all ▸ hr)]
    exact or_iff_left hrc
  · by_cases hrc : r = s.curr
    · subst hrc
      rw [update_self, hself, Option.some_inj]
    · rw [update_of_ne hrc, Asleep, hother r hrc]
      exact h.deadline r (hsame.all ▸ hr) d
  · rw [hsame.all]
    by_cases hrc : r = s.curr
    · exact hrc ▸ (hs.curr.resolve_left h0).1
    rw [update_of_ne hrc] at hr
    exact h.mem r d hr
  rw [hsame.idle, hother _ (Ne.symm hidle)]
  exact h.idle

end

end SleepInv

/-- **One operation** keeps the invariants, and a sleep that it ends leaves the process ready. -/
theorem exec_sleepInv (hs : SchedInv s q sl) (h : SleepInv s sl dl)
    (ha : op.Allowed s) (hclock : op.NoOverflow s) (hidle : op.IdleAwake s)
    (he : op.exec s = some t) : op.Good s t dl := by
  have hmem : s.curr = 0 ∨ s.curr ∈ s.all := hs.curr.imp_right And.left
  cases op with
  | create p priority nice =>
    cases he
    exact ⟨q, sl, hs.create ha.1 ha.2.1 ha.2.2, h.create hs ha.2.1, ends_of_eq rfl⟩
  | enqueue p =>
    cases he
    obtain ⟨q', hs', h'⟩ := h.enqueue hs ha.1 ha.2
    exact ⟨q', sl, hs', h', ends_of_eq rfl⟩
  | schedule | yield =>
    cases he
    obtain ⟨q', hs'⟩ := hs.schedule
    exact ⟨q', sl, hs', h.schedule hs.toQInv hs.curr_free hmem, ends_of_eq rfl⟩
  | tick =>
    obtain ⟨u, q', hu, hs', ht, -⟩ := schedulerTick_spec hs
    cases he.symm.trans hu
    exact ⟨q', _, hs', h.tick hs ht, fun p d hp hnone => .inl (h.tick_ready ht hp hnone)⟩
  | timer =>
    obtain ⟨u, q', hu, hs', ht, -⟩ := schedulerTick_spec hs
    have h' := h.tick hs ht
    simp only [exec, timerHandler, hu, Option.map_some, Option.some.injEq] at he
    split_ifs at he
    · -- the interrupt ends with a call of `schedule`, which leaves the clock alone
      subst he
      have hmem' := hs'.curr.imp_right And.left
      obtain ⟨-, hs'', -, -, -, hclk⟩ := schedule_spec hs'.toQInv hs'.curr_free hmem'
      have hbook : timer.book s (schedule u) dl = fun p => (dl p).filter fun d => u.clock < d := by
        simp only [book, hclk]
      refine ⟨_, _, hs'', hbook ▸ h'.schedule hs'.toQInv hs'.curr_free hmem', fun p d hp hnone => ?_⟩
      by_cases hcurr : (schedule u).curr = p
      · exact .inr ⟨rfl, hcurr⟩
      rw [hbook] at hnone
      exact .inl (schedule_ready hs'.toQInv hs'.curr_free hmem' (h.tick_ready ht hp hnone) hcurr)
    subst he
    exact ⟨q', _, hs', h', fun p d hp hnone => .inl (h.tick_ready ht hp hnone)⟩
  | sleep =>
    cases he
    obtain ⟨q', hs'⟩ := hs.sleep
    refine ⟨q', _, hs', ?_, ends_of_eq rfl⟩
    by_cases h0 : s.curr = 0
    · rwa [h0, hs.erase_zero]
    rw [erase_of_not_mem (h.curr_not_mem hs h0), schedulerSleep, if_neg (by simpa using h0)]
    obtain ⟨hq, hsame⟩ := hs.stop h0 .blocked
    obtain ⟨hprocs, -⟩ := stopRunning_procs s.curr .blocked s
    refine h.stop hs h0 (hq.setWakeup s.curr 0)
      ⟨hsame.all, hsame.curr, hsame.idle, hsame.clock, hsame.needResched⟩ (fun r hr => ?_) ?_
    · simp [updProc, hprocs, setState, update_of_ne hr]
    · simp [updProc, hprocs, setState]
  | sleepTimeout timeoutMs =>
    cases he
    by_cases h0 : s.curr = 0
    · have hbook : (sleepTimeout timeoutMs).book s (schedulerSleepTimeout s.curr timeoutMs s) dl =
          dl := by simp [book, h0]
      refine ⟨q, sl, ?_, ?_, ends_of_eq hbook⟩
      · simpa [schedulerSleepTimeout, h0] using hs
      rw [hbook]
      simpa [schedulerSleepTimeout, h0] using h
    have hbook : (sleepTimeout timeoutMs).book s (schedulerSleepTimeout s.curr timeoutMs s) dl =
        update dl s.curr (some (s.clock + timeoutMs)) := if_neg h0
    obtain ⟨hq, hsame⟩ := hs.goSleeping h0 timeoutMs
    obtain ⟨q', hs'⟩ := hs.schedule_stopped hq hsame.curr hsame.all
    have h' := (h.sleepTimeout hs h0 hclock hidle).schedule hq (hsame.curr ▸ hs.curr_free)
      (.inr (hsame.curr ▸ hsame.all ▸ (hs.curr.resolve_left h0).1))
    have hrun : schedulerSleepTimeout s.curr timeoutMs s = schedule (goSleeping timeoutMs s) := by
      rw [schedulerSleepTimeout, if_neg (by simpa using h0)]
      rfl
    refine ⟨q', _, hrun ▸ hs', hbook ▸ hrun ▸ h', ends_of_book fun p d hp => ?_⟩
    rw [hbook, update_apply]
    split_ifs
    · exact Option.some_ne_none _
    · exact hp ▸ Option.some_ne_none d
  | wake p =>
    cases he
    obtain ⟨q', sl', hs', hw⟩ := hs.wake ha
    refine ⟨q', sl', hs', h.wake hs hw, fun r d hr hnone => ?_⟩
    by_cases hrp : r = p
    · subst hrp
      have hall := h.mem r d hr
      have hst := ((h.deadline r hall d).mp hr).1
      exact .inl (hw.ready hall (fun e => h.idle (e ▸ hst)) hst)
    rw [book, update_of_ne hrp, hr] at hnone
    cases hnone
  | exit =>
    obtain ⟨q', hs'⟩ := hs.exit he
    refine ⟨q', sl, hs', ?_, ends_of_eq rfl⟩
    simp only [exec, schedulerExit] at he
    split_ifs at he with h0
    cases he
    have h0 : s.curr ≠ 0 := by simpa using h0
    refine h.stop hs h0 ?_ ⟨rfl, rfl, rfl, rfl, rfl⟩ (fun r hr => ?_) ?_
    · rw [erase_of_not_mem (h.curr_not_mem hs h0)]
      exact hs.toQInv.updProc _ rfl (fun i hi => absurd hi (hs.curr_free i)) fun _ _ _ => rfl
    · simp [updProc, update_of_ne hr]
    · simp [updProc]

lemma SleepReach.inv (h : SleepReach s dl) : ∃ q sl, SchedInv s q sl ∧ SleepInv s sl dl := by
  induction h with
  | @init s idleProcess hb =>
    have hstate : ∀ p ∈ s.all, (s.procs p).state ≠ .sleeping := fun p hp e => by
      have := (hb.state p hp).1
      rw [e] at this
      exact this.elim ProcState.noConfusion ProcState.noConfusion
    refine ⟨_, _, hb.inv, fun p hp => ?_, fun p hp d => ?_, fun p d hp => ?_, hstate _ hb.idle_mem⟩
    · exact iff_of_false not_mem_nil (hstate p hp)
    · exact iff_of_false (Option.some_ne_none d).symm fun ha => hstate p hp ha.1
    · cases hp
  | step op _ ha hclock hidle he ih =>
    obtain ⟨q, sl, hs, hsl⟩ := ih
    obtain ⟨q', sl', hs', hsl', -⟩ := exec_sleepInv hs hsl ha hclock hidle he
    exact ⟨q', sl', hs', hsl'⟩

/-- **Timed sleeps are neither early nor lost.** In every state that is reached while idle makes no
timed sleep, with the deadlines `dl` of the timed sleeps: the sleep queue holds exactly the sleeping
processes, which are those with a deadline; and every operation that strikes out a deadline leaves its
process ready, or running when the timer interrupt has scheduled it. -/
theorem timed_sleeps_exact (s : Sched) (dl : Deadlines) (h : SleepReach s dl) :
    (∃ sl : List ℕ, Ring s.links .sleepQueue (sl.map .sleep) ∧ sl.Nodup ∧
      ∀ p, p ∈ sl ↔ p ∈ s.all ∧ (s.procs p).state = .sleeping) ∧
    (∀ p ∈ s.all, (s.procs p).state = .sleeping ↔ ∃ d, dl p = some d) ∧
    ∀ (op : SchedOp) (s' : Sched), op.Allowed s → op.NoOverflow s → op.IdleAwake s →
      op.exec s = some s' → op.Ends s s' dl := by
  obtain ⟨q, sl, hs, hsl⟩ := h.inv
  refine ⟨⟨sl, hs.shape.sleep, hs.shape.nodup_sleep, fun p => ?_⟩, fun p hp => ?_,
    fun op s' ha hclock hidle he => ?_⟩
  · constructor
    · intro hp
      have hall := hs.shape.sleep_mem p hp
      exact ⟨hall, (hsl.queue p hall).mp hp⟩
    · rintro ⟨hall, hst⟩
      exact (hsl.queue p hall).mpr hst
  · rw [sleeping_iff]
    exact exists_congr fun d => (hsl.deadline p hp d).symm
  obtain ⟨-, -, -, -, hends⟩ := exec_sleepInv hs hsl ha hclock hidle he
  exact hends

theorem timed_sleeps_exact_small : let dl : Deadlines := update (fun _ => none) 2 (some 4)
    SleepReach smallIdle dl ∧ (smallIdle.procs 2).state = .sleeping ∧
      ∃ t, schedulerTick smallIdle = some t ∧ (t.procs 2).state = .ready := by
  intro dl
  have hboot : SleepReach (schedulerInit 1 smallBoot) fun _ => none := .init smallBoot_boot
  have h1 := hboot.step (.create 2 100 0) ⟨by decide, by decide, by decide, by decide⟩ trivial trivial rfl
  have h2 := h1.step (.enqueue 2) ⟨by decide, by decide⟩ trivial trivial rfl
  have h3 : SleepReach (schedule smallSched) fun _ => none := h2.step .schedule trivial trivial trivial rfl
  have hrun : (schedule smallSched).curr = 2 ∧ (schedule smallSched).clock = 0 := by decide +kernel
  have hreach : SleepReach smallIdle dl := by
    have h4 := h3.step (.sleepTimeout 4) trivial (by rw [SchedOp.NoOverflow, hrun.2]; decide)
      (by rw [SchedOp.IdleAwake]; decide +kernel) rfl
    rwa [book, hrun.1, hrun.2] at h4
  obtain ⟨-, hstate, hends⟩ := timed_sleeps_exact smallIdle dl hreach
  obtain ⟨t, ht⟩ : ∃ t, schedulerTick smallIdle = some t :=
    Option.isSome_iff_exists.mp (by decide +kernel)
  have hclock : t.clock = 4 := by
    have : (schedulerTick smallIdle).map (·.clock) = some 4 := by decide +kernel
    rw [ht] at this
    exact Option.some.inj this
  refine ⟨hreach, (hstate 2 (by decide +kernel)).mpr ⟨4, rfl⟩, t, ht, ?_⟩
  refine (hends .tick t trivial trivial trivial ht 2 4 rfl ?_).resolve_right fun h => by cases h.1
  simp [book, dl, hclock]

theorem idle_sleeps_running :
    let s := schedulerSleepTimeout 1 4 (schedule (schedulerInit 1 smallBoot))
    SchedReach s ∧ s.curr = 1 ∧ (s.procs 1).state = .running ∧ s.sleepListLinked 1 = true := by
  intro s
  have hcurr : (schedule (schedulerInit 1 smallBoot)).curr = 1 := by decide +kernel
  refine ⟨.step (.sleepTimeout 4) (.step .schedule (.init smallBoot_boot) trivial rfl) trivial ?_, ?_⟩
  · simp only [exec, hcurr, s]
  · decide +kernel

end Obelisk
