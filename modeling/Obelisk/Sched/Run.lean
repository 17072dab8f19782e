import Obelisk.Sched.Timer

/-!
# The scheduler over whole runs

- `sched_run_invariant`: the run queues in every state.
- `timer_idle_iff`: when the timer leaves idle running beside a ready process.
-/

namespace Obelisk

open KLib List

variable {s t : Sched} {q : ℕ → List ℕ} {sl : List ℕ} {p : ℕ}

/-! ## The operations -/

section

variable (h : SchedInv s q sl)
include h

lemma SchedInv.schedule : ∃ q', SchedInv (Obelisk.schedule s) q' sl :=
  ⟨_, (schedule_spec h.toQInv h.curr_free (h.curr.imp_right And.left)).2.1⟩

lemma SchedInv.create {priority nice : ℤ} (h0 : p ≠ 0) (hp : p ∉ s.all)
    (hprio : 0 ≤ priority ∧ priority < maxPrio) :
    SchedInv (createProc p priority nice s) q sl := by
  have hother : ∀ r, r ≠ p → (createProc p priority nice s).procs r = s.procs r := fun r hr =>
    Function.update_of_ne hr _ _
  have hself : (createProc p priority nice s).procs p =
      ⟨.created, false, priority, nice, defTimeslice, 0⟩ := Function.update_self ..
  have hne : ∀ r ∈ s.all, r ≠ p := fun r hr e => hp (e ▸ hr)
  refine ⟨⟨h.shape.create hp, fun i r hr => ?_, h.count, h.marked, fun r hr => ?_, fun r hr => ?_,
    mem_cons_of_mem _ h.idle_mem, fun r hr hid => ?_⟩, h.curr_free, ?_⟩
  · rw [hother r (hne r (h.shape.run_mem i r hr))]
    exact h.queued i r hr
  · rcases mem_cons.mp hr with rfl | hr
    · exact h0
    · exact h.ne_zero r hr
  · rcases mem_cons.mp hr with rfl | hr
    · rwa [hself]
    · rw [hother r (hne r hr)]
      exact h.priority r hr
  · rcases mem_cons.mp hr with rfl | hr
    · simp [hself]
    · rw [hother r (hne r hr)]
      exact h.exiting r hr hid
  refine h.curr.imp_right fun ⟨h1, h2⟩ => ⟨mem_cons_of_mem _ h1, ?_⟩
  change ((createProc p priority nice s).procs s.curr).state = .running
  rwa [hother _ (hne _ h1)]

lemma SchedInv.curr_exiting (h0 : s.curr ≠ 0) :
    s.curr = s.idle ∨ (s.procs s.curr).exiting = false := by
  obtain ⟨hm, hr⟩ := h.curr.resolve_left h0
  by_cases hid : s.curr = s.idle
  · exact .inl hid
  refine .inr (Bool.eq_false_iff.mpr fun he => ?_)
  rw [h.exiting _ hm hid he] at hr
  cases hr

lemma SchedInv.stop (h0 : s.curr ≠ 0) (st : ProcState) : let t := stopRunning s.curr st s
    QInv t q (sl.erase s.curr) ∧ SameTask s t := by
  intro t
  obtain ⟨hm, -⟩ := h.curr.resolve_left h0
  have h1 : QInv (s.setState s.curr st) q sl :=
    h.toQInv.setState st h.curr_free (h.curr_exiting h0)
  set u := s.setState s.curr st with hu
  have hrun : u.runListLinked s.curr = false := by
    rw [Bool.eq_false_iff, ne_eq, h1.shape.run_linked_iff hm h0]
    exact fun ⟨i, hi⟩ => h.curr_free i hi
  have hsl := h1.shape.sleep_linked_iff hm h0
  have ht : t = if u.sleepListLinked s.curr then
      u.setLinks ((u.links.del (.sleep s.curr)).init (.sleep s.curr)) else u := by
    simp [t, stopRunning, ← hu, hrun]
  rw [ht]
  split_ifs with hl
  · exact ⟨h1.delSleeper (hsl.mp hl), ⟨rfl, rfl, rfl, rfl, rfl⟩⟩
  rw [erase_of_not_mem fun hm => hl (hsl.mpr hm)]
  exact ⟨h1, ⟨rfl, rfl, rfl, rfl, rfl⟩⟩

lemma SchedInv.erase_zero : sl.erase 0 = sl :=
  erase_of_not_mem fun hm => h.ne_zero 0 (h.shape.sleep_mem 0 hm) rfl

lemma SchedInv.schedule_stopped {u : Sched} {sl' : List ℕ} (hu : QInv u q sl')
    (hcurr : u.curr = s.curr) (hall : u.all = s.all) :
    ∃ q', SchedInv (Obelisk.schedule u) q' sl' := by
  have hfree : ∀ i, u.curr ∉ q i := by
    rw [hcurr]
    exact h.curr_free
  have hmem : u.curr = 0 ∨ u.curr ∈ u.all := by
    rw [hcurr, hall]
    exact h.curr.imp_right And.left
  exact ⟨_, (schedule_spec hu hfree hmem).2.1⟩

lemma SchedInv.sleep : ∃ q', SchedInv (schedulerSleep s.curr s) q' (sl.erase s.curr) := by
  by_cases h0 : s.curr = 0
  · rw [h0, h.erase_zero]
    exact ⟨q, by simpa [schedulerSleep, h0] using h⟩
  obtain ⟨hq, hsame⟩ := h.stop h0 .blocked
  obtain ⟨q', h'⟩ := h.schedule_stopped (hq.setWakeup s.curr 0) hsame.curr hsame.all
  refine ⟨q', ?_⟩
  unfold schedulerSleep
  rwa [if_neg (by simpa using h0)]

end

def goSleeping (timeoutMs : ℕ) (s : Sched) : Sched :=
  let u := stopRunning s.curr .sleeping s
  let u := u.updProc s.curr ({ · with wakeupTick := u64 (u.clock + timeoutMs) })
  u.setLinks (u.links.addTail (.sleep s.curr) .sleepQueue)

section

variable (h : SchedInv s q sl)
include h

lemma SchedInv.goSleeping (h0 : s.curr ≠ 0) (timeoutMs : ℕ) :
    QInv (goSleeping timeoutMs s) q (sl.erase s.curr ++ [s.curr]) ∧
      SameTask s (Obelisk.goSleeping timeoutMs s) := by
  obtain ⟨hq, hsame⟩ := h.stop h0 .sleeping
  obtain ⟨hm, -⟩ := h.curr.resolve_left h0
  have hw := hq.setWakeup s.curr (u64 ((stopRunning s.curr .sleeping s).clock + timeoutMs))
  refine ⟨⟨hw.shape.addSleep ?_ h.shape.nodup_sleep.not_mem_erase, hw.queued, hw.count, hw.marked,
    hw.ne_zero, hw.priority, hw.idle_mem, hw.exiting⟩,
    ⟨hsame.all, hsame.curr, hsame.idle, hsame.clock, hsame.needResched⟩⟩
  exact (show (stopRunning s.curr .sleeping s).all = s.all from hsame.all) ▸ hm

lemma SchedInv.sleepTimeout (timeoutMs : ℕ) :
    ∃ q' sl', SchedInv (schedulerSleepTimeout s.curr timeoutMs s) q' sl' := by
  by_cases h0 : s.curr = 0
  · exact ⟨q, sl, by simpa [schedulerSleepTimeout, h0] using h⟩
  obtain ⟨hadd, hsame⟩ := h.goSleeping h0 timeoutMs
  obtain ⟨q', h'⟩ := h.schedule_stopped hadd hsame.curr hsame.all
  refine ⟨q', sl.erase s.curr ++ [s.curr], ?_⟩
  unfold schedulerSleepTimeout
  rwa [if_neg (by simpa using h0)]

lemma SchedInv.exit (ht : schedulerExit s = some t) : ∃ q', SchedInv t q' sl := by
  unfold schedulerExit at ht
  split_ifs at ht with h0
  set u := s.updProc s.curr fun r => { r with exiting := true, state := .zombie } with hu
  have hq : QInv u q sl := h.toQInv.updProc _ rfl (fun i hi => absurd hi (h.curr_free i)) fun _ _ _ => rfl
  obtain ⟨q', h'⟩ := h.schedule_stopped hq rfl rfl
  dsimp only at ht
  split_ifs at ht
  cases ht
  exact ⟨q', h'⟩

lemma SchedOp.exec_inv {op : SchedOp} (ha : op.Allowed s)
    (he : op.exec s = some t) : ∃ q' sl', SchedInv t q' sl' := by
  cases op with
  | create p priority nice =>
    cases he
    exact ⟨q, sl, h.create ha.1 ha.2.1 ha.2.2⟩
  | enqueue p =>
    cases he
    have hne : p ≠ s.curr := h.ne_curr ha.1 (by rcases ha.2 with e | e <;> simp [e])
    obtain ⟨q', sl', h', -⟩ := h.wakeUp ha.1 hne
    exact ⟨q', sl', h'⟩
  | schedule | yield =>
    cases he
    exact ⟨_, sl, h.schedule.choose_spec⟩
  | tick =>
    obtain ⟨u, q', hu, h', -⟩ := schedulerTick_spec h
    cases he.symm.trans hu
    exact ⟨q', _, h'⟩
  | timer =>
    obtain ⟨u, q', sl', hu, h', -⟩ := timerHandler_spec h
    cases he.symm.trans hu
    exact ⟨q', sl', h'⟩
  | sleep =>
    cases he
    exact ⟨_, _, h.sleep.choose_spec⟩
  | sleepTimeout timeoutMs =>
    cases he
    exact h.sleepTimeout timeoutMs
  | wake p =>
    cases he
    obtain ⟨q', sl', h', -⟩ := h.wake ha
    exact ⟨q', sl', h'⟩
  | exit =>
    obtain ⟨q', h'⟩ := h.exit he
    exact ⟨q', sl, h'⟩

end

lemma Boot.inv {idle : ℕ} (h : Boot idle s) : SchedInv (schedulerInit idle s) (fun _ => []) [] where
  shape := h.shape
  queued := by simp
  count := by simp [schedulerInit]
  marked := by simp
  ne_zero := h.ne_zero
  priority := h.priority
  idle_mem := h.idle_mem
  exiting p hp _ he := by
    rw [show ((schedulerInit idle s).procs p).exiting = (s.procs p).exiting from rfl, (h.state p hp).2] at he
    cases he
  curr_free := by simp
  curr := .inl rfl

lemma SchedReach.inv (h : SchedReach s) : ∃ q sl, SchedInv s q sl := by
  induction h with
  | init hb => exact ⟨_, _, hb.inv⟩
  | step op _ ha he ih =>
    obtain ⟨q, sl, hinv⟩ := ih
    exact SchedOp.exec_inv hinv ha he

/-- **The run queues in every state that is reached**, as they are linked in memory: a process that
is linked is ready, not exiting, and linked once, on the queue of its priority; `nr_running` counts
the linked processes; a queue that is not empty has its bit; neither the current process nor idle is
queued; and `schedule` selects, with the current process parked first, the head of the lowest queue
that is not empty, or idle when all are empty. Every operation other than the exit of idle returns. -/
theorem sched_run_invariant (s : Sched) (h : SchedReach s) : ∃ q : ℕ → List ℕ,
      (∀ i < maxPrio, Ring s.links (.queue i) ((q i).map .run)) ∧
      (∀ p ∈ s.all, s.runListLinked p = true ↔ ∃ i, p ∈ q i) ∧
      (∀ i, ∀ p ∈ q i, i < maxPrio ∧ p ∈ s.all ∧ (s.procs p).state = .ready ∧
        (s.procs p).exiting = false ∧ (s.procs p).priority = i ∧ (q i).count p = 1 ∧
        ∀ j, p ∈ q j → j = i) ∧
      s.nrRunning = ∑ i ∈ Finset.range maxPrio, (q i).length ∧
      (∀ i, q i ≠ [] → (s.bitmap (i / 64)).getLsbD (i % 64) = true) ∧
      (∀ i, s.curr ∉ q i ∧ s.idle ∉ q i) ∧
      Selects (parkedQ s q) s.idle (schedule s).curr ∧
      (∀ i, s.idle ∉ parkedQ s q i) ∧
      (schedulerTick s).isSome ∧ (timerHandler s).isSome := by
  obtain ⟨q, sl, hinv⟩ := h.inv
  obtain ⟨t, -, ht, -⟩ := schedulerTick_spec hinv
  obtain ⟨u, -, -, hu, -⟩ := timerHandler_spec hinv
  have hmem : s.curr = 0 ∨ s.curr ∈ s.all := hinv.curr.imp_right And.left
  have hpark := park_spec hinv.toQInv hinv.curr_free hmem
  refine ⟨q, hinv.shape.run, fun p hp => hinv.shape.run_linked_iff hp (hinv.ne_zero p hp),
    fun i p hp => ?_, hinv.count, hinv.marked, fun i => ⟨hinv.curr_free i, fun hi => ?_⟩,
    (schedule_spec hinv.toQInv hinv.curr_free hmem).1, fun i hi => ?_, by rw [ht]; rfl,
    by rw [hu]; rfl⟩
  · obtain ⟨h1, h2, h3, -⟩ := hinv.queued i p hp
    exact ⟨hinv.shape.lt hp, hinv.shape.run_mem i p hp, h1, h2, h3,
      count_eq_one_of_mem (hinv.shape.nodup_run i) hp, fun j hj => hinv.shape.apart j i p hj hp⟩
  · exact (hinv.queued i _ hi).2.2.2 rfl
  · exact (hpark.queued i _ hi).2.2.2 (park_same s).idle.symm

def smallBoot : Sched :=
  ⟨⟨id, id⟩, fun _ => ⟨.ready, false, 120, 0, 10, 0⟩, [1], 0, fun _ => 0, 0, 0, 0, false⟩

lemma smallBoot_boot : Boot 1 smallBoot :=
  ⟨by simp [smallBoot], ⟨rfl, rfl⟩, fun _ _ => ⟨⟨rfl, rfl⟩, rfl, rfl⟩, by simp [smallBoot],
    by simp [smallBoot, maxPrio], by simp [smallBoot]⟩

def smallSched : Sched := schedulerEnqueue 2 (createProc 2 100 0 (schedulerInit 1 smallBoot))

lemma smallSched_reach : SchedReach smallSched := by
  refine .step (.enqueue 2) (.step (.create 2 100 0) (.init smallBoot_boot) ?_ rfl) ?_ rfl
  · exact ⟨by decide, by decide, by decide, by decide⟩
  · exact ⟨by decide, by decide⟩

theorem sched_run_invariant_small : (schedule smallSched).curr = 2 ∧ ∃ q : ℕ → List ℕ, (∃ i, 2 ∈ q i) ∧
      Selects (parkedQ smallSched q) smallSched.idle (schedule smallSched).curr := by
  obtain ⟨q, -, hl, -, -, -, -, hsel, -⟩ := sched_run_invariant smallSched smallSched_reach
  exact ⟨by decide +kernel, q, (hl 2 (by decide)).mp (by decide +kernel), hsel⟩

/-- When the timer interrupt comes, idle is running without a request to reschedule, and a process
is queued already or the tick wakes one: a sleeper other than idle with `wakeup_tick` at most the
clock after the tick. -/
def LeavesIdle (s : Sched) : Prop :=
  s.curr = s.idle ∧ s.needResched = false ∧ ∃ p ∈ s.all, s.runListLinked p = true ∨
    (s.sleepListLinked p = true ∧ p ≠ s.idle ∧ DueNext s p)

lemma SchedInv.leavesIdle_iff (h : SchedInv s q sl) : LeavesIdle s ↔ IdleKeeps s q sl := by
  unfold LeavesIdle IdleKeeps
  refine and_congr_right fun _ => and_congr_right fun _ => ?_
  constructor
  · rintro ⟨p, hp, hl | ⟨hl, hid, hd⟩⟩
    · obtain ⟨i, hi⟩ := (h.shape.run_linked_iff hp (h.ne_zero p hp)).mp hl
      exact .inl ⟨i, ne_nil_of_mem hi⟩
    · exact .inr ⟨p, (h.shape.sleep_linked_iff hp (h.ne_zero p hp)).mp hl, hid, hd⟩
  rintro (⟨i, hi⟩ | ⟨p, hp, hid, hd⟩)
  · obtain ⟨p, hp⟩ := exists_mem_of_ne_nil _ hi
    have hall := h.shape.run_mem i p hp
    exact ⟨p, hall, .inl ((h.shape.run_linked_iff hall (h.ne_zero p hall)).mpr ⟨i, hp⟩)⟩
  have hall := h.shape.sleep_mem p hp
  exact ⟨p, hall, .inr ⟨(h.shape.sleep_linked_iff hall (h.ne_zero p hall)).mpr hp, hid, hd⟩⟩

/-- **The idle process and the timer.** From every state that is reached, the timer interrupt
returns, and at its end idle is running beside a process that is linked on a run queue just when
`LeavesIdle` held before. -/
theorem timer_idle_iff (s : Sched) (h : SchedReach s) : ∃ t, timerHandler s = some t ∧
      (((∃ p ∈ t.all, t.runListLinked p = true) → t.curr ≠ t.idle) ↔ ¬ LeavesIdle s) := by
  obtain ⟨q, sl, hinv⟩ := h.inv
  obtain ⟨t, q', sl', ht, hinv', hiff⟩ := timerHandler_spec hinv
  refine ⟨t, ht, ?_⟩
  rw [hinv.leavesIdle_iff, ← hiff]
  refine imp_congr_left ⟨fun ⟨p, hp, hl⟩ => ?_, fun ⟨i, hi⟩ => ?_⟩
  · obtain ⟨i, hi⟩ := (hinv'.shape.run_linked_iff hp (hinv'.ne_zero p hp)).mp hl
    exact ⟨i, ne_nil_of_mem hi⟩
  obtain ⟨p, hp⟩ := exists_mem_of_ne_nil _ hi
  have hall := hinv'.shape.run_mem i p hp
  exact ⟨p, hall, (hinv'.shape.run_linked_iff hall (hinv'.ne_zero p hall)).mpr ⟨i, hp⟩⟩

def smallIdle : Sched := schedulerSleepTimeout 2 4 (schedule smallSched)

lemma smallIdle_reach : SchedReach smallIdle := by
  refine .step (.sleepTimeout 4) (.step .schedule smallSched_reach trivial rfl) trivial ?_
  have hcurr : (schedule smallSched).curr = 2 := by decide +kernel
  simp only [SchedOp.exec, hcurr, smallIdle]

/-- The timer ends the sleep of process 2 while idle runs: the process is linked on its queue, and
idle goes on running. -/
theorem timer_leaves_idle : SchedReach smallIdle ∧ (timerHandler smallIdle).map
      (fun t => (t.runListLinked 2, t.curr == t.idle)) = some (true, true) :=
  ⟨smallIdle_reach, by decide +kernel⟩

theorem timer_idle_iff_small : ∃ t, timerHandler (schedule smallSched) = some t ∧
      ((∃ p ∈ t.all, t.runListLinked p = true) → t.curr ≠ t.idle) := by
  obtain ⟨t, ht, hiff⟩ := timer_idle_iff (schedule smallSched) (.step .schedule smallSched_reach trivial rfl)
  refine ⟨t, ht, hiff.mpr fun hl => ?_⟩
  have hne : (schedule smallSched).curr ≠ (schedule smallSched).idle := by decide +kernel
  exact hne hl.1

end Obelisk
