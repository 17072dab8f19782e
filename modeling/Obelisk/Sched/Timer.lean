import Obelisk.Sched.Schedule

/-!
# The timer

- `timerHandler_spec`: what a timer interrupt does to the queues.
-/

namespace Obelisk

open KLib Function List

variable {s t : Sched} {q : ℕ → List ℕ} {sl done rest : List ℕ} {p i : ℕ}
variable {L : Links Node} {all : List ℕ}

def Due (s : Sched) (p : ℕ) : Prop :=
  (s.procs p).state = .sleeping ∧ (s.procs p).wakeupTick ≤ s.clock

instance (s : Sched) (p : ℕ) : Decidable (Due s p) := by unfold Due; infer_instance

def headNode : List ℕ → Node
  | [] => .sleepQueue
  | p :: _ => .sleep p

lemma SchedShape.next_sleepQueue (h : SchedShape L all q sl) :
    L.next .sleepQueue = headNode sl := by
  have hp := h.sleep.path
  cases sl with
  | nil | cons => exact hp.1

lemma SchedShape.next_sleep
    (h : SchedShape L all q (done ++ p :: rest)) : L.next (.sleep p) = headNode rest := by
  have hp := h.sleep.path
  rw [map_append, map_cons] at hp
  have hp := (path_append.mp hp).2
  cases rest with
  | nil | cons => exact hp.1

lemma SchedInv.removeSleeper (h : SchedInv s q sl) (hp : p ∈ sl) :
    SchedInv ((s.setLinks ((s.links.del (.sleep p)).init (.sleep p))).updProc p
      ({ · with wakeupTick := 0 })) q (sl.erase p) := by
  refine ⟨(h.toQInv.delSleeper hp).setWakeup p 0, h.curr_free, ?_⟩
  have hst : ∀ r, ((((s.setLinks ((s.links.del (.sleep p)).init (.sleep p))).updProc p
      ({ · with wakeupTick := 0 })).procs r).state) = (s.procs r).state := by
    intro r
    by_cases hr : r = p
    · subst hr
      simp [Sched.updProc, Sched.setLinks]
    · simp [Sched.updProc, Sched.setLinks, update_of_ne hr]
  exact h.curr.imp_right fun hc => ⟨hc.1, (hst _).trans hc.2⟩

lemma SchedInv.wakeDue (h : SchedInv s q (done ++ p :: rest)) (hd : Due s p) :
    let t := schedulerEnqueue p ((s.setLinks ((s.links.del (.sleep p)).init (.sleep p))).updProc p
      ({ · with wakeupTick := 0 }))
    ∃ q', SchedInv t q' (done ++ rest) ∧ SameTask s t ∧ (∀ r, r ≠ p → t.procs r = s.procs r) ∧
      (p ≠ s.idle → (t.procs p).state = .ready) ∧
      ((∃ i, q' i ≠ []) ↔ (∃ i, q i ≠ []) ∨ p ≠ s.idle) := by
  intro t
  have hmem : p ∈ done ++ p :: rest := by simp
  have hall := h.shape.sleep_mem p hmem
  have hnd := h.shape.nodup_sleep
  have hpd : p ∉ done := fun hp => by
    rw [nodup_append] at hnd
    exact hnd.2.2 p hp p mem_cons_self rfl
  have hpr : p ∉ rest := by
    rw [nodup_append] at hnd
    exact (nodup_cons.mp hnd.2.1).1
  have herase : (done ++ p :: rest).erase p = done ++ rest := by
    rw [erase_append_right _ hpd, erase_cons_head]
  have h1 := h.removeSleeper hmem
  rw [herase] at h1
  set u := (s.setLinks ((s.links.del (.sleep p)).init (.sleep p))).updProc p
    ({ · with wakeupTick := 0 }) with hu
  have hup : (u.procs p).state = .sleeping ∧ (u.procs p).exiting = (s.procs p).exiting := by
    simp [hu, Sched.updProc, Sched.setLinks, hd.1]
  have hne : p ≠ u.curr := h1.ne_curr hall (by rw [hup.1]; simp)
  obtain ⟨q', sl', hinv, he, hsl⟩ := h1.wakeUp hall hne
  have hsl' : sl' = done ++ rest := by
    rcases hsl with e | e
    · exact e
    rw [e, erase_of_not_mem]
    simp [hpd, hpr]
  subst hsl'
  have hqueued : p ≠ s.idle → ∃ i, p ∈ q' i := by
    intro hid
    have hex : (u.procs p).exiting = false := by
      by_contra hex
      have := h1.exiting p hall hid (by simpa using hex)
      rw [hup.1] at this
      cases this
    exact he.queued hid (by simp [Proc.schedulable, hup.1, hex])
  refine ⟨q', hinv, ⟨he.same.all, he.same.curr, he.same.idle, he.same.clock, he.same.needResched⟩,
    fun r hr => ?_, fun hid => ?_, ?_⟩
  · rw [he.procs r hr]
    exact update_of_ne hr _ _
  · obtain ⟨i, hi⟩ := hqueued hid
    exact (hinv.queued i p hi).1
  constructor
  · rintro ⟨i, hi⟩
    by_cases hid : p = s.idle
    · rw [he.idle hid] at hi
      exact .inl ⟨i, hi⟩
    · exact .inr hid
  rintro (⟨i, hi⟩ | hid)
  · obtain ⟨r, hr⟩ := exists_mem_of_ne_nil _ hi
    refine ⟨i, ne_nil_of_mem (a := r) ?_⟩
    by_cases hrp : r = p
    · exact hrp ▸ he.mem i (hrp ▸ hr)
    · exact (he.other i r hrp).mpr hr
  obtain ⟨i, hi⟩ := hqueued hid
  exact ⟨i, ne_nil_of_mem hi⟩

/-- The processes of `rest` that are due have been woken. -/
structure Woken (s : Sched) (rest : List ℕ) (t : Sched) : Prop where
  same : SameTask s t
  kept : ∀ r, r ∉ rest ∨ ¬ Due s r → t.procs r = s.procs r
  ready : ∀ r ∈ rest, Due s r → r ≠ s.idle → (t.procs r).state = .ready

/-- **The walk over the sleep queue** ends within the fuel, and a process is queued afterwards just
when one was queued before or a sleeper other than idle was due. -/
theorem sleepLoop_spec (done rest : List ℕ) (h : SchedInv s q (done ++ rest)) {fuel : ℕ} (hf : rest.length < fuel) :
    ∃ t q', sleepLoop fuel (headNode rest) (s.links.next (headNode rest)) s = some t ∧
      SchedInv t q' (done ++ rest.filter fun p => ¬ Due s p) ∧ Woken s rest t ∧
      ((∃ i, q' i ≠ []) ↔ (∃ i, q i ≠ []) ∨ ∃ p ∈ rest, p ≠ s.idle ∧ Due s p) := by
  induction rest generalizing fuel s q done with
  | nil =>
    obtain ⟨fuel, rfl⟩ := Nat.exists_eq_add_of_lt hf
    exact ⟨s, q, by simp [sleepLoop, headNode], h, ⟨.refl s, fun _ _ => rfl, by simp⟩, by simp⟩
  | cons p rest ih =>
    obtain ⟨fuel, rfl⟩ := Nat.exists_eq_succ_of_ne_zero (ne_of_gt (Nat.zero_lt_of_lt hf))
    have hf' : rest.length < fuel := by
      simp only [length_cons] at hf
      omega
    have hnext := h.shape.next_sleep
    by_cases hd : Due s p
    · obtain ⟨q1, hinv, hsame, hprocs, hready, hiff⟩ := h.wakeDue hd
      set t := schedulerEnqueue p ((s.setLinks ((s.links.del (.sleep p)).init (.sleep p))).updProc p
        ({ · with wakeupTick := 0 })) with ht
      have hloop : sleepLoop (fuel + 1) (headNode (p :: rest)) (s.links.next (headNode (p :: rest))) s =
          sleepLoop fuel (headNode rest) (t.links.next (headNode rest)) t := by
        simp [sleepLoop, headNode, Node.proc, hd.1, hd.2, hnext, ht]
      obtain ⟨u, q', hu, hinv', hwoken, hiff'⟩ := ih done hinv hf'
      have hnot : ∀ r ∈ rest, r ≠ p := by
        rintro r hr rfl
        have := (nodup_append.mp h.shape.nodup_sleep).2.1
        exact (nodup_cons.mp this).1 hr
      have hdue : ∀ r ∈ rest, Due t r ↔ Due s r := fun r hr => by
        rw [Due, Due, hprocs r (hnot r hr), hsame.clock]
      have hfilter : ((p :: rest).filter fun r => ¬ Due s r) = rest.filter fun r => ¬ Due t r := by
        rw [filter_cons_of_neg (by simpa using hd)]
        exact filter_congr fun r hr => decide_eq_decide.mpr (hdue r hr).not.symm
      rw [← hfilter] at hinv'
      refine ⟨u, q', hloop.trans hu, hinv', ⟨hsame.trans hwoken.same, fun r hr => ?_, fun r hr hdr hid => ?_⟩, ?_⟩
      · have hrp : r ≠ p := by
          rintro rfl
          exact hr.elim (fun hr => hr mem_cons_self) fun hr => hr hd
        rw [← hprocs r hrp]
        refine hwoken.kept r (or_iff_not_imp_left.mpr fun hmem => ?_)
        rw [hdue r (not_not.mp hmem)]
        exact hr.resolve_left fun hr => hr (mem_cons_of_mem p (not_not.mp hmem))
      · obtain rfl | hr := mem_cons.mp hr
        · rw [hwoken.kept r (.inl fun hmem => hnot r hmem rfl)]
          exact hready hid
        · exact hwoken.ready r hr ((hdue r hr).mpr hdr) (hsame.idle ▸ hid)
      rw [hiff', hiff, hsame.idle]
      simp only [mem_cons, exists_eq_or_imp, hd, and_true, or_assoc]
      refine or_congr_right (or_congr_right (exists_congr fun r => ?_))
      exact and_congr_right fun hr => and_congr_right fun _ => hdue r hr
    have hloop : sleepLoop (fuel + 1) (headNode (p :: rest)) (s.links.next (headNode (p :: rest))) s =
        sleepLoop fuel (headNode rest) (s.links.next (headNode rest)) s := by
      have hb : ((s.procs p).state == .sleeping && decide ((s.procs p).wakeupTick ≤ s.clock)) =
          false := by simpa [Due] using hd
      have hne : (Node.sleep p == .sleepQueue) = false := rfl
      simp only [show headNode (p :: rest) = .sleep p from rfl, hnext, sleepLoop, Node.proc, hb, hne,
        Bool.false_eq_true, if_false]
    obtain ⟨u, q', hu, hinv', hwoken, hiff'⟩ := ih (done ++ [p]) (by simpa using h) hf'
    have hfilter : (done ++ (p :: rest).filter fun r => ¬ Due s r) =
        done ++ [p] ++ rest.filter fun r => ¬ Due s r := by
      rw [filter_cons_of_pos (by simpa using hd), append_assoc]
      rfl
    rw [← hfilter] at hinv'
    refine ⟨u, q', hloop.trans hu, hinv', ⟨hwoken.same, fun r hr => ?_, fun r hr hdr hid => ?_⟩, ?_⟩
    · exact hwoken.kept r (hr.imp_left fun hr hmem => hr (mem_cons_of_mem p hmem))
    · obtain rfl | hr := mem_cons.mp hr
      · exact absurd hdr hd
      · exact hwoken.ready r hr hdr hid
    rw [hiff']
    simp [hd]

lemma wakeSleepers_spec (h : SchedInv s q sl) :
    ∃ t q', wakeSleepers s = some t ∧ SchedInv t q' (sl.filter fun p => ¬ Due s p) ∧ Woken s sl t ∧
      ((∃ i, q' i ≠ []) ↔ (∃ i, q i ≠ []) ∨ ∃ p ∈ sl, p ≠ s.idle ∧ Due s p) := by
  have hlen : sl.length < s.all.length + 1 :=
    Nat.lt_succ_of_le (subperm_of_subset h.shape.nodup_sleep h.shape.sleep_mem).length_le
  unfold wakeSleepers
  rw [h.shape.next_sleepQueue]
  exact sleepLoop_spec [] sl h hlen

lemma SchedInv.setTimeSlice (h : SchedInv s q sl) (f : Proc → ℤ) :
    SchedInv (s.updProc s.curr fun r => { r with timeSlice := f r }) q sl := by
  refine ⟨h.toQInv.setTimeSlice s.curr f, h.curr_free, h.curr.imp_right fun ⟨h1, h2⟩ => ⟨h1, ?_⟩⟩
  simpa [Sched.updProc] using h2

lemma rrTick_spec (h : SchedInv s q sl) : let t := rrTick s.curr s
    SchedInv t q sl ∧ (t.all = s.all ∧ t.curr = s.curr ∧ t.idle = s.idle ∧ t.clock = s.clock) ∧
      (s.curr = s.idle → t.needResched = s.needResched) ∧
      ∀ r, (t.procs r).state = (s.procs r).state ∧ (t.procs r).wakeupTick = (s.procs r).wakeupTick := by
  intro t
  have hprocs : ∀ (u : Sched) (f : Proc → ℤ) (r : ℕ),
      ((u.updProc s.curr fun x => { x with timeSlice := f x }).procs r).state = (u.procs r).state ∧
      ((u.updProc s.curr fun x => { x with timeSlice := f x }).procs r).wakeupTick =
        (u.procs r).wakeupTick := by
    intro u f r
    by_cases hr : r = s.curr
    · subst hr
      simp [Sched.updProc]
    · simp [Sched.updProc, update_of_ne hr]
  by_cases hid : s.curr = s.idle
  · have ht : t = s := by simp [t, rrTick, hid]
    rw [ht]
    exact ⟨h, ⟨rfl, rfl, rfl, rfl⟩, fun _ => rfl, fun _ => ⟨rfl, rfl⟩⟩
  by_cases h0 : s.curr = 0
  · have ht : t = s := by simp [t, rrTick, h0]
    rw [ht]
    exact ⟨h, ⟨rfl, rfl, rfl, rfl⟩, fun _ => rfl, fun _ => ⟨rfl, rfl⟩⟩
  set u := s.updProc s.curr fun r => { r with timeSlice := r.timeSlice - 1 } with hu
  have hinv : SchedInv u q sl := h.setTimeSlice _
  have hpu := hprocs s fun x => x.timeSlice - 1
  have ht : t = if (u.procs s.curr).timeSlice ≤ 0 then
      if 0 < u.nrRunning then { u with needResched := true }
      else u.updProc s.curr fun r => { r with timeSlice := rrTimeSlice r }
    else u := by
    simp [t, rrTick, h0, hid, hu]
  rw [ht]
  split_ifs
  · exact ⟨hinv.setNeedResched true, ⟨rfl, rfl, rfl, rfl⟩, fun e => absurd e hid, hpu⟩
  · refine ⟨hinv.setTimeSlice rrTimeSlice, ⟨rfl, rfl, rfl, rfl⟩, fun e => absurd e hid, fun r => ?_⟩
    exact ⟨(hprocs u rrTimeSlice r).1.trans (hpu r).1, (hprocs u rrTimeSlice r).2.trans (hpu r).2⟩
  · exact ⟨hinv, ⟨rfl, rfl, rfl, rfl⟩, fun e => absurd e hid, hpu⟩

def DueNext (s : Sched) (p : ℕ) : Prop :=
  (s.procs p).state = .sleeping ∧ (s.procs p).wakeupTick ≤ u64 (s.clock + tickMs)

instance (s : Sched) (p : ℕ) : Decidable (DueNext s p) := by unfold DueNext; infer_instance

/-- What a tick does to the clock and to the processes; `sl` is the sleep queue before it. -/
structure Ticked (s : Sched) (sl : List ℕ) (t : Sched) : Prop where
  all : t.all = s.all
  curr : t.curr = s.curr
  idle : t.idle = s.idle
  clock : t.clock = u64 (s.clock + tickMs)
  kept : ∀ r, r ∉ sl ∨ ¬ DueNext s r →
    (t.procs r).state = (s.procs r).state ∧ (t.procs r).wakeupTick = (s.procs r).wakeupTick
  ready : ∀ r ∈ sl, DueNext s r → r ≠ s.idle → (t.procs r).state = .ready

/-- **`scheduler_tick`** returns, keeps the invariant and the current process, and leaves a process
queued just when one was queued or a sleeper is due. -/
theorem schedulerTick_spec (h : SchedInv s q sl) :
    ∃ t q', schedulerTick s = some t ∧ SchedInv t q' (sl.filter fun p => ¬ DueNext s p) ∧
      Ticked s sl t ∧ (s.curr = s.idle → t.needResched = s.needResched) ∧
      ((∃ i, q' i ≠ []) ↔ (∃ i, q i ≠ []) ∨ ∃ p ∈ sl, p ≠ s.idle ∧ DueNext s p) := by
  obtain ⟨hinv, ⟨hall, hcurr, hidle, hclock⟩, hflag, hprocs⟩ := rrTick_spec h
  set u := rrTick s.curr s with hu
  have hif : (if s.curr != 0 then rrTick s.curr s else s) = u := by
    by_cases h0 : s.curr = 0
    · simp [hu, rrTick, h0]
    · simp [h0, hu]
  have hclk : SchedInv { u with clock := u64 (s.clock + tickMs) } q sl :=
    ⟨⟨hinv.shape, hinv.queued, hinv.count, hinv.marked, hinv.ne_zero, hinv.priority, hinv.idle_mem,
      hinv.exiting⟩, hinv.curr_free, hinv.curr⟩
  have hdue : ∀ r, Due { u with clock := u64 (s.clock + tickMs) } r ↔ DueNext s r := fun r => by
    rw [Due, DueNext]
    dsimp only
    rw [(hprocs r).1, (hprocs r).2]
  obtain ⟨t, q', ht, hinv', hwoken, hiff⟩ := wakeSleepers_spec hclk
  simp only [hdue] at hinv' hiff
  have hsame := hwoken.same
  refine ⟨t, q', ?_, hinv', ⟨hsame.all.trans hall, hsame.curr.trans hcurr, hsame.idle.trans hidle,
    hsame.clock, fun r hr => ?_, fun r hr hd hid => ?_⟩,
    fun e => hsame.needResched.trans (hflag e), ?_⟩
  · unfold schedulerTick
    rw [hif]
    dsimp only
    rwa [hclock]
  · rw [hwoken.kept r (hr.imp_right (hdue r).not.mpr)]
    exact hprocs r
  · exact hwoken.ready r hr ((hdue r).mpr hd) (hidle.symm ▸ hid)
  · rw [hiff, hidle]

/-- The timer finds idle running, with no request to reschedule, although a process is queued or a
sleeper is due. -/
def IdleKeeps (s : Sched) (q : ℕ → List ℕ) (sl : List ℕ) : Prop :=
  s.curr = s.idle ∧ s.needResched = false ∧ ((∃ i, q i ≠ []) ∨ ∃ p ∈ sl, p ≠ s.idle ∧ DueNext s p)

/-- **The timer interrupt** keeps the invariant, and leaves idle running beside a queued process just
when `IdleKeeps` held. -/
theorem timerHandler_spec (h : SchedInv s q sl) : ∃ t q' sl', timerHandler s = some t ∧ SchedInv t q' sl' ∧
      (((∃ i, q' i ≠ []) → t.curr ≠ t.idle) ↔ ¬ IdleKeeps s q sl) := by
  obtain ⟨t, q1, ht, hinv, htick, hflag, hiff⟩ := schedulerTick_spec h
  have hcall : t.curr = 0 ∨ t.curr ∈ t.all := hinv.curr.imp_right And.left
  by_cases hn : t.needResched = true
  · obtain ⟨hsel, hinv', -, -, hidle', -⟩ := schedule_spec hinv.toQInv hinv.curr_free hcall
    refine ⟨schedule t, _, _, by simp [timerHandler, ht, hn], hinv', iff_of_true ?_ ?_⟩
    · rintro ⟨i, hi⟩ he
      rcases hsel with ⟨j, l, hq, -⟩ | ⟨hempty, -⟩
      · -- the process selected was queued, so that it is not idle
        have hpark := park_spec hinv.toQInv hinv.curr_free hcall
        have := (hpark.queued j _ (hq ▸ mem_cons_self)).2.2.2
        rw [(park_same t).idle] at this
        exact this (he.trans hidle')
      · exact hi (by simp [popQ, hempty i])
    rintro ⟨he, hf, -⟩
    rw [hflag he, hf] at hn
    cases hn
  refine ⟨t, q1, _, by simp [timerHandler, ht, hn], hinv, ?_⟩
  rw [hiff, htick.curr, htick.idle, IdleKeeps]
  constructor
  · rintro himp ⟨he, -, hne⟩
    exact himp hne he
  intro hnot hne he
  exact hnot ⟨he, by rw [← hflag he]; simpa using hn, hne⟩

end Obelisk
