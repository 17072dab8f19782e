import Obelisk.Sched.Model

/-!
# The lists of the scheduler

`SchedShape L all q sl` says what is linked in memory: queue `i` holds the processes `q i`, the sleep
queue holds `sl`, and every other process is on no list.
-/

namespace Obelisk

open KLib Function List

variable {L : Links Node} {all sl : List ℕ} {q : ℕ → List ℕ} {p i : ℕ}
variable {L' : Links Node} {sl' : List ℕ} {s : Sched}

/-- The run queues are `q` and the sleep queue is `sl`. -/
structure SchedShape (L : Links Node) (all : List ℕ) (q : ℕ → List ℕ) (sl : List ℕ) : Prop where
  run : ∀ i < maxPrio, Ring L (.queue i) ((q i).map .run)
  sleep : Ring L .sleepQueue (sl.map .sleep)
  apart : ∀ i j p, p ∈ q i → p ∈ q j → i = j
  high : ∀ i, maxPrio ≤ i → q i = []
  run_mem : ∀ i, ∀ p ∈ q i, p ∈ all
  sleep_mem : ∀ p ∈ sl, p ∈ all
  soloRun : ∀ p ∈ all, (∀ i, p ∉ q i) → L.Solo (.run p)
  soloSleep : ∀ p ∈ all, p ∉ sl → L.Solo (.sleep p)

lemma del_init (L : Links Node) (x : Node) : (L.del x).init x = L.del x := by
  simp [Links.del, Links.init]

namespace SchedShape

section

variable (h : SchedShape L all q sl)
include h

lemma lt (hp : p ∈ q i) : i < maxPrio := by
  by_contra hi
  rw [h.high i (le_of_not_gt hi)] at hp
  cases hp

lemma nodup_run (i : ℕ) : (q i).Nodup := by
  by_cases hi : i < maxPrio
  · exact (nodup_cons.mp (h.run i hi).nodup).2.of_map
  rw [h.high i (le_of_not_gt hi)]
  exact nodup_nil

lemma nodup_sleep : sl.Nodup :=
  (nodup_cons.mp h.sleep.nodup).2.of_map

end

lemma run_notMem (hp : p ∉ q i) (j : ℕ) : Node.run p ∉ Node.queue j :: (q i).map .run := by
  simpa using hp

section

variable (h : SchedShape L all q sl)
include h

lemma of_agree {q' : ℕ → List ℕ} (hrun : ∀ i < maxPrio, Ring L' (.queue i) ((q' i).map .run))
    (hsleep : Ring L' .sleepQueue (sl'.map .sleep))
    (hq : ∀ i p, p ∈ q' i → p ∈ q i ∨ (p ∈ all ∧ i < maxPrio ∧ ∀ j, p ∉ q j ∧ (p ∈ q' j → j = i)))
    (hsl : ∀ p ∈ sl', p ∈ all)
    (hsoloRun : ∀ p ∈ all, (∀ i, p ∉ q' i) → L'.Solo (.run p))
    (hsoloSleep : ∀ p ∈ all, p ∉ sl' → L'.Solo (.sleep p)) : SchedShape L' all q' sl' where
  run := hrun
  sleep := hsleep
  apart i j p hi hj := by
    rcases hq i p hi with h1 | ⟨-, -, h1⟩
    · rcases hq j p hj with h2 | ⟨-, -, h2⟩
      · exact h.apart i j p h1 h2
      · exact (h2 i).2 hi
    · exact ((h1 j).2 hj).symm
  high i hi := by
    rw [eq_nil_iff_forall_not_mem]
    intro p hp
    rcases hq i p hp with h1 | ⟨-, h1, -⟩
    · exact absurd (h.lt h1) (not_lt.mpr hi)
    · exact absurd h1 (not_lt.mpr hi)
  run_mem i p hp := (hq i p hp).elim (h.run_mem i p) fun h1 => h1.1
  sleep_mem := hsl
  soloRun := hsoloRun
  soloSleep := hsoloSleep

lemma addRun (hp : p ∈ all) (hnot : ∀ j, p ∉ q j) (hi : i < maxPrio) :
    SchedShape (L.addTail (.run p) (.queue i)) all (update q i (q i ++ [p])) sl := by
  have hx := run_notMem (hnot i) i
  have hag : ∀ y, y ∉ Node.queue i :: (q i).map Node.run → y ≠ .run p →
      L.Agree (L.addTail (.run p) (.queue i)) y := fun y hy hne => (h.run i hi).addTail_agree hy hne
  refine h.of_agree (fun j hj => ?_) ?_ (fun j r hr => ?_) h.sleep_mem (fun r hr hnr => ?_) fun r hr hnr => ?_
  · by_cases hji : j = i
    · subst hji
      simpa using (h.run j hj).addTail hx
    · rw [update_of_ne hji]
      refine (h.run j hj).congr fun y hy => hag y ?_ ?_
      · rcases mem_cons.mp hy with rfl | hy
        · simpa using hji
        · obtain ⟨r, hr, rfl⟩ := mem_map.mp hy
          simpa using fun h' => hji (h.apart j i r hr h')
      rintro rfl
      exact run_notMem (hnot j) j hy
  · refine h.sleep.congr fun y hy => hag y ?_ ?_
    · rcases mem_cons.mp hy with rfl | hy
      · simp
      · obtain ⟨r, -, rfl⟩ := mem_map.mp hy
        simp
    · rintro rfl
      simp at hy
  · by_cases hji : j = i
    · subst hji
      rw [update_self, mem_append, mem_singleton] at hr
      rcases hr with hr | rfl
      · exact .inl hr
      refine .inr ⟨hp, hi, fun k => ⟨hnot k, fun hk => ?_⟩⟩
      by_contra hne
      rw [update_of_ne hne] at hk
      exact hnot k hk
    · rw [update_of_ne hji] at hr
      exact .inl hr
  · have hrp : r ≠ p := by
      rintro rfl
      exact hnr i (by simp)
    have hrq : ∀ j, r ∉ q j := fun j hj => hnr j (by
      by_cases hji : j = i
      · subst hji; simp [hj]
      · rwa [update_of_ne hji])
    exact (hag _ (run_notMem (hrq i) i) (by simpa using hrp)).solo (h.soloRun r hr hrq)
  · exact (hag _ (by simp) (by simp)).solo (h.soloSleep r hr hnr)

lemma delRun (hp : p ∈ q i) :
    SchedShape (L.del (.run p)) all (update q i ((q i).erase p)) sl := by
  have hi := h.lt hp
  have hag : ∀ y, y ∉ Node.queue i :: (q i).map Node.run → L.Agree (L.del (.run p)) y :=
    fun y hy => (h.run i hi).del_agree (mem_map.mpr ⟨p, hp, rfl⟩) hy
  refine h.of_agree (fun j hj => ?_) ?_ (fun j r hr => ?_) h.sleep_mem (fun r hr hnr => ?_) fun r hr hnr => ?_
  · by_cases hji : j = i
    · subst hji
      obtain ⟨l1, l2, hnot, hsplit, herase⟩ := exists_erase_eq hp
      rw [update_self, herase, map_append]
      have hr := h.run j hj
      rw [hsplit, map_append, map_cons] at hr
      exact hr.del
    · rw [update_of_ne hji]
      refine (h.run j hj).congr fun y hy => hag y ?_
      rcases mem_cons.mp hy with rfl | hy
      · simpa using hji
      obtain ⟨r, hr, rfl⟩ := mem_map.mp hy
      simpa using fun h' => hji (h.apart j i r hr h')
  · refine h.sleep.congr fun y hy => hag y ?_
    rcases mem_cons.mp hy with rfl | hy
    · simp
    obtain ⟨r, -, rfl⟩ := mem_map.mp hy
    simp
  · refine .inl ?_
    by_cases hji : j = i
    · subst hji
      rw [update_self] at hr
      exact mem_of_mem_erase hr
    · rwa [update_of_ne hji] at hr
  · by_cases hrp : r = p
    · exact hrp ▸ Ring.del_solo L _
    · have hrq : ∀ j, r ∉ q j := fun j hj => hnr j (by
        by_cases hji : j = i
        · subst hji
          simpa using (mem_erase_of_ne hrp).mpr hj
        · rwa [update_of_ne hji])
      exact (hag _ (run_notMem (hrq i) i)).solo (h.soloRun r hr hrq)
  · exact (hag _ (by simp)).solo (h.soloSleep r hr hnr)

end

lemma sleep_notMem (hp : p ∉ sl) : Node.sleep p ∉ Node.sleepQueue :: sl.map .sleep := by
  simpa using hp

section

variable (h : SchedShape L all q sl)
include h

lemma of_sleep (hag : ∀ i p, L.Agree L' (.queue i) ∧ L.Agree L' (.run p))
    (hsleep : Ring L' .sleepQueue (sl'.map .sleep)) (hsl : ∀ p ∈ sl', p ∈ all)
    (hsolo : ∀ p ∈ all, p ∉ sl' → L'.Solo (.sleep p)) : SchedShape L' all q sl' where
  run i hi := by
    refine (h.run i hi).congr fun y hy => ?_
    rcases mem_cons.mp hy with rfl | hy
    · exact (hag i 0).1
    obtain ⟨r, -, rfl⟩ := mem_map.mp hy
    exact (hag i r).2
  sleep := hsleep
  apart := h.apart
  high := h.high
  run_mem := h.run_mem
  sleep_mem := hsl
  soloRun p hp hn := (hag 0 p).2.solo (h.soloRun p hp hn)
  soloSleep := hsolo

lemma addSleep (hp : p ∈ all) (hnot : p ∉ sl) :
    SchedShape (L.addTail (.sleep p) .sleepQueue) all q (sl ++ [p]) := by
  have hag : ∀ y, y ∉ Node.sleepQueue :: sl.map Node.sleep → y ≠ .sleep p →
      L.Agree (L.addTail (.sleep p) .sleepQueue) y := fun y hy hne => h.sleep.addTail_agree hy hne
  refine h.of_sleep (fun i r => ⟨hag _ (by simp) (by simp), hag _ (by simp) (by simp)⟩) ?_ ?_ ?_
  · simpa using h.sleep.addTail (sleep_notMem hnot)
  · intro r hr
    rcases mem_append.mp hr with hr | hr
    · exact h.sleep_mem r hr
    · exact mem_singleton.mp hr ▸ hp
  intro r hr hnr
  rw [mem_append, mem_singleton, not_or] at hnr
  exact (hag _ (sleep_notMem hnr.1) (by simpa using hnr.2)).solo (h.soloSleep r hr hnr.1)

lemma delSleep (hp : p ∈ sl) : SchedShape (L.del (.sleep p)) all q (sl.erase p) := by
  have hag : ∀ y, y ∉ Node.sleepQueue :: sl.map Node.sleep → L.Agree (L.del (.sleep p)) y :=
    fun y hy => h.sleep.del_agree (mem_map.mpr ⟨p, hp, rfl⟩) hy
  refine h.of_sleep (fun i r => ⟨hag _ (by simp), hag _ (by simp)⟩) ?_
    (fun r hr => h.sleep_mem r (mem_of_mem_erase hr)) fun r hr hnr => ?_
  · obtain ⟨l1, l2, -, hsplit, herase⟩ := exists_erase_eq hp
    rw [herase, map_append]
    have hs := h.sleep
    rw [hsplit, map_append, map_cons] at hs
    exact hs.del
  by_cases hrp : r = p
  · exact hrp ▸ Ring.del_solo L _
  have hrs : r ∉ sl := fun hr' => hnr ((mem_erase_of_ne hrp).mpr hr')
  exact (hag _ (sleep_notMem hrs)).solo (h.soloSleep r hr hrs)

lemma create (hp : p ∉ all) : SchedShape ((L.init (.run p)).init (.sleep p)) (p :: all) q sl := by
  have hag : ∀ y, y ≠ .run p → y ≠ .sleep p → L.Agree ((L.init (.run p)).init (.sleep p)) y :=
    fun y h1 h2 => ⟨((L.init _).init_agree h2).1.trans (L.init_agree h1).1,
      ((L.init _).init_agree h2).2.trans (L.init_agree h1).2⟩
  refine ⟨fun i hi => (h.run i hi).congr fun y hy => hag y ?_ ?_, h.sleep.congr fun y hy => hag y ?_ ?_,
    h.apart, h.high, fun i r hr => mem_cons_of_mem _ (h.run_mem i r hr),
    fun r hr => mem_cons_of_mem _ (h.sleep_mem r hr), fun r hr hn => ?_, fun r hr hn => ?_⟩
  · rintro rfl
    exact hp (h.run_mem i p (by simpa using hy))
  · rintro rfl
    simp at hy
  · rintro rfl
    simp at hy
  · rintro rfl
    exact hp (h.sleep_mem p (by simpa using hy))
  · by_cases hrp : r = p
    · subst hrp
      exact ((L.init _).init_agree (by simp)).solo (L.init_solo _)
    · exact (hag _ (by simpa using hrp) (by simp)).solo (h.soloRun r ((mem_cons.mp hr).resolve_left hrp) hn)
  by_cases hrp : r = p
  · exact hrp ▸ (L.init _).init_solo _
  exact (hag _ (by simp) (by simpa using hrp)).solo (h.soloSleep r ((mem_cons.mp hr).resolve_left hrp) hn)

end

lemma run_linked_iff (h : SchedShape s.links s.all q sl) (hp : p ∈ s.all)
    (h0 : p ≠ 0) : s.runListLinked p = true ↔ ∃ i, p ∈ q i := by
  simp only [Sched.runListLinked, Bool.and_eq_true, bne_iff_ne, ne_eq, h0, not_false_eq_true, true_and]
  constructor
  · intro hl
    by_contra hn
    exact hl.1 (h.soloRun p hp fun i hi => hn ⟨i, hi⟩).1
  rintro ⟨i, hi⟩
  obtain ⟨⟨-, h1⟩, -, h2⟩ := (h.run i (h.lt hi)).links_mem (mem_map.mpr ⟨p, hi, rfl⟩)
  exact ⟨h1, h2⟩

lemma sleep_linked_iff (h : SchedShape s.links s.all q sl) (hp : p ∈ s.all)
    (h0 : p ≠ 0) : s.sleepListLinked p = true ↔ p ∈ sl := by
  simp only [Sched.sleepListLinked, Bool.and_eq_true, bne_iff_ne, ne_eq, h0, not_false_eq_true, true_and]
  constructor
  · intro hl
    by_contra hn
    exact hl.1 (h.soloSleep p hp hn).1
  intro hi
  obtain ⟨⟨-, h1⟩, -, h2⟩ := h.sleep.links_mem (mem_map.mpr ⟨p, hi, rfl⟩)
  exact ⟨h1, h2⟩

lemma empty_iff (h : SchedShape L all q sl) (hi : i < maxPrio) :
    L.empty (.queue i) = true ↔ q i = [] := by
  rw [(h.run i hi).empty_iff, map_eq_nil_iff]

lemma first (h : SchedShape L all q sl) {l : List ℕ} (hq : q i = p :: l) :
    (L.next (.queue i)).proc = p := by
  have hr := h.run i (h.lt (hq ▸ mem_cons_self))
  rw [hq, map_cons] at hr
  rw [hr.first]
  rfl

end SchedShape

lemma Boot.shape {idle : ℕ} (h : Boot idle s) :
    SchedShape (schedulerInit idle s).links s.all (fun _ => []) [] := by
  -- initialising the queue heads touches nothing else
  have hfold : ∀ (is : List ℕ) (L : Links Node), let L' := is.foldl (fun L i => L.init (.queue i)) L
      (∀ i ∈ is, L'.Solo (.queue i)) ∧ (∀ i, L.Solo (.queue i) → L'.Solo (.queue i)) ∧
      ∀ y, (∀ i, y ≠ .queue i) → L.Agree L' y := by
    intro is
    induction is with
    | nil => exact fun L => ⟨by simp, fun _ hs => hs, fun _ _ => ⟨rfl, rfl⟩⟩
    | cons i is ih =>
      intro L
      obtain ⟨h1, h2, h3⟩ := ih (L.init (.queue i))
      refine ⟨fun j hj => ?_, fun j hj => ?_, fun y hy => ?_⟩
      · rcases mem_cons.mp hj with rfl | hj
        · exact h2 j (L.init_solo _)
        · exact h1 j hj
      · refine h2 j ?_
        by_cases hji : j = i
        · exact hji ▸ L.init_solo _
        · exact (L.init_agree (by simpa using hji)).solo hj
      have ha := L.init_agree (hy i)
      exact ⟨(h3 y hy).1.trans ha.1, (h3 y hy).2.trans ha.2⟩
  obtain ⟨h1, -, h3⟩ := hfold (List.range maxPrio) s.links
  exact ⟨fun i hi => ring_nil (h1 i (mem_range.mpr hi)),
    ring_nil ((h3 _ (by simp)).solo h.sleepQueue), by simp, fun _ _ => rfl, by simp, by simp,
    fun p hp _ => (h3 _ (by simp)).solo (h.solo p hp).1,
    fun p hp _ => (h3 _ (by simp)).solo (h.solo p hp).2⟩

end Obelisk
