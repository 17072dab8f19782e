import Mathlib.Algebra.Order.BigOperators.Group.Finset
import Obelisk.Sched.Queues

/-!
# The round-robin policy
-/

namespace Obelisk

open KLib Function Finset

variable {s : Sched} {q : ℕ → List ℕ} {sl : List ℕ} {p i : ℕ}
variable {b hi lo : ℕ} {bm : ℕ → BitVec 64} {r : Option ℕ} {L : Links Node} {all : List ℕ}

def Marked (bm : ℕ → BitVec 64) (i : ℕ) : Prop := (bm (i / 64)).getLsbD (i % 64) = true

/-- **The run queue.** Queue `i` holds the processes `q i`, which are ready and of priority `i`; the
counter counts them and the bitmap marks every queue that is not empty. -/
structure QInv (s : Sched) (q : ℕ → List ℕ) (sl : List ℕ) : Prop where
  shape : SchedShape s.links s.all q sl
  queued : ∀ i, ∀ p ∈ q i, (s.procs p).state = .ready ∧ (s.procs p).exiting = false ∧
    (s.procs p).priority = i ∧ p ≠ s.idle
  count : s.nrRunning = ∑ i ∈ range maxPrio, (q i).length
  marked : ∀ i, q i ≠ [] → Marked s.bitmap i
  ne_zero : ∀ p ∈ s.all, p ≠ 0
  priority : ∀ p ∈ s.all, 0 ≤ (s.procs p).priority ∧ (s.procs p).priority < maxPrio
  idle_mem : s.idle ∈ s.all
  exiting : ∀ p ∈ s.all, p ≠ s.idle → (s.procs p).exiting = true → (s.procs p).state = .zombie

lemma getLsbD_prioBit (hb : b < 64) (prio : ℕ) :
    (prioBit prio).getLsbD b = decide (b = prio % 64) := getLsbD_one_shiftLeft _ _ hb

lemma marked_or {prio : ℕ} (h : Marked bm i ∨ i = prio) :
    Marked (update bm (prio / 64) (bm (prio / 64) ||| prioBit prio)) i := by
  unfold Marked at h ⊢
  by_cases hw : i / 64 = prio / 64
  · rw [hw, update_self, BitVec.getLsbD_or, getLsbD_prioBit (Nat.mod_lt _ (by decide))]
    rcases h with h | rfl
    · rw [← hw, h, Bool.true_or]
    · simp
  rw [update_of_ne hw]
  exact h.resolve_right fun e => hw (e ▸ rfl)

lemma marked_clear {w : ℕ} (h : Marked bm i) (hne : i / 64 = w → i % 64 ≠ b) :
    Marked (update bm w (bm w &&& ~~~ (1#64 <<< b))) i := by
  unfold Marked at h ⊢
  have hb : i % 64 < 64 := Nat.mod_lt _ (by decide)
  by_cases hw : i / 64 = w
  · subst hw
    rw [update_self, BitVec.getLsbD_and, h, BitVec.getLsbD_not, getLsbD_one_shiftLeft _ _ hb]
    simp [hb, hne rfl]
  · rwa [update_of_ne hw]

lemma sum_update (q : ℕ → List ℕ) (hi : i < maxPrio) (l : List ℕ) :
    ∑ j ∈ range maxPrio, (update q i l j).length + (q i).length =
      ∑ j ∈ range maxPrio, (q j).length + l.length := by
  have hmem := mem_range.mpr hi
  have hrest : ∑ j ∈ (range maxPrio).erase i, (update q i l j).length =
      ∑ j ∈ (range maxPrio).erase i, (q j).length :=
    sum_congr rfl fun j hj => by rw [update_of_ne (ne_of_mem_erase hj)]
  rw [← add_sum_erase _ _ hmem, ← add_sum_erase _ (fun j => (q j).length) hmem, hrest, update_self]
  omega

namespace QInv

section

variable (h : QInv s q sl)
include h

lemma clamp (hp : p ∈ s.all) :
    (min (max (s.procs p).priority 0) ((maxPrio : ℤ) - 1)).toNat = (s.procs p).priority.toNat := by
  obtain ⟨h1, h2⟩ := h.priority p hp
  rw [max_eq_left h1, min_eq_left (by omega)]

lemma prio_lt (hp : p ∈ s.all) : (s.procs p).priority.toNat < maxPrio := by
  obtain ⟨h1, h2⟩ := h.priority p hp
  omega

lemma updProc (f : Proc → Proc) (hprio : (f (s.procs p)).priority = (s.procs p).priority)
    (hq : ∀ i, p ∈ q i → (f (s.procs p)).state = .ready ∧ (f (s.procs p)).exiting = false)
    (hexit : p ∈ s.all → p ≠ s.idle → (f (s.procs p)).exiting = true →
      (f (s.procs p)).state = .zombie) : QInv (s.updProc p f) q sl := by
  have hself : (s.updProc p f).procs p = f (s.procs p) := update_self ..
  have hother : ∀ r, r ≠ p → (s.updProc p f).procs r = s.procs r := fun r hr =>
    update_of_ne hr _ _
  refine ⟨h.shape, fun i r hr => ?_, h.count, h.marked, h.ne_zero, fun r hr => ?_, h.idle_mem, fun r hr hne => ?_⟩
  · by_cases hrp : r = p
    · subst hrp
      rw [hself]
      exact ⟨(hq i hr).1, (hq i hr).2, hprio.trans (h.queued i r hr).2.2.1, (h.queued i r hr).2.2.2⟩
    · rw [hother r hrp]
      exact h.queued i r hr
  · by_cases hrp : r = p
    · subst hrp
      rw [hself, hprio]
      exact h.priority r hr
    · rw [hother r hrp]
      exact h.priority r hr
  by_cases hrp : r = p
  · subst hrp
    rw [hself]
    exact hexit hr hne
  rw [hother r hrp]
  exact h.exiting r hr hne

lemma setState (st : ProcState) (hp : ∀ i, p ∉ q i)
    (hexit : p = s.idle ∨ (s.procs p).exiting = false) : QInv (s.setState p st) q sl := by
  refine h.updProc _ rfl (fun i hi => absurd hi (hp i)) fun _ hne he => ?_
  rcases hexit with e | e
  · exact absurd e hne
  · exact absurd (e.symm.trans he) (by simp)

lemma setTimeSlice (p : ℕ) (f : Proc → ℤ) :
    QInv (s.updProc p fun r => { r with timeSlice := f r }) q sl :=
  h.updProc _ rfl (fun i hi => ⟨(h.queued i p hi).1, (h.queued i p hi).2.1⟩) (h.exiting p)

lemma setWakeup (p tick : ℕ) : QInv (s.updProc p ({ · with wakeupTick := tick })) q sl :=
  h.updProc _ rfl (fun i hi => ⟨(h.queued i p hi).1, (h.queued i p hi).2.1⟩) (h.exiting p)

end

end QInv

def pushQ (q : ℕ → List ℕ) (i p : ℕ) : ℕ → List ℕ := update q i (q i ++ [p])

lemma rrEnqueue_linked (hl : s.runListLinked p = true) : rrEnqueue p s = s := by
  simp [rrEnqueue, hl]

@[simp] lemma rrEnqueue_frame (p : ℕ) (s : Sched) : (rrEnqueue p s).procs = s.procs ∧
    (rrEnqueue p s).all = s.all ∧ (rrEnqueue p s).curr = s.curr ∧ (rrEnqueue p s).idle = s.idle ∧
    (rrEnqueue p s).clock = s.clock ∧ (rrEnqueue p s).needResched = s.needResched := by
  unfold rrEnqueue
  dsimp only
  split_ifs <;> exact ⟨rfl, rfl, rfl, rfl, rfl, rfl⟩

lemma QInv.enqueue (h : QInv s q sl) (hp : p ∈ s.all) (hnot : ∀ i, p ∉ q i)
    (hst : (s.procs p).state = .ready) (hex : (s.procs p).exiting = false) (hid : p ≠ s.idle) :
    QInv (rrEnqueue p s) (pushQ q (s.procs p).priority.toNat p) sl := by
  have h0 := h.ne_zero p hp
  have hi := h.prio_lt hp
  set prio := (s.procs p).priority.toNat with hprio
  have hl : s.runListLinked p = false := by
    rw [Bool.eq_false_iff, ne_eq, h.shape.run_linked_iff hp h0]
    exact fun ⟨i, hi⟩ => hnot i hi
  have hrr : rrEnqueue p s = { s with
      links := s.links.addTail (.run p) (.queue prio)
      bitmap := update s.bitmap (prio / 64) (s.bitmap (prio / 64) ||| prioBit prio)
      nrRunning := s.nrRunning + 1 } := by
    simp only [rrEnqueue, h.clamp hp, ← hprio, hl, Bool.or_false, beq_iff_eq, h0, if_false]
  rw [hrr]
  refine ⟨h.shape.addRun hp hnot hi, fun i r hr => ?_, ?_, fun i hne => marked_or ?_, h.ne_zero,
    h.priority, h.idle_mem, h.exiting⟩
  · by_cases hip : i = prio
    · subst hip
      rw [pushQ, update_self, List.mem_append, List.mem_singleton] at hr
      rcases hr with hr | rfl
      · exact h.queued _ r hr
      · exact ⟨hst, hex, (Int.toNat_of_nonneg (h.priority r hp).1).symm, hid⟩
    · rw [pushQ, update_of_ne hip] at hr
      exact h.queued i r hr
  · have := sum_update q hi (q prio ++ [p])
    simp only [List.length_append, List.length_singleton] at this
    change s.nrRunning + 1 = ∑ i ∈ range maxPrio, (pushQ q prio p i).length
    rw [h.count, pushQ]
    omega
  by_cases hip : i = prio
  · exact .inr hip
  rw [pushQ, update_of_ne hip] at hne
  exact .inl (h.marked i hne)

@[simp] lemma rrDequeue_frame (p : ℕ) (s : Sched) : (rrDequeue p s).procs = s.procs ∧
    (rrDequeue p s).all = s.all ∧ (rrDequeue p s).curr = s.curr ∧ (rrDequeue p s).idle = s.idle ∧
    (rrDequeue p s).clock = s.clock ∧ (rrDequeue p s).needResched = s.needResched := by
  unfold rrDequeue
  dsimp only
  split_ifs <;> exact ⟨rfl, rfl, rfl, rfl, rfl, rfl⟩

lemma QInv.dequeue (h : QInv s q sl) (hp : p ∈ q i) :
    QInv (rrDequeue p s) (update q i ((q i).erase p)) sl := by
  have hmem := h.shape.run_mem i p hp
  have h0 := h.ne_zero p hmem
  have hi := h.shape.lt hp
  have hl : s.runListLinked p = true := (h.shape.run_linked_iff hmem h0).mpr ⟨i, hp⟩
  have hprio : (s.procs p).priority.toNat = i := by
    rw [(h.queued i p hp).2.2.1, Int.toNat_natCast]
  have hshape := h.shape.delRun hp
  have hlen : (q i).length = ((q i).erase p).length + 1 := by
    rw [List.length_erase_of_mem hp]
    have := List.length_pos_of_mem hp
    omega
  have hsum := sum_update q hi ((q i).erase p)
  have hpos : 0 < s.nrRunning := by rw [h.count]; omega
  have hrr : rrDequeue p s = { s with
      links := s.links.del (.run p)
      bitmap := if (s.links.del (.run p)).empty (.queue i) then
          update s.bitmap (i / 64) (s.bitmap (i / 64) &&& ~~~ prioBit i)
        else s.bitmap
      nrRunning := s.nrRunning - 1 } := by
    simp only [rrDequeue, hl, hprio, del_init, hpos, if_true, beq_iff_eq, h0, if_false,
      Bool.not_true, Bool.or_false]
  rw [hrr]
  refine ⟨hshape, fun j r hr => ?_, ?_, fun j hne => ?_, h.ne_zero, h.priority, h.idle_mem, h.exiting⟩
  · by_cases hji : j = i
    · subst hji
      rw [update_self] at hr
      exact h.queued j r (List.mem_of_mem_erase hr)
    · rw [update_of_ne hji] at hr
      exact h.queued j r hr
  · change s.nrRunning - 1 = _
    rw [h.count]
    omega
  -- the bit that is cleared is that of a queue that became empty
  have hjne : q j ≠ [] := by
    intro hj
    by_cases hji : j = i
    · rw [hji] at hj
      rw [hj] at hp
      cases hp
    rw [update_of_ne hji] at hne
    exact hne hj
  have hm := h.marked j hjne
  dsimp only
  split_ifs with hemp
  · have hji : j ≠ i := by
      rintro rfl
      exact hne ((hshape.empty_iff hi).mp hemp)
    exact marked_clear hm fun hw hb => hji (by omega)
  · exact hm

def Keeps (q : ℕ → List ℕ) (bm bm' : ℕ → BitVec 64) : Prop :=
  ∀ i, q i ≠ [] → Marked bm i → Marked bm' i

/-- The search from queue `lo` up to queue `hi`: it finds the head of the lowest non-empty queue. -/
def Finds (q : ℕ → List ℕ) (lo hi : ℕ) : Option ℕ → Prop
  | none => ∀ j, lo ≤ j → j < hi → q j = []
  | some p => ∃ i l, lo ≤ i ∧ i < hi ∧ q i = p :: l ∧ ∀ j, lo ≤ j → j < i → q j = []

lemma Finds.append {mid : ℕ} (h0 : ∀ j, lo ≤ j → j < mid → q j = [])
    (hle : lo ≤ mid) (h : Finds q mid hi r) : Finds q lo hi r := by
  have hall : ∀ j, lo ≤ j → (mid ≤ j → q j = []) → q j = [] := fun j hj hrest => by
    rcases lt_or_ge j mid with hlt | hge
    · exact h0 j hj hlt
    · exact hrest hge
  cases r with
  | none => exact fun j hj hjh => hall j hj fun hlt => h j hlt hjh
  | some p =>
    obtain ⟨i, l, h1, h2, h3, h4⟩ := h
    exact ⟨i, l, by omega, h2, h3, fun j hj hji => hall j hj fun hlt => h4 j hlt hji⟩

lemma Finds.cons (h0 : q lo = []) (h : Finds q (lo + 1) hi r) : Finds q lo hi r :=
  Finds.append (fun j h1 h2 => by rwa [show j = lo by omega]) (Nat.le_succ lo) h

lemma pickBits_spec (h : SchedShape L all q sl) (w : ℕ)
    (bits : BitVec 64) (n b : ℕ) (hn : b + n = 64) (bm : ℕ → BitVec 64)
    (hbits : ∀ j, b ≤ j → j < 64 → q (w * 64 + j) ≠ [] → bits.getLsbD j = true) :
    let r := pickBits L w (List.range' b n) bits bm
    Keeps q bm r.2 ∧ Finds q (w * 64 + b) (w * 64 + 64) r.1 := by
  induction n generalizing b bm with
  | zero => exact ⟨fun _ _ hm => hm, fun j h1 h2 => by omega⟩
  | succ n ih =>
    have hrec : ∀ bm', _ := fun bm' => ih (b + 1) (by omega) bm' fun j h1 h2 =>
      hbits j (by omega) h2
    rw [List.range'_succ]
    intro r
    by_cases hb : bits.getLsbD b = true
    · by_cases hmax : maxPrio ≤ w * 64 + b
      · have hr : r = (none, bm) := by simp [r, pickBits, hb, hmax]
        rw [hr]
        exact ⟨fun _ _ hm => hm, fun j h1 _ => h.high j (by omega)⟩
      · cases he : L.empty (.queue (w * 64 + b)) with
        | false =>
          have hr : r = (some (L.next (.queue (w * 64 + b))).proc, bm) := by
            simp [r, pickBits, hb, hmax, he]
          have hne : q (w * 64 + b) ≠ [] := fun e => by
            rw [(h.empty_iff (by omega)).mpr e] at he
            cases he
          obtain ⟨p, l, hq⟩ := List.exists_cons_of_ne_nil hne
          rw [hr, h.first hq]
          exact ⟨fun _ _ hm => hm, w * 64 + b, l, le_rfl, by omega, hq, fun j h1 h2 => by omega⟩
        | true =>
          -- a stale bit
          have hnil := (h.empty_iff (by omega)).mp he
          have hr : r = pickBits L w (List.range' (b + 1) n) bits
              (update bm w (bm w &&& ~~~ (1#64 <<< b))) := by
            simp [r, pickBits, hb, hmax, he]
          obtain ⟨h1, h2⟩ := hrec (update bm w (bm w &&& ~~~ (1#64 <<< b)))
          rw [hr]
          refine ⟨fun i hi hm => h1 i hi (marked_clear hm fun hw hb' => hi ?_), h2.cons hnil⟩
          rw [← hnil]
          congr 1
          omega
    have hr : r = pickBits L w (List.range' (b + 1) n) bits bm := by
      simp [r, pickBits, hb]
    have hnil : q (w * 64 + b) = [] := by
      by_contra hne
      exact hb (hbits b le_rfl (by omega) hne)
    obtain ⟨h1, h2⟩ := hrec bm
    rw [hr]
    exact ⟨h1, h2.cons hnil⟩

lemma pickWords_spec (h : SchedShape L all q sl) (n w : ℕ) (bm : ℕ → BitVec 64) (hm : ∀ i, q i ≠ [] → Marked bm i) :
    let r := pickWords L (List.range' w n) bm
    Keeps q bm r.2 ∧ Finds q (w * 64) ((w + n) * 64) r.1 := by
  induction n generalizing w bm with
  | zero => exact ⟨fun _ _ hm => hm, fun j h1 h2 => by omega⟩
  | succ n ih =>
    have hbits : ∀ j, 0 ≤ j → j < 64 → q (w * 64 + j) ≠ [] → (bm w).getLsbD j = true := by
      intro j _ hj hne
      have := hm _ hne
      unfold Marked at this
      rwa [show (w * 64 + j) / 64 = w by omega, show (w * 64 + j) % 64 = j by omega] at this
    obtain ⟨hk, hf⟩ := pickBits_spec h w (bm w) 64 0 rfl bm hbits
    rw [← List.range_eq_range'] at hk hf
    intro r
    rcases hr : pickBits L w (List.range 64) (bm w) bm with ⟨_ | p, bm'⟩
    · rw [hr] at hk hf
      have hr' : r = pickWords L (List.range' (w + 1) n) bm' := by
        simp [r, List.range'_succ, pickWords, hr]
      obtain ⟨hk', hf'⟩ := ih (w + 1) bm' fun i hi => hk i hi (hm i hi)
      rw [hr']
      refine ⟨fun i hi hmi => hk' i hi (hk i hi hmi), ?_⟩
      rw [show (w + (n + 1)) * 64 = (w + 1 + n) * 64 by ring]
      exact hf'.append (fun j h1 h2 => hf j (by omega) (by omega)) (by omega)
    rw [hr] at hk hf
    have hr' : r = (some p, bm') := by simp [r, List.range'_succ, pickWords, hr]
    rw [hr']
    obtain ⟨i, l, h1, h2, h3, h4⟩ := hf
    exact ⟨hk, i, l, by omega, by omega, h3, fun j hj hji => h4 j (by omega) hji⟩

def Selects (q : ℕ → List ℕ) (idle next : ℕ) : Prop :=
  (∃ i l, q i = next :: l ∧ ∀ j < i, q j = []) ∨ ((∀ i, q i = []) ∧ next = idle)

lemma rrPickNext_spec (h : QInv s q sl) :
    ∃ bm, (rrPickNext s).2 = { s with bitmap := bm } ∧ QInv (rrPickNext s).2 q sl ∧
      Selects q s.idle (rrPickNext s).1 := by
  obtain ⟨hk, hf⟩ := pickWords_spec h.shape (maxPrio / 64 + 1) 0 s.bitmap h.marked
  rw [← List.range_eq_range'] at hk hf
  refine ⟨_, rfl, ⟨h.shape, h.queued, h.count, fun i hi => hk i hi (h.marked i hi), h.ne_zero,
    h.priority, h.idle_mem, h.exiting⟩, ?_⟩
  unfold rrPickNext
  dsimp only
  cases hr : (pickWords s.links (List.range (maxPrio / 64 + 1)) s.bitmap).1 with
  | none =>
    rw [hr] at hf
    refine .inr ⟨fun i => ?_, rfl⟩
    by_cases hi : i < maxPrio
    · exact hf i (by omega) (by simp only [maxPrio] at hi ⊢; omega)
    · exact h.shape.high i (le_of_not_gt hi)
  | some p =>
    rw [hr] at hf
    obtain ⟨i, l, -, -, h3, h4⟩ := hf
    exact .inl ⟨i, l, h3, fun j hj => h4 j (by omega) hj⟩

end Obelisk
