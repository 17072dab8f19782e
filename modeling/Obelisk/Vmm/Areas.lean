import Mathlib.Order.Interval.Finset.Nat
import Mathlib.Tactic.Linarith
import Obelisk.Vmm.Model

/-!
# The list of areas

`Linked s l`: the areas of the address space are `l`, in order, as a consistent doubly linked list
of page-aligned ranges that do not overlap; `Listed s l`: they also lie in user space.
-/

namespace Obelisk

open KLib Function List Option

variable {last m r : ℕ} {b : Area} {h vmas : Heap Area} {c : Cell Area}

/-- A range of whole pages. -/
structure Area.Aligned (a : Area) : Prop where
  le : a.start ≤ a.stop
  start_aligned : a.start % pageSize = 0
  stop_aligned : a.stop % pageSize = 0

/-- A range of whole pages in user space. -/
structure Area.Ok (a : Area) : Prop where
  le : a.start ≤ a.stop
  start_aligned : a.start % pageSize = 0
  stop_aligned : a.stop % pageSize = 0
  stop_le : a.stop ≤ userSpaceEnd

def Ordered (l : List (ℕ × Area)) : Prop := l.Pairwise fun x y => x.2.stop ≤ y.2.start

variable {P : Type}

/-- At most the list of areas has changed. -/
structure AreasOnly (s t : Space P) : Prop where
  machine : t.mm.machine = s.mm.machine
  pt : t.as.pt = s.as.pt
  brkStart : t.as.brkStart = s.as.brkStart
  brkEnd : t.as.brkEnd = s.as.brkEnd

/-- The areas are `l`, not all of them in user space. -/
structure Linked (s : Space P) (l : List (ℕ × Area)) : Prop where
  seg : ∃ last, Seg s.mm.vmas 0 s.as.vmaList l last 0
  nodup : (l.map Prod.fst).Nodup
  ptr_lt : ∀ x ∈ l, x.1 < 2 ^ 64
  count : s.as.vmaCount = l.length
  ok : ∀ x ∈ l, x.2.Aligned
  ordered : Ordered l

/-- The areas of an address space are `l`. -/
structure Listed (s : Space P) (l : List (ℕ × Area)) : Prop where
  seg : ∃ last, Seg s.mm.vmas 0 s.as.vmaList l last 0
  nodup : (l.map Prod.fst).Nodup
  ptr_lt : ∀ x ∈ l, x.1 < 2 ^ 64
  count : s.as.vmaCount = l.length
  ok : ∀ x ∈ l, x.2.Ok
  ordered : Ordered l

variable {s : Space P} {l l1 l2 : List (ℕ × Area)} {x : ℕ} {a : Area}

lemma ptrs_length_lt (hn : (l.map Prod.fst).Nodup) (h0 : ∀ y ∈ l, y.1 ≠ 0)
    (hlt : ∀ y ∈ l, y.1 < 2 ^ 64) : l.length < 2 ^ 64 := by
  have hsub : (l.map Prod.fst).toFinset ⊆ Finset.Ico 1 (2 ^ 64) := by
    intro p hp
    obtain ⟨y, hy, rfl⟩ := mem_map.mp (mem_toFinset.mp hp)
    rw [Finset.mem_Ico]
    exact ⟨Nat.one_le_iff_ne_zero.mpr (h0 y hy), hlt y hy⟩
  have hcard := Finset.card_le_card hsub
  rw [toFinset_card_of_nodup hn, length_map, Nat.card_Ico] at hcard
  omega

lemma Linked.length_lt (h : Linked s l) : l.length < 2 ^ 64 := by
  obtain ⟨last, hs⟩ := h.seg
  exact ptrs_length_lt h.nodup (fun y hy => (hs.mem_some hy).1) h.ptr_lt

lemma Linked.head (h : Linked s l) : s.as.vmaList = headPtr l := by
  obtain ⟨last, hs⟩ := h.seg
  exact hs.eq_headPtr

lemma Linked.cell (h : Linked s (l1 ++ (x, a) :: l2)) :
    x ≠ 0 ∧ ∃ pv, s.mm.vmas x = some ⟨a, headPtr l2, pv⟩ := by
  obtain ⟨last, hs⟩ := h.seg
  obtain ⟨m, r, -, rfl, h0, nx, hx, hs2⟩ := seg_append.mp hs
  exact ⟨h0, m, by rw [hx, hs2.eq_headPtr]⟩

lemma Ordered.insert (h : Ordered (l1 ++ l2)) (hle : ∀ y ∈ l1 ++ l2, y.2.start ≤ y.2.stop)
    (h₁ : ∀ y ∈ l1.getLast?, y.2.stop ≤ a.start) (h₂ : ∀ y ∈ l2.head?, a.stop ≤ y.2.start) :
    Ordered (l1 ++ (x, a) :: l2) := by
  obtain ⟨ho1, ho2, ho⟩ := pairwise_append.mp h
  refine pairwise_append.mpr ⟨ho1, pairwise_cons.mpr ⟨?_, ho2⟩, ?_⟩
  · cases l2 with
    | nil => intro y hy; cases hy
    | cons z l2 =>
      have hz := h₂ z rfl
      intro y hy
      rcases mem_cons.mp hy with rfl | hy
      · exact hz
      have h1 := (pairwise_cons.mp ho2).1 y hy
      have h2 := hle z (mem_append_right _ mem_cons_self)
      exact hz.trans (h2.trans h1)
  intro y hy z hz
  rcases mem_cons.mp hz with rfl | hz
  · rcases eq_nil_or_concat l1 with rfl | ⟨l1, w, rfl⟩
    · cases hy
    · have hw := h₁ w (by simp)
      rcases mem_append.mp (concat_eq_append ▸ hy) with hy | hy
      · have h1 := (pairwise_append.mp (concat_eq_append ▸ ho1)).2.2 y hy w (by simp)
        have h2 := hle w (by simp)
        exact h1.trans (h2.trans hw)
      rw [mem_singleton] at hy
      rw [hy]; exact hw
  · exact ho y hy z hz

lemma Ordered.remove (h : Ordered (l1 ++ (x, a) :: l2)) : Ordered (l1 ++ l2) :=
  List.Pairwise.sublist ((List.Sublist.refl l1).append (sublist_cons_self ..)) h

lemma Ordered.shrink (h : Ordered (l1 ++ (x, a) :: l2)) (hs : a.start ≤ b.start)
    (he : b.stop ≤ a.stop) : Ordered (l1 ++ (x, b) :: l2) := by
  obtain ⟨ho1, ho2, ho⟩ := pairwise_append.mp h
  obtain ⟨hx, ho2⟩ := pairwise_cons.mp ho2
  refine pairwise_append.mpr ⟨ho1, pairwise_cons.mpr ⟨fun y hy => ?_, ho2⟩, ?_⟩
  · exact he.trans (hx y hy)
  intro y hy z hz
  rcases mem_cons.mp hz with rfl | hz
  · exact (ho y hy _ mem_cons_self).trans hs
  · exact ho y hy z (mem_cons_of_mem _ hz)

/-! ## Changes in place and removal -/

lemma nodup_middle (h : ((l1 ++ (x, a) :: l2).map Prod.fst).Nodup) :
    x ∉ l1.map Prod.fst ∧ x ∉ l2.map Prod.fst ∧ ((l1 ++ l2).map Prod.fst).Nodup := by
  rw [List.map_append, List.map_cons, List.nodup_middle, List.nodup_cons, List.mem_append] at h
  exact ⟨fun hx => h.1 (.inl hx), fun hx => h.1 (.inr hx), by rw [map_append]; exact h.2⟩

lemma Linked.modify (h : Linked s (l1 ++ (x, a) :: l2)) (hb : b.Aligned)
    (hs : a.start ≤ b.start) (he : b.stop ≤ a.stop) {f : Cell Area → Cell Area}
    (hf : ∀ c, c.val = a → f c = { c with val := b }) :
    ∃ vmas, s.mm.vmas.modify x f = some vmas ∧ (∀ y, y ≠ x → vmas y = s.mm.vmas y) ∧
      Linked (s.setVmas vmas) (l1 ++ (x, b) :: l2) := by
  obtain ⟨last, hseg⟩ := h.seg
  obtain ⟨hn1, hn2, -⟩ := nodup_middle h.nodup
  obtain ⟨c, hc, hval, hseg'⟩ := hseg.setVal hn1 hn2 b
  refine ⟨_, Heap.modify_of_some hc f, fun y hy => update_of_ne hy .., ⟨last, ?_⟩,
    ?_, fun y hy => ?_, ?_, fun y hy => ?_, h.ordered.shrink hs he⟩
  · rw [hf c hval]; exact hseg'
  · simpa using h.nodup
  · rw [mem_append, mem_cons] at hy
    rcases hy with hy | rfl | hy
    · exact h.ptr_lt y (by simp [hy])
    · exact h.ptr_lt (x, a) (by simp)
    · exact h.ptr_lt y (by simp [hy])
  · rw [length_append, length_cons]
    exact h.count.trans (by rw [length_append, length_cons])
  rw [mem_append, mem_cons] at hy
  rcases hy with hy | rfl | hy
  · exact h.ok y (by simp [hy])
  · exact hb
  · exact h.ok y (by simp [hy])

lemma Linked.update_of_notMem (h : Linked s l) (hx : x ∉ l.map Prod.fst)
    (c : Option (Cell Area)) : Linked (s.setVmas (update s.mm.vmas x c)) l := by
  obtain ⟨last, hseg⟩ := h.seg
  exact ⟨⟨last, hseg.update hx⟩, h.nodup, h.ptr_lt, h.count, h.ok, h.ordered⟩

lemma Linked.setMachine (h : Linked s l) (m : Machine P) : Linked (s.setMachine m) l :=
  ⟨h.seg, h.nodup, h.ptr_lt, h.count, h.ok, h.ordered⟩

lemma modifyIf_next {head : ℕ} (hs : Seg h 0 head l1 m r) (hn : (l1.map Prod.fst).Nodup) (q : ℕ) :
    ∃ h', modifyIf m (fun c => { c with next := q }) h = some h' ∧ (∀ y, y ∉ l1.map Prod.fst → h' y = h y) ∧
      Seg h' 0 (if m = 0 then q else head) l1 m q := by
  rcases hs.last_cases with ⟨rfl, rfl, rfl⟩ | ⟨l', b, rfl⟩
  · exact ⟨h, rfl, fun _ _ => rfl, rfl, rfl⟩
  rw [map_append, map_singleton, ← concat_eq_append, nodup_concat] at hn
  have h0 : m ≠ 0 := (hs.mem_some (mem_append_right _ mem_cons_self)).1
  obtain ⟨c, hc, hs'⟩ := hs.setNext hn.1 q
  refine ⟨_, by rw [modifyIf, if_neg h0, Heap.modify_of_some hc], fun y hy => ?_, ?_⟩
  · refine update_of_ne ?_ _ _
    rintro rfl
    exact hy (by simp)
  · rw [if_neg h0]; exact hs'

lemma modifyIf_prev (hs : Seg h m r l2 last 0) (hn : (l2.map Prod.fst).Nodup) (q : ℕ) :
    ∃ h' last', modifyIf r (fun c => { c with prev := q }) h = some h' ∧
      (∀ y, y ∉ l2.map Prod.fst → h' y = h y) ∧ Seg h' q r l2 last' 0 := by
  cases l2 with
  | nil =>
    obtain ⟨-, rfl⟩ := hs
    exact ⟨h, q, rfl, fun _ _ => rfl, rfl, rfl⟩
  | cons y l2 =>
    obtain ⟨y, b⟩ := y
    obtain rfl : y = r := hs.1
    rw [map_cons, nodup_cons] at hn
    obtain ⟨c, hc, hs'⟩ := hs.setPrev hn.1 q
    refine ⟨_, last, by rw [modifyIf, if_neg hs.2.1, Heap.modify_of_some hc], fun z hz => ?_, hs'⟩
    refine update_of_ne ?_ _ _
    rintro rfl
    exact hz (by simp)

lemma vmmRemoveVma_spec (h : Linked s (l1 ++ (x, a) :: l2)) :
    ∃ t, vmmRemoveVma x s = some t ∧ Linked t (l1 ++ l2) ∧ AreasOnly s t := by
  obtain ⟨last, hseg⟩ := h.seg
  obtain ⟨-, -, hn⟩ := nodup_middle h.nodup
  obtain ⟨m, r, hs1, rfl, h0, nx, hx, hs2⟩ := seg_append.mp hseg
  rw [map_append, nodup_append] at hn
  obtain ⟨hnd1, hnd2, hdisj⟩ := hn
  obtain ⟨v1, hv1, hfr1, hs1'⟩ := modifyIf_next hs1 hnd1 nx
  have hs2' := hs2.congr (k := v1) fun y hy => hfr1 y fun hy' => hdisj y hy' y hy rfl
  obtain ⟨v2, last', hv2, hfr2, hs2''⟩ := modifyIf_prev hs2' hnd2 m
  have hs1'' := hs1'.congr (k := v2) fun y hy => hfr2 y fun hy' => hdisj y hy y hy' rfl
  have hlen := h.length_lt
  have hcount := h.count
  rw [length_append, length_cons] at hlen hcount
  have hrun : vmmRemoveVma x s = some { s.setVmas v2 with as := { s.as with
      vmaList := if m = 0 then nx else s.as.vmaList
      vmaCount := u64Dec s.as.vmaCount
      totalVm := u64Sub s.as.totalVm (u64Sub a.stop a.start) } } := by
    simp only [vmmRemoveVma, hx, bind_eq_bind, bind_some, hv1, hv2]
  refine ⟨_, hrun, ⟨⟨last', seg_append.mpr ⟨m, nx, hs1'', hs2''⟩⟩, ?_, fun y hy => ?_, ?_,
    fun y hy => ?_, h.ordered.remove⟩, rfl, rfl, rfl, rfl⟩
  · rw [map_append, nodup_append]; exact ⟨hnd1, hnd2, hdisj⟩
  · rcases mem_append.mp hy with hy | hy <;> exact h.ptr_lt y (by simp [hy])
  · rw [length_append]
    exact (u64Dec_of_pos (by omega) (by omega)).trans (by omega)
  · rcases mem_append.mp hy with hy | hy <;> exact h.ok y (by simp [hy])

lemma vmmInsertLoop_eq {start n prev curr pv cu : ℕ}
    (hs1 : Seg vmas prev curr l1 pv cu) (hs2 : Seg vmas pv cu l2 last 0)
    (h₁ : ∀ y ∈ l1, y.2.start < start) (h₂ : ∀ y ∈ l2.head?, start ≤ y.2.start)
    (hn : l1.length < n) : vmmInsertLoop vmas start n prev curr = some (pv, cu) := by
  induction l1 generalizing prev curr n with
  | nil =>
    obtain ⟨rfl, rfl⟩ := hs1
    obtain ⟨n, rfl⟩ : ∃ k, n = k + 1 := ⟨n - 1, by simp at hn; omega⟩
    cases l2 with
    | nil => obtain ⟨-, rfl⟩ := hs2; rfl
    | cons y l2 =>
      obtain ⟨y, b⟩ := y
      obtain ⟨rfl, h0, nx, hx, -⟩ := hs2
      have hle : ¬ b.start < start := not_lt.mpr (h₂ _ rfl)
      simp [vmmInsertLoop, h0, hx, hle]
  | cons y l1 ih =>
    obtain ⟨y, b⟩ := y
    obtain ⟨rfl, h0, nx, hx, hs1⟩ := hs1
    obtain ⟨n, rfl⟩ : ∃ k, n = k + 1 := ⟨n - 1, by simp at hn; omega⟩
    have hlt : b.start < start := h₁ _ mem_cons_self
    rw [vmmInsertLoop, if_neg h0, hx]
    simp only [bind_eq_bind, bind_some, hlt, if_true]
    exact ih hs1 (fun z hz => h₁ z (mem_cons_of_mem _ hz)) (by rw [length_cons] at hn; omega)

lemma Seg.head_any (hs : Seg vmas m r l2 last 0)
    (f : Cell Area → Bool) (g : Area → Prop) (hfg : ∀ c, f c = true ↔ g c.val) :
    (r ≠ 0 ∧ (vmas r).any f = true) ↔ ∃ y ∈ l2.head?, g y.2 := by
  cases l2 with
  | nil => obtain ⟨-, rfl⟩ := hs; simp
  | cons y l2 =>
    obtain ⟨y, b⟩ := y
    obtain ⟨rfl, h0, nx, hx, -⟩ := hs
    simp [h0, hx, hfg]

lemma Seg.last_any {head : ℕ} (hs : Seg vmas 0 head l1 m r)
    (f : Cell Area → Bool) (g : Area → Prop) (hfg : ∀ c, f c = true ↔ g c.val) :
    (m ≠ 0 ∧ (vmas m).any f = true) ↔ ∃ y ∈ l1.getLast?, g y.2 := by
  rcases hs.last_cases with ⟨rfl, rfl, -⟩ | ⟨l', b, rfl⟩
  · simp
  obtain ⟨h0, nx, pv, hx⟩ := hs.mem_some (mem_append_right _ mem_cons_self)
  simp [h0, hx, hfg]

/-- **`vmm_insert_vma`** refuses an area that overlaps its neighbours and otherwise puts it between
the areas with smaller starts and the rest. -/
theorem vmmInsertVma_linked (h : Linked s (l1 ++ l2)) (hx : s.mm.vmas x = some c)
    (hfresh : x ∉ (l1 ++ l2).map Prod.fst) (h0 : x ≠ 0) (hlt : x < 2 ^ 64) (hok : c.val.Aligned)
    (h₁ : ∀ y ∈ l1, y.2.start < c.val.start) (h₂ : ∀ y ∈ l2.head?, c.val.start ≤ y.2.start) :
    (vmmInsertVma x s = some (-eEXIST, s) ∧
      ((∃ y ∈ l2.head?, y.2.start < c.val.stop) ∨ ∃ y ∈ l1.getLast?, c.val.start < y.2.stop)) ∨
    ∃ t, vmmInsertVma x s = some (0, t) ∧ Linked t (l1 ++ (x, c.val) :: l2) ∧ AreasOnly s t ∧
      ∀ y, y ≠ x → y ∉ (l1 ++ l2).map Prod.fst → t.mm.vmas y = s.mm.vmas y := by
  obtain ⟨last, hseg⟩ := h.seg
  obtain ⟨pv, cu, hs1, hs2⟩ := seg_append.mp hseg
  have hcount := h.count
  rw [length_append] at hcount
  have hloop : vmmInsertLoop s.mm.vmas c.val.start (s.as.vmaCount + 1) 0 s.as.vmaList =
      some (pv, cu) := vmmInsertLoop_eq hs1 hs2 h₁ h₂ (by omega)
  have hcurr := Seg.head_any hs2 (fun d => decide (d.val.start < c.val.stop))
    (fun b => b.start < c.val.stop) (fun d => by simp)
  have hprev := Seg.last_any hs1 (fun d => decide (c.val.start < d.val.stop))
    (fun b => c.val.start < b.stop) (fun d => by simp)
  unfold vmmInsertVma
  simp only [hx, bind_eq_bind, bind_some, hloop]
  by_cases hc : ∃ y ∈ l2.head?, y.2.start < c.val.stop
  · exact .inl ⟨if_pos (hcurr.mpr hc), .inl hc⟩
  rw [if_neg (fun h' => hc (hcurr.mp h'))]
  by_cases hp : ∃ y ∈ l1.getLast?, c.val.start < y.2.stop
  · exact .inl ⟨if_pos (hprev.mpr hp), .inr hp⟩
  rw [if_neg (fun h' => hp (hprev.mp h'))]
  push Not at hc hp
  -- link the new cell, then the cells before and after it
  have hnd := h.nodup
  rw [map_append, nodup_append] at hnd
  obtain ⟨hnd1, hnd2, hdisj⟩ := hnd
  rw [map_append, mem_append, not_or] at hfresh
  obtain ⟨v0, hv0⟩ : ∃ v, v = update s.mm.vmas x (some ⟨c.val, cu, pv⟩) := ⟨_, rfl⟩
  have hx0 : v0 x = some ⟨c.val, cu, pv⟩ := by rw [hv0, update_self]
  have hs10 : Seg v0 0 s.as.vmaList l1 pv cu := by rw [hv0]; exact hs1.update hfresh.1
  have hs20 : Seg v0 pv cu l2 last 0 := by rw [hv0]; exact hs2.update hfresh.2
  obtain ⟨v1, hv1, hfr1, hs1'⟩ := modifyIf_next hs10 hnd1 x
  have hs2' := hs20.congr (k := v1) fun y hy => hfr1 y fun hy' => hdisj y hy' y hy rfl
  obtain ⟨v2, last', hv2, hfr2, hs2''⟩ := modifyIf_prev hs2' hnd2 x
  have hs1'' := hs1'.congr (k := v2) fun y hy => hfr2 y fun hy' => hdisj y hy y hy' rfl
  have hx2 : v2 x = some ⟨c.val, cu, pv⟩ := by rw [hfr2 x hfresh.2, hfr1 x hfresh.1, hx0]
  refine .inr ⟨{ s.setVmas v2 with as := { s.as with
      vmaList := if pv = 0 then x else s.as.vmaList
      vmaCount := u64 (s.as.vmaCount + 1)
      totalVm := u64 (s.as.totalVm + u64Sub c.val.stop c.val.start) } }, ?_, ?_, ⟨rfl, rfl, rfl, rfl⟩,
    fun y hyx hy => ?_⟩
  · rw [Heap.modify_of_some hx, bind_some, ← hv0, hv1, bind_some, hv2]
    rfl
  swap
  · rw [map_append, mem_append, not_or] at hy
    show v2 y = s.mm.vmas y
    rw [hfr2 y hy.2, hfr1 y hy.1, hv0, update_of_ne hyx]
  have hinv : Ordered (l1 ++ (x, c.val) :: l2) :=
    h.ordered.insert (fun y hy => (h.ok y hy).le) hp hc
  have hseg' : Seg v2 0 (if pv = 0 then x else s.as.vmaList) (l1 ++ (x, c.val) :: l2) last' 0 :=
    seg_append.mpr ⟨pv, x, hs1'', rfl, h0, cu, hx2, hs2''⟩
  have hnd' : ((l1 ++ (x, c.val) :: l2).map Prod.fst).Nodup := by
    rw [List.map_append, List.map_cons, List.nodup_middle, List.nodup_cons, List.mem_append]
    exact ⟨not_or.mpr hfresh, nodup_append.mpr ⟨hnd1, hnd2, hdisj⟩⟩
  have hptr : ∀ y ∈ l1 ++ (x, c.val) :: l2, y.1 < 2 ^ 64 := by
    intro y hy
    rw [mem_append, mem_cons] at hy
    rcases hy with hy | rfl | hy
    · exact h.ptr_lt y (by simp [hy])
    · exact hlt
    · exact h.ptr_lt y (by simp [hy])
  have hlen := ptrs_length_lt hnd' (fun y hy => (hseg'.mem_some hy).1) hptr
  rw [length_append, length_cons] at hlen
  refine ⟨⟨last', hseg'⟩, hnd', hptr, ?_, fun y hy => ?_, hinv⟩
  · rw [length_append, length_cons]
    exact (u64_of_lt (by omega)).trans (by omega)
  rw [mem_append, mem_cons] at hy
  rcases hy with hy | rfl | hy
  · exact h.ok y (by simp [hy])
  · exact hok
  · exact h.ok y (by simp [hy])

lemma Listed.linked (h : Listed s l) : Linked s l :=
  ⟨h.seg, h.nodup, h.ptr_lt, h.count,
    fun x hx => ⟨(h.ok x hx).le, (h.ok x hx).start_aligned, (h.ok x hx).stop_aligned⟩, h.ordered⟩

lemma Linked.listed (h : Linked s l) (hend : ∀ x ∈ l, x.2.stop ≤ userSpaceEnd) : Listed s l :=
  ⟨h.seg, h.nodup, h.ptr_lt, h.count,
    fun x hx => ⟨(h.ok x hx).le, (h.ok x hx).start_aligned, (h.ok x hx).stop_aligned, hend x hx⟩,
    h.ordered⟩

lemma Listed.update_of_notMem (h : Listed s l) (hx : x ∉ l.map Prod.fst)
    (c : Option (Cell Area)) : Listed (s.setVmas (update s.mm.vmas x c)) l :=
  (h.linked.update_of_notMem hx c).listed fun y hy => (h.ok y hy).stop_le

lemma Listed.setMachine (h : Listed s l) (m : Machine P) : Listed (s.setMachine m) l :=
  (h.linked.setMachine m).listed fun y hy => (h.ok y hy).stop_le

lemma vmmInsertVma_spec (h : Listed s (l1 ++ l2)) (hx : s.mm.vmas x = some c)
    (hfresh : x ∉ (l1 ++ l2).map Prod.fst) (h0 : x ≠ 0) (hlt : x < 2 ^ 64) (hok : c.val.Ok)
    (h₁ : ∀ y ∈ l1, y.2.start < c.val.start) (h₂ : ∀ y ∈ l2.head?, c.val.start ≤ y.2.start) :
    (vmmInsertVma x s = some (-eEXIST, s) ∧
      ((∃ y ∈ l2.head?, y.2.start < c.val.stop) ∨ ∃ y ∈ l1.getLast?, c.val.start < y.2.stop)) ∨
    ∃ t, vmmInsertVma x s = some (0, t) ∧ Listed t (l1 ++ (x, c.val) :: l2) ∧ AreasOnly s t ∧
      ∀ y, y ≠ x → y ∉ (l1 ++ l2).map Prod.fst → t.mm.vmas y = s.mm.vmas y := by
  refine (vmmInsertVma_linked h.linked hx hfresh h0 hlt
    ⟨hok.le, hok.start_aligned, hok.stop_aligned⟩ h₁ h₂).imp_right ?_
  rintro ⟨t, ht, hl, hao, hother⟩
  refine ⟨t, ht, hl.listed fun y hy => ?_, hao, hother⟩
  rw [mem_append, mem_cons] at hy
  rcases hy with hy | rfl | hy
  · exact (h.ok y (by simp [hy])).stop_le
  · exact hok.stop_le
  · exact (h.ok y (by simp [hy])).stop_le

end Obelisk
