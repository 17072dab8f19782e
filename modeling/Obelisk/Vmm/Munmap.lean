import Obelisk.Vmm.Areas
import Obelisk.Vmm.Steps

/-!
# Unmapping

`vmm_munmap` walks the list it changes.
-/

namespace Obelisk

open KLib Relation Function List Option

variable {addr bound : ℕ} {l l' : List (ℕ × Area)}
variable {start stop x : ℕ} {a : Area} {A : ℕ → Prop}

def UserPage (a : ℕ) : Prop := a % pageSize = 0 ∧ a < userSpaceEnd

variable {P : Type} [FramePool P]

/-- Only pages of `A` and the areas have changed. -/
structure SpaceStep (A : ℕ → Prop) (s t : Space P) : Prop where
  machine : PageSteps s.as.pt A s.mm.machine t.mm.machine
  pt : t.as.pt = s.as.pt
  brkStart : t.as.brkStart = s.as.brkStart
  brkEnd : t.as.brkEnd = s.as.brkEnd

lemma SpaceStep.refl (A : ℕ → Prop) (s : Space P) : SpaceStep A s s := ⟨.refl, rfl, rfl, rfl⟩

lemma SpaceStep.trans {s t u : Space P} (h₁ : SpaceStep A s t)
    (h₂ : SpaceStep A t u) : SpaceStep A s u :=
  ⟨h₁.machine.trans (h₁.pt ▸ h₂.machine), h₂.pt.trans h₁.pt, h₂.brkStart.trans h₁.brkStart,
    h₂.brkEnd.trans h₁.brkEnd⟩

lemma AreasOnly.spaceStep {s t : Space P} (h : AreasOnly s t) : SpaceStep A s t :=
  ⟨by rw [h.machine], h.pt, h.brkStart, h.brkEnd⟩

abbrev View := BitVec 32 × BitVec 32 × ℕ × BitVec 64

def Area.view (a : Area) (addr : ℕ) : Option View :=
  if a.start ≤ addr ∧ addr < a.stop then
    some (a.flags, a.prot, a.file, a.offset + BitVec.ofNat 64 (addr - a.start))
  else none

def viewAt (l : List (ℕ × Area)) (addr : ℕ) : Option View := l.findSome? fun y => y.2.view addr

lemma viewAt_append (l1 l₂ : List (ℕ × Area)) (addr : ℕ) :
    viewAt (l1 ++ l₂) addr = (viewAt l1 addr).or (viewAt l₂ addr) := findSome?_append

lemma viewAt_cons (y : ℕ × Area) (l : List (ℕ × Area)) (addr : ℕ) :
    viewAt (y :: l) addr = (y.2.view addr).or (viewAt l addr) := by
  rw [viewAt, findSome?_cons]
  cases y.2.view addr <;> rfl

lemma Area.view_of_not (h : ¬ (a.start ≤ addr ∧ addr < a.stop)) : a.view addr = none := if_neg h

lemma viewAt_of_lt (h : ∀ y ∈ l, addr < y.2.start) : viewAt l addr = none :=
  findSome?_eq_none_iff.mpr fun y hy => Area.view_of_not fun hv => not_le.mpr (h y hy) hv.1

/-- What remains of an area when `[start, stop)` is cut out of it. A split needs a new cell; when
there is none the area stays. -/
inductive Cut (start stop x : ℕ) (a : Area) : List (ℕ × Area) → Prop
  | remove : start ≤ a.start → a.stop ≤ stop → Cut start stop x a []
  | split (q : ℕ) : a.start < start → stop < a.stop → Cut start stop x a
      [(x, { a with stop := start }), (q, { a with
        start := stop, offset := a.offset + BitVec.ofNat 64 (u64Sub stop a.start) })]
  | splitFail : a.start < start → stop < a.stop → Cut start stop x a [(x, a)]
  | trimEnd : a.start < start → a.stop ≤ stop → Cut start stop x a [(x, { a with stop := start })]
  | trimStart : start ≤ a.start → stop < a.stop → Cut start stop x a
      [(x, { a with start := stop, offset := a.offset + BitVec.ofNat 64 (u64Sub stop a.start) })]

lemma Cut.view (h : Cut start stop x a l) (hle : start ≤ stop) (h₁ : start < a.stop) (h₂ : a.start < stop)
    (hfull : a.start < start → stop < a.stop → l ≠ [(x, a)]) (addr : ℕ) :
    viewAt l addr = if start ≤ addr ∧ addr < stop then none else a.view addr := by
  -- the offset of an upper part counts from its own start
  have hoff : stop ≤ addr → a.offset + BitVec.ofNat 64 (u64Sub stop a.start) +
      BitVec.ofNat 64 (addr - stop) = a.offset + BitVec.ofNat 64 (addr - a.start) := by
    intro hs
    rw [BitVec.add_assoc]
    congr 1
    apply BitVec.eq_of_toNat_eq
    simp only [BitVec.toNat_add, BitVec.toNat_ofNat, u64Sub, u64]
    omega
  have hnil : ∀ v : Option View, v.or (viewAt [] addr) = v := fun v => or_none
  cases h with
  | remove hlo hhi =>
    split_ifs with hin
    · rfl
    · exact (Area.view_of_not fun hv => hin ⟨hlo.trans hv.1, hv.2.trans_le hhi⟩).symm
  | split q hlo hhi =>
    rw [viewAt_cons, viewAt_cons, hnil]
    simp only [Area.view]
    split_ifs <;> first
      | omega
      | rfl
      | rw [none_or, hoff (by omega)]
  | splitFail hlo hhi => exact absurd rfl (hfull hlo hhi)
  | trimEnd hlo hhi =>
    rw [viewAt_cons, hnil]
    simp only [Area.view]
    split_ifs <;> first
      | omega
      | rfl
  | trimStart hlo hhi =>
    rw [viewAt_cons, hnil]
    simp only [Area.view]
    split_ifs <;> first
      | omega
      | rfl
      | rw [hoff (by omega)]

def CanAlloc (mm : Mm P) : Prop :=
  ∃ q ks, mm.kallocs = q :: ks ∧ q ≠ 0 ∧ q < 2 ^ 64 ∧ mm.vmas q = none

omit [FramePool P] in
lemma CanAlloc.ne_zero {mm : Mm P} (h : CanAlloc mm) (start stop : ℕ) (flags : BitVec 32) :
    (vmmCreateVma start stop flags mm).1 ≠ 0 := by
  obtain ⟨q, ks, hk, h0, hlt, hnone⟩ := h
  rw [vmmCreateVma, kzalloc, hk]
  dsimp only
  have hok : ¬ (q = 0 ∨ 2 ^ 64 ≤ q ∨ (none : Option (Cell Area)).isSome = true) := by
    rintro (h | h | h)
    · exact h0 h
    · omega
    · exact Bool.noConfusion h
  rwa [hnone, if_neg hok]

omit [FramePool P] in
lemma vmmCreateVma_cases (start stop : ℕ) (flags : BitVec 32) (mm : Mm P) :
    (∃ ks, vmmCreateVma start stop flags mm = (0, { mm with kallocs := ks })) ∨
    ∃ q ks, q ≠ 0 ∧ q < 2 ^ 64 ∧ mm.vmas q = none ∧ vmmCreateVma start stop flags mm = (q, { mm with
        kallocs := ks
        vmas := update mm.vmas q (some ⟨⟨start, stop, flags, 0, 0, 0⟩, 0, 0⟩) }) := by
  unfold vmmCreateVma kzalloc
  cases hk : mm.kallocs with
  | nil => exact .inl ⟨[], by simp [← hk]⟩
  | cons q ks =>
    dsimp only
    split_ifs with hq
    · exact .inl ⟨ks, rfl⟩
    push Not at hq
    refine .inr ⟨q, ks, hq.1, hq.2.1, ?_, rfl⟩
    simpa using hq.2.2

section Area

variable {s : Space P} {l1 l₂ : List (ℕ × Area)} {x start stop : ℕ} {a : Area}

omit [FramePool P] in
lemma split_spec (h : Linked s (l1 ++ (x, a) :: l₂)) (hlo : a.start < start) (hhi : stop < a.stop)
    (hle : start ≤ stop) (has : start % pageSize = 0) (hae : stop % pageSize = 0) {q : ℕ}
    (h0 : q ≠ 0) (hlt : q < 2 ^ 64) (hfresh : q ∉ (l1 ++ (x, a) :: l₂).map Prod.fst)
    {c : Cell Area} (hq : s.mm.vmas q = some c) (hstart : c.val.start = stop)
    (hstop : c.val.stop = a.stop) :
    ∃ vmas t, s.mm.vmas.modify x (fun d => { d with val := { d.val with stop := start } }) =
        some vmas ∧ vmmInsertVma q (s.setVmas vmas) = some (0, t) ∧
      Linked t (l1 ++ (x, { a with stop := start }) :: (q, c.val) :: l₂) ∧ AreasOnly s t := by
  have ha := h.ok (x, a) (by simp)
  obtain ⟨vmas, hmod, hother, hl⟩ := h.modify (b := { a with stop := start }) ⟨hlo.le, ha.start_aligned, has⟩ le_rfl
    (hle.trans hhi.le) (f := fun d => { d with val := { d.val with stop := start } })
    (fun d hd => by rw [hd])
  rw [append_cons] at hl
  have hqx : q ≠ x := by rintro rfl; exact hfresh (by simp)
  have hq' : (s.setVmas vmas).mm.vmas q = some c := (hother q hqx).trans hq
  obtain ⟨ho1, ho2, ho⟩ := pairwise_append.mp h.ordered
  have hok : c.val.Aligned := ⟨by rw [hstart, hstop]; exact hhi.le, by rwa [hstart],
    by rw [hstop]; exact ha.stop_aligned⟩
  have hhead : ∀ y ∈ l₂.head?, a.stop ≤ y.2.start := fun y hy =>
    (pairwise_cons.mp ho2).1 y (mem_of_mem_head? hy)
  have hbelow : ∀ y ∈ l1 ++ [(x, { a with stop := start })], y.2.start < c.val.start := by
    intro y hy
    rw [hstart]
    rcases mem_append.mp hy with hy | hy
    · have h1 := ho y hy _ mem_cons_self
      have h2 := (h.ok y (by simp [hy])).le
      dsimp only at h1
      omega
    rw [mem_singleton] at hy
    rw [hy]
    exact hlo.trans_le hle
  have habove : ∀ y ∈ l₂.head?, c.val.start ≤ y.2.start := fun y hy =>
    (hstart.trans_le hhi.le).trans (hhead y hy)
  rcases vmmInsertVma_linked hl hq' (by simpa using hfresh) h0 hlt hok hbelow habove with
    ⟨-, ⟨y, hy, hov⟩ | ⟨y, hy, hov⟩⟩ | ⟨t, ht, hlt, hao, -⟩
  · have := hhead y hy
    omega
  · rw [getLast?_append, getLast?_singleton] at hy
    cases hy
    rw [hstart] at hov
    exact absurd hle (not_le.mpr hov)
  refine ⟨vmas, t, hmod, ht, ?_, hao.machine, hao.pt, hao.brkStart, hao.brkEnd⟩
  rwa [append_assoc, singleton_append] at hlt

lemma vmmMunmapArea_spec (h : Linked s (l1 ++ (x, a) :: l₂)) (hle : start ≤ stop)
    (has : start % pageSize = 0) (hae : stop % pageSize = 0) (hov1 : start < a.stop)
    (hov2 : a.start < stop) :
    ∃ t l', vmmMunmapArea start stop x s = some t ∧ Linked t (l1 ++ (l' ++ l₂)) ∧
      Cut start stop x a l' ∧ (CanAlloc s.mm → a.start < start → stop < a.stop → l' ≠ [(x, a)]) ∧
      AreasOnly (s.setMachine
        (unmapRange s.as.pt (max a.start start) (min a.stop stop) s.mm.machine)) t := by
  obtain ⟨h0, pv, hx⟩ := h.cell
  have ha := h.ok (x, a) (by simp)
  obtain ⟨m, hm⟩ : ∃ m, m = unmapRange s.as.pt (max a.start start) (min a.stop stop) s.mm.machine :=
    ⟨_, rfl⟩
  have hu := h.setMachine m
  unfold vmmMunmapArea
  simp only [hx, bind_eq_bind, bind_some, ← hm]
  by_cases hall : start ≤ a.start ∧ a.stop ≤ stop
  · rw [if_pos hall]
    obtain ⟨t, ht, hl, hao⟩ := vmmRemoveVma_spec hu
    have hnot : x ∉ (l1 ++ l₂).map Prod.fst := by
      obtain ⟨hn1, hn2, -⟩ := nodup_middle h.nodup
      rw [map_append, mem_append]
      exact not_or.mpr ⟨hn1, hn2⟩
    have hl' := hl.update_of_notMem hnot none
    refine ⟨t.setVmas (update t.mm.vmas x none), [], ?_, hl', .remove hall.1 hall.2,
      fun _ _ _ => nofun, hao.machine, hao.pt, hao.brkStart, hao.brkEnd⟩
    rw [ht, bind_some, vmmFreeVma, if_neg h0]
    rfl
  rw [if_neg hall]
  by_cases hsplit : a.start < start ∧ stop < a.stop
  · rw [if_pos hsplit]
    rcases vmmCreateVma_cases stop a.stop a.flags (s.setMachine m).mm with
      ⟨ks, hk⟩ | ⟨q, ks, hq0, hqlt, hqn, hk⟩
    · have hno : ¬ CanAlloc s.mm := fun hc =>
        @CanAlloc.ne_zero P (s.setMachine m).mm hc stop a.stop a.flags (congrArg Prod.fst hk)
      rw [hk]
      exact ⟨_, [(x, a)], rfl, ⟨h.seg, h.nodup, h.ptr_lt, h.count, h.ok, h.ordered⟩,
        .splitFail hsplit.1 hsplit.2, fun hc => absurd hc hno, rfl, rfl, rfl, rfl⟩
    rw [hk]
    dsimp only
    rw [if_neg hq0, Heap.modify_of_some (update_self ..), bind_some]
    have hnot : q ∉ (l1 ++ (x, a) :: l₂).map Prod.fst := by
      obtain ⟨last, hseg⟩ := hu.seg
      intro hmem
      have := hseg.isSome hmem
      rw [hqn] at this
      cases this
    have hu1 : Linked ({ s with mm := { (s.setMachine m).mm with kallocs := ks } } : Space P)
        (l1 ++ (x, a) :: l₂) := ⟨h.seg, h.nodup, h.ptr_lt, h.count, h.ok, h.ordered⟩
    have hu' := (hu1.update_of_notMem hnot (some ⟨⟨stop, a.stop, a.flags, 0, 0, 0⟩, 0, 0⟩)
      ).update_of_notMem hnot (some ⟨{ a with
        start := stop, offset := a.offset + BitVec.ofNat 64 (u64Sub stop a.start) }, 0, 0⟩)
    obtain ⟨vmas, t, hmod, hins, hl, hao⟩ := split_spec hu' hsplit.1 hsplit.2 hle has hae hq0 hqlt
      hnot (update_self ..) rfl rfl
    refine ⟨t, _, ?_, hl, .split q hsplit.1 hsplit.2, fun _ _ _ => by simp,
      hao.machine, hao.pt, hao.brkStart, hao.brkEnd⟩
    erw [hmod, bind_some, hins, bind_some]
  rw [if_neg hsplit]
  split_ifs with hlo
  · have hhi : a.stop ≤ stop := not_lt.mp fun hhi => hsplit ⟨hlo, hhi⟩
    obtain ⟨vmas, hmod, -, hl⟩ := hu.modify (b := { a with stop := start })
      ⟨hlo.le, ha.start_aligned, has⟩ le_rfl hov1.le
      (f := fun c => { c with val := { c.val with stop := start } }) (fun c hc => by rw [hc])
    refine ⟨_, [(x, { a with stop := start })], by rw [hmod, bind_some], hl,
      .trimEnd hlo hhi, fun _ _ h => absurd hhi (not_le.mpr h), rfl, rfl, rfl, rfl⟩
  have hhi : stop < a.stop := not_le.mp fun hhi => hall ⟨not_lt.mp hlo, hhi⟩
  obtain ⟨vmas, hmod, -, hl⟩ := hu.modify (b := { a with
    start := stop, offset := a.offset + BitVec.ofNat 64 (u64Sub stop a.start) })
    ⟨hhi.le, hae, ha.stop_aligned⟩ hov2.le le_rfl
    (f := fun c => { c with val := { c.val with
      offset := a.offset + BitVec.ofNat 64 (u64Sub stop a.start), start := stop } })
    (fun c hc => by rw [hc])
  refine ⟨_, [(x, { a with
    start := stop, offset := a.offset + BitVec.ofNat 64 (u64Sub stop a.start) })],
    by rw [hmod, bind_some], hl, .trimStart (not_lt.mp hlo) hhi,
    fun _ h => absurd h hlo, rfl, rfl, rfl, rfl⟩

end Area

/-! ## The list -/

/-- The areas that remain of a list; areas from `stop` on are not looked at. -/
inductive CutList (start stop : ℕ) : List (ℕ × Area) → List (ℕ × Area) → Prop
  | nil : CutList start stop [] []
  | done {x : ℕ} {a : Area} {l : List (ℕ × Area)} : stop ≤ a.start → CutList start stop ((x, a) :: l) ((x, a) :: l)
  | cut {x : ℕ} {a : Area} {l l' l₂ : List (ℕ × Area)} : start < a.stop → a.start < stop →
      Cut start stop x a l' → CutList start stop l l₂ → CutList start stop ((x, a) :: l) (l' ++ l₂)
  | skip {x : ℕ} {a : Area} {l l₂ : List (ℕ × Area)} : a.stop ≤ start →
      CutList start stop l l₂ → CutList start stop ((x, a) :: l) ((x, a) :: l₂)

def unmapAreas (root start stop : ℕ) : List (ℕ × Area) → Machine P → Machine P
  | [], m => m
  | (_, a) :: l, m =>
    if stop ≤ a.start then m
    else if start < a.stop then
      unmapAreas root start stop l (unmapRange root (max a.start start) (min a.stop stop) m)
    else unmapAreas root start stop l m

lemma Cut.stop_le (h : Cut start stop x a l) (h₁ : start < a.stop) (ha : a.stop ≤ bound) :
    ∀ y ∈ l, y.2.stop ≤ bound := by
  have hstart : start ≤ bound := h₁.le.trans ha
  cases h with
  | remove => simp
  | split => simp [hstart, ha]
  | splitFail => simp [ha]
  | trimEnd => simp [hstart]
  | trimStart => simp [ha]

lemma CutList.forall_mem {Q : Area → Prop} (h : CutList start stop l l')
    (hQ : ∀ {x a l'}, Cut start stop x a l' → start < a.stop → Q a → ∀ y ∈ l', Q y.2)
    (hl : ∀ y ∈ l, Q y.2) : ∀ y ∈ l', Q y.2 := by
  induction h with
  | nil | done => exact hl
  | cut h₁ _ hcut _ ih =>
    intro y hy
    rcases mem_append.mp hy with hy | hy
    · exact hQ hcut h₁ (hl _ mem_cons_self) y hy
    · exact ih (fun z hz => hl z (mem_cons_of_mem _ hz)) y hy
  | skip _ _ ih =>
    intro y hy
    rcases mem_cons.mp hy with rfl | hy
    · exact hl _ mem_cons_self
    · exact ih (fun z hz => hl z (mem_cons_of_mem _ hz)) y hy

lemma CutList.stop_le (h : CutList start stop l l')
    (hl : ∀ y ∈ l, y.2.stop ≤ bound) : ∀ y ∈ l', y.2.stop ≤ bound :=
  h.forall_mem (Q := fun a => a.stop ≤ bound) (fun hcut h₁ ha => hcut.stop_le h₁ ha) hl

/-- **The walk of `vmm_munmap`**: the areas before the cursor stay, the others are cut. If the
allocation for a split succeeds, the range is all that is cut out. -/
theorem vmmMunmapLoop_spec (hle : start ≤ stop) (has : start % pageSize = 0)
    (hae : stop % pageSize = 0) {s : Space P} {l1 l₂ : List (ℕ × Area)} {n : ℕ}
    (h : Linked s (l1 ++ l₂)) (hn : l₂.length < n) :
    ∃ t l2', vmmMunmapLoop start stop n (headPtr l₂) s = some t ∧ Linked t (l1 ++ l2') ∧ CutList start stop l₂ l2' ∧
      ((∀ y ∈ l₂, y.2.start < start → stop < y.2.stop → CanAlloc s.mm) →
        ∀ addr, viewAt l2' addr = if start ≤ addr ∧ addr < stop then none else viewAt l₂ addr) ∧
      AreasOnly (s.setMachine (unmapAreas s.as.pt start stop l₂ s.mm.machine)) t := by
  induction l₂ generalizing l1 s n with
  | nil =>
    obtain ⟨n, rfl⟩ : ∃ k, n = k + 1 := ⟨n - 1, by simp at hn; omega⟩
    exact ⟨s, [], rfl, h, .nil, fun _ _ => (ite_self _).symm, rfl, rfl, rfl, rfl⟩
  | cons y l₂ ih =>
    obtain ⟨x, a⟩ := y
    obtain ⟨n, rfl⟩ : ∃ k, n = k + 1 := ⟨n - 1, by simp at hn; omega⟩
    rw [length_cons] at hn
    obtain ⟨h0, pv, hx⟩ := h.cell
    obtain ⟨hafter, -⟩ := pairwise_cons.mp (pairwise_append.mp h.ordered).2.1
    rw [headPtr, vmmMunmapLoop, if_neg h0, unmapAreas]
    simp only [hx, bind_eq_bind, bind_some]
    by_cases hdone : stop ≤ a.start
    · rw [if_pos hdone, if_pos hdone]
      refine ⟨s, _, rfl, h, .done hdone, fun _ addr => ?_, rfl, rfl, rfl, rfl⟩
      split_ifs with hin
      · refine viewAt_of_lt fun y hy => ?_
        have hstart := (h.ok (x, a) (by simp)).le
        rcases mem_cons.mp hy with rfl | hy
        · exact hin.2.trans_le hdone
        · exact (hin.2.trans_le hdone).trans_le (hstart.trans (hafter y hy))
      · rfl
    rw [if_neg hdone, if_neg hdone]
    rw [not_le] at hdone
    by_cases hov : start < a.stop
    · obtain ⟨t, l', ht, hl, hcut, hfull, hao⟩ := vmmMunmapArea_spec h hle has hae hov hdone
      rw [← append_assoc] at hl
      obtain ⟨u, l2', hu, hlu, hcuts, hview, hao'⟩ := ih (n := n) hl (by omega)
      have hpt : t.as.pt = s.as.pt := hao.pt
      have hmachine : t.mm.machine = _ := hao.machine
      rw [if_pos hov, if_pos hov]
      refine ⟨u, l' ++ l2', ?_, by rwa [← append_assoc], .cut hov hdone hcut hcuts,
        fun hsplit addr => ?_, ?_, hao'.pt.trans hpt, hao'.brkStart.trans hao.brkStart,
        hao'.brkEnd.trans hao.brkEnd⟩
      · rw [ht, bind_some, hu]
      · -- the areas behind this one start behind the range's start
        have hrest := hview (fun y hy hlo _ => absurd (hov.trans_le (hafter y hy)) (not_lt.mpr hlo.le)) addr
        rw [viewAt_append, viewAt_cons, hrest, hcut.view hle hov hdone
          (fun hlo hhi => hfull (hsplit _ mem_cons_self hlo hhi) hlo hhi) addr]
        split_ifs <;> rfl
      rw [hao'.machine, hpt, hmachine]
      rfl
    rw [append_cons] at h
    obtain ⟨u, l2', hu, hlu, hcuts, hview, hao⟩ := ih (n := n) h (by omega)
    rw [if_neg hov, if_neg hov]
    refine ⟨u, (x, a) :: l2', hu, by rwa [append_cons], .skip (not_lt.mp hov) hcuts, fun hsplit addr => ?_, hao⟩
    rw [viewAt_cons, viewAt_cons, hview (fun y hy => hsplit y (mem_cons_of_mem _ hy))]
    split_ifs with hin
    · rw [Area.view_of_not fun hv => hov (hin.1.trans_lt hv.2)]
      rfl
    · rfl

lemma unmapAreas_steps (root : ℕ) (has : start % pageSize = 0) (hok : ∀ y ∈ l, y.2.Aligned) (m : Machine P) :
    PageSteps root (fun p => p % pageSize = 0 ∧ ∃ y ∈ l, p < y.2.stop) m
      (unmapAreas root start stop l m) := by
  induction l generalizing m with
  | nil => exact .refl
  | cons y l ih =>
    obtain ⟨x, a⟩ := y
    have hrest := fun m => (ih (fun z hz => hok z (mem_cons_of_mem _ hz)) m).mono
      (B := fun p => p % pageSize = 0 ∧ ∃ y ∈ (x, a) :: l, p < y.2.stop)
      fun p ⟨hp, z, hz, hlt⟩ => ⟨hp, z, mem_cons_of_mem _ hz, hlt⟩
    rw [unmapAreas]
    split_ifs
    · exact .refl
    · refine ((unmapRange_steps root _ _ m).mono fun p hp => ⟨hp.aligned ?_, (x, a),
        mem_cons_self, hp.bounds.2.trans_le (min_le_left ..)⟩).trans (hrest _)
      rcases max_choice a.start start with h | h
      · rw [h]
        exact (hok (x, a) mem_cons_self).start_aligned
      rwa [h]
    · exact hrest m

lemma vmmMunmapLoop_zero (start n : ℕ) {s : Space P} (h : Linked s l) :
    vmmMunmapLoop start 0 (n + 1) (headPtr l) s = some s := by
  cases l with
  | nil => rfl
  | cons y l =>
    obtain ⟨h0, pv, hx⟩ := (show Linked s ([] ++ y :: l) from h).cell
    rw [headPtr, vmmMunmapLoop, if_neg h0, hx]
    simp

lemma rangeEnd_some {length cap e : ℕ} (h : rangeEnd start length cap = some e) :
    e = start + length ∧ e ≤ cap ∧ e < 2 ^ 64 := by
  unfold rangeEnd at h
  split_ifs at h with h₁ h₂
  cases h
  exact ⟨rfl, by omega, by omega⟩

lemma alignUp_cases (hx : x < 2 ^ 64) : alignUp x pageSize % pageSize = 0 ∧
    (alignUp x pageSize = 0 ∨ (x ≤ alignUp x pageSize ∧ alignUp x pageSize < x + pageSize)) := by
  have hmod := alignUp_mod x
  refine ⟨hmod, ?_⟩
  by_cases hw : x + 4095 < 2 ^ 64
  · have := alignUp_two_pow (k := 12) hw (by norm_num)
    rw [show (2 : ℕ) ^ 12 = pageSize from rfl] at this
    rw [this]
    simp only [pageSize] at *
    omega
  left
  have hlt : u64 (x + (pageSize - 1)) < 4096 := by
    unfold u64 pageSize
    omega
  have := alignDown_two_pow (k := 12) (hlt.trans (by norm_num)) (by norm_num)
  rw [alignUp, show pageSize = 2 ^ 12 from rfl]
  rw [show (2 : ℕ) ^ 12 = 4096 by norm_num] at this ⊢
  rw [show (4096 : ℕ) - 1 = pageSize - 1 from rfl, this]
  omega

lemma alignDown_le_alignUp {y : ℕ} (hxy : x ≤ y) (hy : y < 2 ^ 64)
    (h0 : alignUp y pageSize ≠ 0) : alignDown x pageSize ≤ alignUp y pageSize := by
  have h1 := alignDown_le x pageSize
  rcases (alignUp_cases hy).2 with h | h
  · exact absurd h h0
  · omega

/-- **`vmm_munmap`** returns, with the areas of the range cut out unless its rounded end wraps. -/
theorem vmmMunmap_spec {s : Space P} (h : Listed s l) (addr length : ℕ) :
    ∃ r t l', vmmMunmap addr length s = some (r, t) ∧ Listed t l' ∧ SpaceStep UserPage s t ∧
      ((r = -eINVAL ∧ t = s ∧ l' = l ∧ 2 ^ 64 ≤ addr + length) ∨
       (r = 0 ∧ addr + length < 2 ^ 64 ∧ ((t = s ∧ l' = l) ∨
        (CutList (alignDown addr pageSize) (alignUp (addr + length) pageSize) l l' ∧
          alignDown addr pageSize ≤ alignUp (addr + length) pageSize ∧
          t.mm.machine = unmapAreas s.as.pt (alignDown addr pageSize)
            (alignUp (addr + length) pageSize) l s.mm.machine)))) := by
  unfold vmmMunmap
  cases he : rangeEnd addr length (2 ^ 64 - 1) with
  | none =>
    refine ⟨-eINVAL, s, l, rfl, h, .refl .., .inl ⟨rfl, rfl, rfl, ?_⟩⟩
    unfold rangeEnd at he
    split_ifs at he <;> omega
  | some e =>
    obtain ⟨rfl, -, hlt⟩ := rangeEnd_some he
    rw [h.linked.head, h.count]
    dsimp only
    by_cases hz : alignUp (addr + length) pageSize = 0
    · rw [hz, vmmMunmapLoop_zero _ _ h.linked]
      exact ⟨0, s, l, rfl, h, .refl .., .inr ⟨rfl, hlt, .inl ⟨rfl, rfl⟩⟩⟩
    have has := alignDown_aligned addr
    have hle := alignDown_le_alignUp (Nat.le_add_right addr length) hlt hz
    obtain ⟨t, l', ht, hl, hcut, -, hao⟩ := vmmMunmapLoop_spec hle has (alignUp_cases hlt).1
      (show Linked s ([] ++ l) from h.linked) (lt_add_one _)
    have hend : ∀ y ∈ l, y.2.stop ≤ userSpaceEnd := fun y hy => (h.ok y hy).stop_le
    rw [ht]
    refine ⟨0, t, l', rfl, hl.listed (hcut.stop_le hend), ⟨?_, hao.pt, hao.brkStart, hao.brkEnd⟩,
      .inr ⟨rfl, hlt, .inr ⟨hcut, hle, hao.machine⟩⟩⟩
    rw [hao.machine]
    refine (unmapAreas_steps s.as.pt has h.linked.ok s.mm.machine).mono ?_
    rintro p ⟨hp, y, hy, hlt⟩
    exact ⟨hp, hlt.trans_le (hend y hy)⟩

def NonEmpty (l : List (ℕ × Area)) : Prop := ∀ y ∈ l, y.2.start < y.2.stop

lemma Cut.nonEmpty (h : Cut start stop x a l) (ha : a.start < a.stop) : NonEmpty l := by
  intro y hy
  cases h with
  | remove => cases hy
  | split q h₁ h₂ =>
    simp only [mem_cons, not_mem_nil, or_false] at hy
    rcases hy with rfl | rfl
    · exact h₁
    · exact h₂
  | splitFail => rw [mem_singleton.mp hy]; exact ha
  | trimEnd h₁ => rw [mem_singleton.mp hy]; exact h₁
  | trimStart _ h₂ => rw [mem_singleton.mp hy]; exact h₂

lemma CutList.nonEmpty (h : CutList start stop l l') (hl : NonEmpty l) : NonEmpty l' :=
  h.forall_mem (Q := fun a => a.start < a.stop) (fun hcut _ ha => hcut.nonEmpty ha) hl

end Obelisk
